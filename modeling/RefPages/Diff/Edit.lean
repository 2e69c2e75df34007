/-!
# Edits

An edit script turns one list into another: parts that stay, parts that are taken out and parts that
are put in.
-/

namespace RefPages.Diff

variable {α : Type}

inductive Edit (α : Type) where
  | keep (items : List α)
  | delete (items : List α)
  | insert (items : List α)
deriving DecidableEq, Repr

/-- What a step adds to the second list. -/
def Edit.after : Edit α → List α
  | .keep items | .insert items => items
  | .delete _ => []

def Edit.length : Edit α → Nat
  | .keep items | .delete items | .insert items => items.length

/-! ### Common ends -/

variable [DecidableEq α]

def commonPrefix : List α → List α → Nat
  | x :: xs, y :: ys => if x = y then commonPrefix xs ys + 1 else 0
  | _, _ => 0

def commonSuffix (xs ys : List α) : Nat := commonPrefix xs.reverse ys.reverse

end RefPages.Diff
