import RefPages.Diff.Edit

/-!
# Shortest edit scripts

A shortest edit script is found by searching from both ends at once. A state of the search is, for
every diagonal `k`, how far into the first list a path of a given number of edits can come; keeping
items costs nothing. Where the two searches meet on a diagonal the lists are cut, and both halves
are solved in the same way.
-/

namespace RefPages.Diff

variable {α : Type} [DecidableEq α]

/-- How far paths of a given number of edits come, by diagonal: where a path enters its diagonal and
how far it gets on it. -/
abbrev Front := List (Int × Nat × Nat)

/-- How far a path comes on a diagonal. -/
def Front.reach (front : Front) (k : Int) : Nat :=
  ((front.find? fun p => p.1 == k).map fun p => p.2.2).getD 0

/-- The diagonals that paths of `d` edits can end on, from the highest to the lowest. -/
def diagonals (d : Nat) : List Int :=
  (List.range (d + 1)).map fun (i : Nat) => (d : Int) - 2 * (i : Int)

def Front.initial : Front := [(1, 0, 0)]

def Front.next (xs ys : List α) (d : Nat) (front : Front) : Front :=
  (diagonals d).map fun k =>
    let down := k == -(d : Int) || (k != d && front.reach (k - 1) < front.reach (k + 1))
    let x := if down then front.reach (k + 1) else front.reach (k - 1) + 1
    let y := ((x : Int) - k).toNat
    (k, x, x + commonPrefix (xs.drop x) (ys.drop y))

/-- The place where the two searches meet, given their fronts after `d` edits. At most as many
further edits are tried as the number says. -/
def meeting? (xs ys : List α) : Nat → Nat → Front → Front → Option (Nat × Nat)
  | 0, _, _, _ => none
  | more + 1, d, forward, backward =>
    let n := xs.length
    let m := ys.length
    let delta : Int := (n : Int) - m
    let isOdd := delta % 2 != 0
    let forward := Front.next xs ys d forward
    let met := forward.find? fun (k, _, x) =>
      isOdd && (k - delta).natAbs + 1 ≤ d && n ≤ x + backward.reach (delta - k)
    match met with
    | some (k, start, _) => some (start, ((start : Int) - k).toNat)
    | none =>
      let backward := Front.next xs.reverse ys.reverse d backward
      let met := backward.find? fun (k, _, x) =>
        !isOdd && (k - delta).natAbs ≤ d && n ≤ x + forward.reach (delta - k)
      match met with
      | some (k, _, x) => some (n - x, m - ((x : Int) - k).toNat)
      | none => meeting? xs ys more (d + 1) forward backward

/-- The number of edits after which the two searches have met. -/
def maxRounds (xs ys : List α) : Nat := (xs.length + ys.length + 1) / 2 + 1

/-- A step for items that stay, if there are any. -/
def kept (items : List α) : List (Edit α) := if items.isEmpty then [] else [.keep items]

/-- A shortest edit script. The number limits how often the lists are cut. -/
def solve : Nat → List α → List α → List (Edit α)
  | 0, xs, ys => [.delete xs, .insert ys]
  | limit + 1, xs, ys =>
    let head := commonPrefix xs ys
    let innerXs := xs.drop head
    let innerYs := ys.drop head
    let tail := commonSuffix innerXs innerYs
    let restXs := innerXs.take (innerXs.length - tail)
    let restYs := innerYs.take (innerYs.length - tail)
    let middle :=
      match restXs, restYs with
      | [], [] => []
      | restXs, [] => [.delete restXs]
      | [], restYs => [.insert restYs]
      | restXs, restYs =>
        match meeting? restXs restYs (maxRounds restXs restYs) 0 .initial .initial with
        | none => [.delete restXs, .insert restYs]
        | some (x, y) =>
          solve limit (restXs.take x) (restYs.take y) ++ solve limit (restXs.drop x) (restYs.drop y)
    kept (xs.take head) ++ middle ++ kept (innerXs.drop (innerXs.length - tail))

/-- A shortest edit script between two lists. -/
def shortest (xs ys : List α) : List (Edit α) := solve (xs.length + ys.length + 1) xs ys

end RefPages.Diff
