import RefPages.Diff.Edit

/-!
# Compact edit scripts

A shortest script can often be moved: an inserted part that ends like the kept part before it can be
put in earlier, and one that starts like the kept part after it later. Parts are moved up as far as
they go and then down as far as they go; parts of one kind that come to stand side by side are
joined. At last the deletions between two kept parts are put before the insertions.
-/

namespace RefPages.Diff

variable {α : Type} [DecidableEq α]

/-- A script with one step in hand: the steps before it, nearest first, and those after it. -/
structure Focus (α : Type) where
  above : List (Edit α)
  edit : Edit α
  below : List (Edit α)

def weight (script : List (Edit α)) : Nat := script.foldr (fun e n => e.length + 1 + n) 0

omit [DecidableEq α] in
@[simp] theorem weight_cons (e : Edit α) (script : List (Edit α)) :
    weight (e :: script) = e.length + 1 + weight script := by simp [weight]

/-- Keep some more items at the start of a script. -/
def keepFirst (items : List α) : List (Edit α) → List (Edit α)
  | .keep more :: script => .keep (items ++ more) :: script
  | script => .keep items :: script

/-- Keep some more items at the end of a script that is given backwards. -/
def keepLast (items : List α) : List (Edit α) → List (Edit α)
  | .keep more :: script => .keep (more ++ items) :: script
  | script => .keep items :: script

def Focus.up (above : List (Edit α)) (edit : Edit α) (below : List (Edit α)) : Focus α :=
  match above with
  | [] => ⟨[], edit, below⟩
  | .keep items :: above' =>
    let shared := match edit with
      | .insert new => commonSuffix items new
      | _ => 0
    if items.isEmpty then up above' edit below
    else if _h : shared = 0 then ⟨.keep items :: above', edit, below⟩
    else
      let left := items.take (items.length - shared)
      let moved := items.drop (items.length - shared)
      let edit := Edit.insert (moved ++ edit.after.take (edit.after.length - shared))
      let below := keepFirst moved below
      up (.keep left :: above') edit below
  | .insert new :: above' =>
    match edit with
    | .insert more => up above' (.insert (new ++ more)) below
    | _ => up above' edit (.insert new :: below)
  | .delete old :: above' =>
    match edit with
    | .delete more => up above' (.delete (old ++ more)) below
    | _ => up above' edit (.delete old :: below)
termination_by weight above
decreasing_by
  · simp only [weight_cons, Edit.length]; omega
  · have : items.length ≠ 0 := by simp_all
    simp only [weight_cons, Edit.length, List.length_take]; omega
  all_goals simp only [weight_cons, Edit.length]; omega

def Focus.down (above : List (Edit α)) (edit : Edit α) (below : List (Edit α)) : Focus α :=
  match below with
  | [] => ⟨above, edit, []⟩
  | .keep items :: below' =>
    let shared := match edit with
      | .insert new => commonPrefix items new
      | _ => 0
    if items.isEmpty then down above edit below'
    else if _h : shared = 0 then ⟨above, edit, .keep items :: below'⟩
    else
      let moved := items.take shared
      let left := items.drop shared
      let edit := Edit.insert (edit.after.drop shared ++ moved)
      down (keepLast moved above) edit (.keep left :: below')
  | .insert new :: below' =>
    match edit with
    | .insert more => down above (.insert (more ++ new)) below'
    | _ => down (.insert new :: above) edit below'
  | .delete old :: below' =>
    match edit with
    | .delete more => down above (.delete (more ++ old)) below'
    | _ => down (.delete old :: above) edit below'
termination_by weight below
decreasing_by
  · simp only [weight_cons, Edit.length]; omega
  · have : items.length ≠ 0 := by simp_all
    simp only [weight_cons, Edit.length, List.length_drop]; omega
  all_goals simp only [weight_cons, Edit.length]; omega

def moveAll (isMoved : Edit α → Bool) :
    Nat → List (Edit α) → List (Edit α) → List (Edit α)
  | 0, above, below => above.reverse ++ below
  | _ + 1, above, [] => above.reverse
  | limit + 1, above, edit :: below =>
    if isMoved edit then
      let raised := Focus.up above edit below
      let lowered := Focus.down raised.above raised.edit raised.below
      moveAll isMoved limit (lowered.edit :: lowered.above) lowered.below
    else moveAll isMoved limit (edit :: above) below

def Edit.isDelete : Edit α → Bool
  | .delete _ => true
  | _ => false

def Edit.isInsert : Edit α → Bool
  | .insert _ => true
  | _ => false

/-- Move the deletions and then the insertions of a script. -/
def compact (script : List (Edit α)) : List (Edit α) :=
  let limit := (weight script + 2) * (weight script + 2)
  let script := moveAll Edit.isDelete limit [] script
  moveAll Edit.isInsert limit [] script

/-! ### Single changes -/

inductive Change (α : Type) where
  | same (item : α)
  | removed (item : α)
  | added (item : α)
deriving DecidableEq, Repr

/-- The changes of a script, where the given items are still to be removed and to be added before
the next kept one. -/
def changesFrom : List α → List α → List (Edit α) → List (Change α)
  | removed, added, [] => removed.map .removed ++ added.map .added
  | removed, added, .delete items :: script => changesFrom (removed ++ items) added script
  | removed, added, .insert items :: script => changesFrom removed (added ++ items) script
  | removed, added, .keep items :: script =>
    removed.map .removed ++ added.map .added ++ items.map .same ++ changesFrom [] [] script

def changes (script : List (Edit α)) : List (Change α) := changesFrom [] [] script

end RefPages.Diff
