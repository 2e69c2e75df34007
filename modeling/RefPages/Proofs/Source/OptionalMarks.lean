import RefPages.Proofs.Source.Interrupted

/-!
# Question marks in signatures

An item of a signature is made from what a page shows of a parameter: its name, its type, its
default and whether it has to be given. Whether the source marks it with a question mark is told
from that. An optional parameter has not to be given and has no default, but neither has one that
takes all remaining arguments:

    draw(a: A, b?: B, c: C = 1)      draw(a: A, b?: B, c: C)
    draw(...rest: D[])               draw(...rest?: D[])

`Binding` is what the source says of an argument, before any of it is lost.
-/

namespace RefPages.Source

open Syntax

/-! ### Arguments as they are declared -/

/-- What the source says of an argument. -/
structure Binding where
  pattern : Node
  type : TypeText
  default? : Option String
  /-- Is the pattern marked with a question mark? -/
  optional : Bool

namespace Binding

/-- The argument that binds a pattern. `this` is no argument. -/
def ofPattern? (pattern : Node) (type : TypeText) (default? : Option String) (optional : Bool) :
    Option Binding :=
  if pattern.is .this then none else some ⟨pattern, type, default?, optional⟩

/-- The argument that a parameter stands for. -/
def of? (p : Node) : Option Binding :=
  match p.kind with
  | .requiredParameter | .optionalParameter =>
    (p.field? .pattern).bind fun pattern =>
      ofPattern? pattern (ascribedText (p.field? .type))
        ((p.field? .value).map fun value : Node => Text.collapsed value.text)
        (p.is .optionalParameter)
  | .identifier => ofPattern? p TypeText.any none false
  | _ => none

/-- The name of an argument, with the dots of one that takes all that remain. -/
def name (b : Binding) : String := Text.collapsed b.pattern.text

def isRest (b : Binding) : Bool := b.pattern.is .restPattern

def item (b : Binding) (marked : Bool) : String :=
  b.name ++ (if marked then "?" else "") ++ ": " ++ b.type.text

/-- The item that repeats what the source says: it is marked if the source marks the argument, and
gives it no default. -/
def declaredItem (b : Binding) : String := b.item (b.optional && b.default?.isNone)

/-- The item that is shown. -/
def shownItem (b : Binding) : String := b.item ((b.optional || b.isRest) && b.default?.isNone)

def member (doc : Comment) (b : Binding) : Member :=
  ⟨b.name, b.type, (doc.param? (String.ofList (dropDots b.name.toList))).getD "",
    !b.optional && !b.isRest && b.default?.isNone, b.default?⟩

theorem parameterOf?_eq_map (doc : Comment) (pattern : Node) (type : TypeText)
    (default? : Option String) (optional : Bool) :
    parameterOf? doc pattern type default? optional =
      (ofPattern? pattern type default? optional).map (member doc) := by
  unfold parameterOf? ofPattern?
  split <;> rfl

/-- A shown parameter is made from what the source says of the argument. -/
theorem parameter?_eq_map (doc : Comment) (p : Node) :
    parameter? doc p = (of? p).map (member doc) := by
  -- the two typed kinds share one reading; a bare name is the only other parameter
  by_cases htyped : p.kind = .requiredParameter ∨ p.kind = .optionalParameter
  · have hof : of? p = (p.field? .pattern).bind fun pattern =>
        ofPattern? pattern (ascribedText (p.field? .type))
          ((p.field? .value).map fun value : Node => Text.collapsed value.text)
          (p.is .optionalParameter) := by
      unfold of?
      rcases htyped with h | h <;> rw [h]
    rw [parameter?_of_typed htyped, hof, Option.map_bind]
    exact congrArg _ (funext fun pattern => parameterOf?_eq_map doc pattern _ _ _)
  · unfold parameter? of?
    cases hkind : p.kind with
    | requiredParameter | optionalParameter => exact absurd hkind (by tauto)
    | identifier => exact parameterOf?_eq_map doc p _ _ _
    | _ => rfl

/-- The item in a signature is a function of what the source says. -/
theorem inSignature_member (doc : Comment) (b : Binding) :
    (b.member doc).inSignature = b.shownItem := by
  have hmark : (!b.optional && !b.isRest && b.default?.isNone || b.default?.isSome) =
      !((b.optional || b.isRest) && b.default?.isNone) := by
    cases b.default? <;> cases b.optional <;> cases b.isRest <;> rfl
  show b.name ++ (if !b.optional && !b.isRest && b.default?.isNone || b.default?.isSome then ""
    else "?") ++ ": " ++ b.type.text = b.item _
  rw [hmark, item]
  cases (b.optional || b.isRest) && b.default?.isNone <;> rfl

theorem item_inj {b : Binding} {marked marked' : Bool} :
    b.item marked = b.item marked' ↔ marked = marked' := by
  refine ⟨fun h => ?_, fun h => h ▸ rfl⟩
  have hlength := congrArg String.length h
  cases marked <;> cases marked' <;> simp [item] at hlength ⊢

variable {b : Binding}

/-- An argument without a default is marked if it is optional or takes all that remain. -/
theorem shownItem_eq_marked_iff : b.shownItem = b.item true ↔
    (b.optional = true ∨ b.isRest = true) ∧ b.default? = none := by
  rw [shownItem, item_inj]
  simp

theorem shownItem_eq_plain_iff : b.shownItem = b.item false ↔
    ¬((b.optional = true ∨ b.isRest = true) ∧ b.default? = none) := by
  rw [← shownItem_eq_marked_iff, shownItem, item_inj, item_inj, Bool.not_eq_true]

/-- An argument that takes all that remain is the only one that gets a mark of its own. -/
theorem shownItem_eq_declaredItem_iff : b.shownItem = b.declaredItem ↔
    (b.isRest = true → b.optional = true ∨ b.default?.isSome = true) := by
  rw [shownItem, declaredItem, item_inj]
  cases b.default? <;> cases b.optional <;> cases b.isRest <;> simp

end Binding

/-! ### Signatures -/

/-- The arguments of a function, in order. -/
def bindings (function : Node) : List Binding := (parameterNodes function).filterMap Binding.of?

/-- A signature is the name of the method and the items of its arguments. -/
theorem signature_methodOf (before : List Node) (n : Node) :
    (methodOf before n).signature = (methodOf before n).name ++ "(" ++
      ", ".intercalate ((bindings n).map Binding.shownItem) ++ ")" := by
  have hitems (doc : Comment) : ((parameterNodes n).filterMap (parameter? doc)).map
      Member.inSignature = (bindings n).map Binding.shownItem := by
    rw [funext (Binding.parameter?_eq_map doc), bindings, ← List.map_filterMap, List.map_map]
    exact congrArg (List.map · _) (funext (Binding.inSignature_member doc))
  rw [methodOf_eq, methodWith, Method.of, Method.argumentList, hitems]

end RefPages.Source

namespace RefPages.SourceFile

open Source Syntax

/-- **A signature marks the arguments that the source marks and gives no default, and those that
take all that remain.** All other items have no question mark, whatever their patterns are, so the
items repeat what the source says but for the arguments that take all that remain. -/
theorem signature_marks (f : SourceFile) (className : String) {m : Method}
    (hm : f.constructor? className = some m ∨ m ∈ f.methods className) :
    ∃ before n, (f.constructorPlace? className = some (before, n) ∨
        (before, n) ∈ f.methodPlaces className) ∧
      m = methodOf before n ∧
      m.signature =
        m.name ++ "(" ++ ", ".intercalate ((bindings n).map Binding.shownItem) ++ ")" ∧
      ∀ b ∈ bindings n,
        (b.shownItem = b.item true ↔
          (b.optional = true ∨ b.isRest = true) ∧ b.default? = none) ∧
        (b.shownItem = b.item false ↔
          ¬((b.optional = true ∨ b.isRest = true) ∧ b.default? = none)) ∧
        (b.shownItem = b.declaredItem ↔
          (b.isRest = true → b.optional = true ∨ b.default?.isSome = true)) := by
  -- a method is shown from its place in the class
  obtain ⟨before, n, hplace, rfl⟩ : ∃ before n,
      (f.constructorPlace? className = some (before, n) ∨
        (before, n) ∈ f.methodPlaces className) ∧ m = methodOf before n := by
    rcases hm with hm | hm
    · obtain ⟨⟨before, n⟩, hplace, rfl⟩ := Option.map_eq_some_iff.1 hm
      exact ⟨before, n, .inl hplace, rfl⟩
    · rw [methods_eq_map] at hm
      obtain ⟨⟨before, n⟩, hplace, rfl⟩ := List.mem_map.1 hm
      exact ⟨before, n, .inr hplace, rfl⟩
  exact ⟨before, n, hplace, rfl, signature_methodOf before n, fun b _ =>
    ⟨Binding.shownItem_eq_marked_iff, Binding.shownItem_eq_plain_iff,
      Binding.shownItem_eq_declaredItem_iff⟩⟩

/-! ### Signatures with and without an argument that takes all that remain -/

namespace Marked

def source (parameters : String) : String :=
  "class A \x7b
  run(" ++ parameters ++ ") \x7b\x7d
\x7d"

end Marked

open Marked

/-- With all other kinds of arguments. -/
theorem signature_marks_declared :
    ∃ f m before n,
      SourceFile.parse "a.ts"
        (source "this: A, \x7b\x7d: 1, b?: 2, c = 3, ...d: 4[] = []") = .ok f ∧
      m ∈ f.methods "A" ∧ (before, n) ∈ f.methodPlaces "A" ∧
      m.signature =
        m.name ++ "(" ++ ", ".intercalate ((bindings n).map Binding.declaredItem) ++ ")" ∧
      m.signature = "run(\x7b\x7d: 1, b?: 2, c: any, ...d: 4[])" := by
  obtain ⟨f, hf, hconstructor, ⟨m, hm, hsignature⟩, hrest⟩ : ∃ f,
      SourceFile.parse "a.ts"
        (source "this: A, \x7b\x7d: 1, b?: 2, c = 3, ...d: 4[] = []") = .ok f ∧
      (f.constructorPlace? "A").isNone = true ∧
      (∃ m ∈ f.methods "A", m.signature = "run(\x7b\x7d: 1, b?: 2, c: any, ...d: 4[])") ∧
      ∀ x ∈ f.methodPlaces "A", ∀ b ∈ bindings x.2,
        b.isRest = true → b.optional = true ∨ b.default?.isSome = true :=
    exists_of_parse (by decide +kernel)
  obtain ⟨before, n, hplace, -, hitems, hmarks⟩ := signature_marks f "A" (.inr hm)
  have hplace : (before, n) ∈ f.methodPlaces "A" := by
    refine hplace.resolve_left fun h => ?_
    rw [h] at hconstructor
    cases hconstructor
  have hdeclared : (bindings n).map Binding.shownItem = (bindings n).map Binding.declaredItem :=
    List.map_congr_left fun b hb => (hmarks b hb).2.2.2 (hrest _ hplace b hb)
  rw [hdeclared] at hitems
  exact ⟨f, m, before, n, hf, hm, hplace, hitems, hsignature⟩

/-- With an argument that takes all that remain and has no default. -/
theorem signature_marks_rest :
    ∃ f, SourceFile.parse "a.ts" (source "...rest: 1[]") = .ok f ∧
      (f.methods "A").map Method.signature = ["run(...rest?: 1[])"] ∧
      (f.methodPlaces "A").map (fun x => (bindings x.2).map Binding.declaredItem) =
        [["...rest: 1[]"]] :=
  exists_of_parse (by decide +kernel)

end RefPages.SourceFile
