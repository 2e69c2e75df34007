import Mathlib.Data.List.TakeWhile
import RefPages.Source.File

/-!
# Signatures and their arguments

The arguments of a method are read back from its signature: what stands between the first
parenthesis and the one at the end.

    scale(by: number)          by: number
    area(px)(unit: string)     px)(unit: string

Types may hold parentheses as they like, since the first one is what counts. A name may hold one as
well, if it is written as a string or in brackets, and then a part of the name is read as arguments.
-/

namespace RefPages

namespace Method

/-- What is read as arguments of a name and of the parenthesis after it: all that follows the first
parenthesis of the name. -/
def surplus (name : List Char) : List Char :=
  match name.dropWhile (· != '(') with
  | [] => []
  | _ :: rest => rest ++ ['(']

/-- Nothing is read in excess of the arguments if and only if no parenthesis is in the name. -/
theorem surplus_eq_nil_iff {name : List Char} : surplus name = [] ↔ '(' ∉ name := by
  have hdrop : name.dropWhile (· != '(') = [] ↔ '(' ∉ name := by
    simp [List.dropWhile_eq_nil_iff, List.forall_mem_ne']
  rw [← hdrop, surplus]
  split
  · next hnil => simp [hnil]
  · next hcons => simp [hcons]

/-- Behind the first parenthesis stands what is in excess, and then the arguments. -/
theorem dropWhile_signature (name inner : List Char) :
    (name ++ '(' :: inner).dropWhile (· != '(') = '(' :: (surplus name ++ inner) := by
  induction name with
  | nil => rfl
  | cons c cs ih =>
    by_cases hc : c = '('
    · subst hc
      simp [surplus]
    · have hsurplus : surplus (c :: cs) = surplus cs := by simp [surplus, hc]
      rw [List.cons_append, List.dropWhile_cons_of_pos (by simpa using hc), ih, hsurplus]

/-- The arguments of a signature are the list that it was built with, behind what is left of the
name. -/
theorem arguments_of (name comment : String) (parameters : List Member) :
    (Method.of name comment parameters).arguments =
      String.ofList (surplus name.toList) ++ argumentList parameters := by
  have hsignature : (Method.of name comment parameters).signature.toList =
      name.toList ++ '(' :: ((argumentList parameters).toList ++ [')']) := by
    simp [Method.of]
  rw [arguments, hsignature, dropWhile_signature]
  simp [← List.append_assoc, String.ofList_append]

/-- The arguments are read back if and only if no parenthesis is in the name. -/
theorem arguments_of_eq_iff {name comment : String} {parameters : List Member} :
    (Method.of name comment parameters).arguments = argumentList parameters ↔
      '(' ∉ name.toList := by
  rw [arguments_of, ← surplus_eq_nil_iff, ← String.toList_inj]
  simp

end Method

namespace Source

/-- The name of a constructor is no string, so its quotes are no matter. -/
theorem name_methodOf_of_isConstructor {before : List Syntax.Node} {n : Syntax.Node}
    (h : isConstructor n = true) : (methodOf before n).name = "constructor" := by
  simp only [isConstructor, writtenName?, Bool.and_eq_true, beq_iff_eq,
    Option.map_eq_some_iff] at h
  obtain ⟨-, name, hname, htext⟩ := h
  have hwritten : propertyName name = "constructor" := by
    rw [propertyName, htext]
    split
    · decide
    · rfl
  rw [methodOf, hname]
  exact hwritten

end Source

namespace SourceFile

open Source

/-- **The arguments of a signature are the list of its parameters, unless the name has a
parenthesis.** Those of a constructor always are. -/
theorem arguments_of_methods (f : SourceFile) (className : String) :
    (∀ m, f.constructor? className = some m →
      m.arguments = Method.argumentList m.parameters) ∧
    ∀ m ∈ f.methods className,
      m.arguments = String.ofList (Method.surplus m.name.toList) ++
        Method.argumentList m.parameters ∧
      (m.arguments = Method.argumentList m.parameters ↔ '(' ∉ m.name.toList) := by
  constructor
  · intro m hm
    obtain ⟨⟨before, n⟩, hn, rfl⟩ := Option.map_eq_some_iff.1 hm
    obtain ⟨d, -, hconstructor⟩ := Option.bind_eq_some_iff.1 hn
    unfold Source.constructor? at hconstructor
    have hkind := List.find?_some hconstructor
    -- the name of a constructor is known, and it has no parenthesis
    have hname : (methodOf before n).name = "constructor" := name_methodOf_of_isConstructor hkind
    refine Method.arguments_of_eq_iff.2 ?_
    change '(' ∉ (methodOf before n).name.toList
    rw [hname]
    decide
  · intro m hm
    unfold methods at hm
    split at hm
    · simp at hm
    · obtain ⟨⟨before, n⟩, -, rfl⟩ := List.mem_map.1 hm
      exact ⟨Method.arguments_of _ _ _, Method.arguments_of_eq_iff⟩

/-- A class with parentheses in the types of its arguments. -/
def callbacks : String :=
  "class Shape \x7b
  constructor(done: (n: number) => void) \x7b\x7d
  \"scale it\"(by: (a: (b: 1) => 2) => 3, to?: 4) \x7b\x7d
\x7d"

/-- A class with parentheses in the name of a method. -/
def measured : String :=
  "class Shape \x7b
  \"area(px)\"(unit: string) \x7b\x7d
\x7d"

theorem arguments_of_methods_callbacks :
    ∃ f c m, SourceFile.parse "a.ts" callbacks = .ok f ∧ f.constructor? "Shape" = some c ∧
      c.arguments = Method.argumentList c.parameters ∧ m ∈ f.methods "Shape" ∧
      m.name = "scale it" ∧ m.arguments = "by: (a: (b: 1) => 2) => 3, to?: 4" := by
  obtain ⟨f, hf, hconstructor, m, hm, hname, hlist⟩ :
      ∃ f, SourceFile.parse "a.ts" callbacks = .ok f ∧
        (f.constructor? "Shape").isSome = true ∧ ∃ m ∈ f.methods "Shape", m.name = "scale it" ∧
          Method.argumentList m.parameters = "by: (a: (b: 1) => 2) => 3, to?: 4" :=
    exists_of_parse (by decide +kernel)
  obtain ⟨c, hc⟩ := Option.isSome_iff_exists.1 hconstructor
  have hplain : '(' ∉ m.name.toList := by
    rw [hname]
    decide
  refine ⟨f, c, m, hf, hc, (arguments_of_methods f "Shape").1 c hc, hm, hname, ?_⟩
  rw [((arguments_of_methods f "Shape").2 m hm).2.2 hplain, hlist]

theorem arguments_of_name :
    ∃ f, SourceFile.parse "a.ts" measured = .ok f ∧ ∃ m ∈ f.methods "Shape",
      m.name = "area(px)" ∧ m.arguments = "px)(unit: string" ∧
      Method.argumentList m.parameters = "unit: string" :=
  exists_of_parse (by decide +kernel)

end SourceFile

end RefPages
