import RefPages.Proofs.Source.ThinnedFile

/-!
# Comments between siblings

The comment of a declaration is looked for in two walks over the siblings before it: one to the
first of its overloads, and from there one to the nearest documentation comment. Only the second one
steps over comments that document nothing:

    /** Uses. */                    /** Uses. */
    // plain                        function use(a: 1): void;
    function use(a: 1): void;       // plain
    function use(a: any) {}         function use(a: any) {}        no comment

Where such a comment stands between two overloads, the first walk ends at it and the second one at
the overload behind it (`isInterrupted`). Everywhere else it makes no difference.
-/

namespace RefPages.Source

open Syntax

/-! ### Overloads -/

theorem overloadName?_of_isPlain {n : Node} (h : n.isPlain = true) : overloadName? n = none := by
  rw [overloadName?_eq, Node.kind_of_isPlain h]

/-- The walk over overloads goes past an overload of the name, and ends at everything else. -/
theorem beforeOverloads_cons_of_overload {name : String} {n : Node} {before : List Node}
    (h : overloadName? n = some name) :
    beforeOverloads name (n :: before) = beforeOverloads name before := by
  rw [beforeOverloads, if_pos (by simp [h])]

theorem beforeOverloads_cons_of_other {name : String} {n : Node} {before : List Node}
    (h : overloadName? n ≠ some name) :
    beforeOverloads name (n :: before) = n :: before := by
  rw [beforeOverloads, if_neg (by simpa using h)]

theorem leadingComment?_cons_of_overload {name : String} {n : Node} {before : List Node}
    (h : overloadName? n = some name) : leadingComment? (n :: before) = none := by
  rw [overloadName?_eq] at h
  unfold leadingComment?
  cases hkind : n.kind <;> rw [hkind] at h <;> first | rfl | cases h

/-! ### Interrupted overloads -/

/-- Does an overload of a name stand behind nothing but comments that document nothing? -/
def hidesOverload (name : String) (before : List Node) : Bool :=
  (before.dropWhile Node.isPlain).head?.any fun n => overloadName? n == some name

/-- Do such comments stand between two overloads of a name? -/
def isInterrupted (name : String) (before : List Node) : Bool :=
  hidesOverload name (beforeOverloads name before)

theorem hidesOverload_cons_of_isPlain {name : String} {n : Node} {before : List Node}
    (h : n.isPlain = true) : hidesOverload name (n :: before) = hidesOverload name before := by
  rw [hidesOverload, List.dropWhile_cons_of_pos h, hidesOverload]

/-- Behind comments that document nothing, the first other sibling decides. -/
theorem hidesOverload_cons {name : String} {n : Node} {before : List Node}
    (h : n.isPlain = false) :
    hidesOverload name (n :: before) = (overloadName? n == some name) := by
  rw [hidesOverload, List.dropWhile_cons_of_neg (by simp [h])]
  rfl

/-- The search for a comment stops at an overload. -/
theorem leadingComment?_of_hidesOverload {name : String} {before : List Node}
    (h : hidesOverload name before = true) : leadingComment? before = none := by
  induction before with
  | nil => rfl
  | cons n before ih =>
    cases hplain : n.isPlain with
    | true =>
      rw [hidesOverload_cons_of_isPlain hplain] at h
      rw [leadingComment?_cons_of_isPlain hplain, ih h]
    | false =>
      rw [hidesOverload_cons hplain, beq_iff_eq] at h
      exact leadingComment?_cons_of_overload h

/-- Where no overload is hidden, the siblings left have the same comment, above overloads or not. -/
theorem leadingComment?_beforeOverloads {name : String} {before before' : List Node}
    (h : Node.ThinsAll before before') (hhides : hidesOverload name before = false) :
    leadingComment? before = leadingComment? (beforeOverloads name before') := by
  induction h with
  | nil => rfl
  | @keep n m before before' hnm hrest _ =>
    -- a sibling that stays is no overload, so the walk to the first overload ends at it
    have hother : overloadName? m ≠ some name := by
      rw [← isLikeness_thins.overloadName?_eq_of_rel hnm]
      cases hplain : n.isPlain with
      | true => simp [overloadName?_of_isPlain hplain]
      | false => simpa [hidesOverload_cons hplain] using hhides
    rw [beforeOverloads_cons_of_other hother]
    exact isLikeness_thins.leadingComment?_eq (.keep hnm hrest)
  | drop hplain _ ih =>
    rw [hidesOverload_cons_of_isPlain hplain] at hhides
    rw [leadingComment?_cons_of_isPlain hplain, ih hhides]

/-- Where no overloads are interrupted, the comment is the same with fewer comments around it. -/
theorem commentOf?_of_not_interrupted {name : String} {before before' : List Node}
    (h : Node.ThinsAll before before') (hinterrupted : isInterrupted name before = false) :
    commentOf? name before = commentOf? name before' := by
  unfold isInterrupted at hinterrupted
  unfold commentOf?
  -- the walk up passes the overloads; the first node that is none decides
  induction h with
  | nil => rfl
  | @keep n m before before' hnm hrest ih =>
    by_cases hoverload : overloadName? n = some name
    · have hoverload' : overloadName? m = some name :=
        isLikeness_thins.overloadName?_eq_of_rel hnm ▸ hoverload
      rw [beforeOverloads_cons_of_overload hoverload] at hinterrupted ⊢
      rw [beforeOverloads_cons_of_overload hoverload']
      exact ih hinterrupted
    · rw [beforeOverloads_cons_of_other hoverload] at hinterrupted ⊢
      exact leadingComment?_beforeOverloads (.keep hnm hrest) hinterrupted
  | @drop n before before' hplain hrest _ =>
    -- a plain comment is no overload, so the walk would stop here
    have hother : overloadName? n ≠ some name := by simp [overloadName?_of_isPlain hplain]
    rw [beforeOverloads_cons_of_other hother] at hinterrupted ⊢
    exact leadingComment?_beforeOverloads (.drop hplain hrest) hinterrupted

/-- The comment of a declaration is lost just where its overloads are interrupted. -/
theorem commentOf?_thins {name : String} {before before' : List Node}
    (h : Node.ThinsAll before before') :
    commentOf? name before =
      if isInterrupted name before then none else commentOf? name before' := by
  split
  · next hinterrupted => exact leadingComment?_of_hidesOverload hinterrupted
  · next hinterrupted => exact commentOf?_of_not_interrupted h (by simpa using hinterrupted)

/-! ### Methods -/

def withoutComment (p : Member) : Member := { p with comment := "" }

def undocumented (m : Method) : Method :=
  ⟨m.name, m.signature, "", m.parameters.map withoutComment⟩

theorem argumentList_withoutComment (ps : List Member) :
    Method.argumentList (ps.map withoutComment) = Method.argumentList ps := by
  unfold Method.argumentList
  rw [List.map_map]
  rfl

theorem undocumented_of (name comment : String) (ps : List Member) :
    undocumented (Method.of name comment ps) = Method.of name "" (ps.map withoutComment) := by
  rw [Method.of, Method.of, argumentList_withoutComment]
  rfl

def methodWith (doc : Comment) (n : Node) : Method :=
  Method.of (((n.field? .name).map propertyName).getD "") (doc.textWithout [Comment.paramTag])
    ((parameterNodes n).filterMap (parameter? doc))

def methodComment? (before : List Node) (n : Node) : Option Comment :=
  match writtenName? n with
  | none => leadingComment? before
  | some name => commentOf? name before

/-- Do comments that document nothing stand between the overloads of a method? -/
def isInterruptedMethod (before : List Node) (n : Node) : Bool :=
  (writtenName? n).any fun name => isInterrupted name before

theorem methodOf_eq (before : List Node) (n : Node) :
    methodOf before n = methodWith ((methodComment? before n).getD Comment.empty) n := by
  unfold methodOf methodComment?
  cases writtenName? n <;> rfl

/-- The comment of a method is lost if its overloads are interrupted, and is the same otherwise. -/
theorem methodComment?_thins {before before' : List Node} {n m : Node}
    (hbefore : Node.ThinsAll before before') (h : n.Thins m) :
    methodComment? before n =
      if isInterruptedMethod before n then none else methodComment? before' m := by
  unfold methodComment? isInterruptedMethod
  rw [isLikeness_thins.writtenName?_eq h]
  cases writtenName? m with
  | none => exact isLikeness_thins.leadingComment?_eq hbefore
  | some name => exact commentOf?_thins hbefore

/-- Apart from its comment a method is the same with fewer comments around it. -/
theorem methodWith_thins {n m : Node} (doc : Comment) (h : n.Thins m) :
    methodWith doc n = methodWith doc m := by
  have hname : (n.field? .name).map propertyName = (m.field? .name).map propertyName :=
    map_eq_of_rel h.name? fun _ _ _ hcd => propertyName_thins hcd.1 hcd.2
  have hparameters : (parameterNodes n).filterMap (parameter? doc) =
      (parameterNodes m).filterMap (parameter? doc) :=
    filterMap_eq_of_forall₂ (parameterNodes_thins h) fun _ _ => parameter?_thins doc
  rw [methodWith, methodWith, hname, hparameters]

theorem parameterOf?_empty (doc : Comment) (pattern : Node) (type : TypeText)
    (default? : Option String) (optional : Bool) :
    parameterOf? Comment.empty pattern type default? optional =
      (parameterOf? doc pattern type default? optional).map withoutComment := by
  unfold parameterOf?
  split
  · rfl
  · rfl

/-- A comment that says nothing gives a parameter without its comment, and changes nothing else. -/
theorem parameter?_empty (doc : Comment) (n : Node) :
    parameter? Comment.empty n = (parameter? doc n).map withoutComment := by
  unfold parameter?
  split
  · split
    · rfl
    · exact parameterOf?_empty ..
  · split
    · rfl
    · exact parameterOf?_empty ..
  · exact parameterOf?_empty ..
  · rfl

/-- So a method without a comment is the undocumented method. -/
theorem methodWith_empty (doc : Comment) (n : Node) :
    methodWith Comment.empty n = undocumented (methodWith doc n) := by
  have hparameters : (parameterNodes n).filterMap (parameter? Comment.empty) =
      ((parameterNodes n).filterMap (parameter? doc)).map withoutComment := by
    rw [List.map_filterMap, funext (parameter?_empty doc)]
  rw [methodWith, methodWith, undocumented_of, hparameters]
  rfl

/-- The method as it is shown if its overloads are interrupted or not. -/
def shownIf (interrupted : Bool) (m : Method) : Method :=
  if interrupted then undocumented m else m

/-- What a page shows of a method. -/
theorem methodOf_thins {before before' : List Node} {n m : Node}
    (hbefore : Node.ThinsAll before before') (h : n.Thins m) :
    methodOf before n = shownIf (isInterruptedMethod before n) (methodOf before' m) := by
  rw [methodOf_eq before n, methodOf_eq before' m, methodComment?_thins hbefore h, shownIf]
  split
  · rw [← methodWith_thins _ h]
    exact methodWith_empty _ n
  · exact methodWith_thins _ h

end RefPages.Source

namespace RefPages.SourceFile

open Source Syntax

/-- Do comments that document nothing stand between the overloads of a subject? -/
def interrupts (f : SourceFile) (s : Subject) : Bool :=
  (f.subject? s).any fun d => isInterrupted s.name d.before

def constructorPlace? (f : SourceFile) (className : String) : Option (List Node × Node) :=
  (f.class? className).bind fun d => Source.constructor? d.node

def methodPlaces (f : SourceFile) (className : String) : List (List Node × Node) :=
  match f.class? className with
  | none => []
  | some d => (classMembers d.node).filter fun (_, n) => isPublicMethod n

/-- Do comments that document nothing stand between the overloads of a class's constructor? -/
def interruptsConstructor (f : SourceFile) (className : String) : Bool :=
  (f.constructorPlace? className).any fun x => isInterruptedMethod x.1 x.2

/-- For each public method of a class, whether its overloads are interrupted. -/
def interruptedMethods (f : SourceFile) (className : String) : List Bool :=
  (f.methodPlaces className).map fun x => isInterruptedMethod x.1 x.2

variable {f g : SourceFile}

/-- The comment of a subject is lost if its overloads are interrupted, and is the same otherwise. -/
theorem comment?_thins (h : f.Thins g) (s : Subject) :
    f.comment? s = if f.interrupts s then none else g.comment? s := by
  unfold comment? interrupts
  rcases none_or_some_of_rel (subject?_thins h s) with ⟨hf, hg⟩ | ⟨d, e, hf, hg, hde⟩
  · rw [hf, hg]
    rfl
  · rw [hf, hg]
    exact commentOf?_thins hde.before

/-- The constructor is shown without its comment if its overloads are interrupted, and is the same
otherwise. -/
theorem constructor?_thins (h : f.Thins g) (className : String) :
    f.constructor? className =
      (g.constructor? className).map (shownIf (f.interruptsConstructor className)) := by
  have hplace : Option.Rel (fun x y => Node.ThinsAll x.1 y.1 ∧ x.2.Thins y.2)
      (f.constructorPlace? className) (g.constructorPlace? className) :=
    rel_bind (class?_thins h className) fun _ _ _ hde => isLikeness_thins.constructor?_rel hde.node
  have hf : f.constructor? className =
      (f.constructorPlace? className).map fun x => methodOf x.1 x.2 := rfl
  have hg : g.constructor? className =
      (g.constructorPlace? className).map fun x => methodOf x.1 x.2 := rfl
  rw [hf, hg]
  unfold interruptsConstructor
  rcases none_or_some_of_rel hplace with ⟨hf, hg⟩ | ⟨x, y, hf, hg, hxy⟩
  · rw [hf, hg]
    rfl
  · rw [hf, hg]
    exact congrArg some (methodOf_thins hxy.1 hxy.2)

/-- The same methods are found, each with fewer comments before it. -/
theorem methodPlaces_thins (h : f.Thins g) (className : String) :
    List.Forall₂ (fun x y => Node.ThinsAll x.1 y.1 ∧ x.2.Thins y.2) (f.methodPlaces className)
      (g.methodPlaces className) := by
  unfold methodPlaces
  rcases none_or_some_of_rel (class?_thins h className) with ⟨hf, hg⟩ | ⟨d, e, hf, hg, hde⟩
  · rw [hf, hg]
    exact .nil
  · rw [hf, hg]
    exact isLikeness_thins.publicMethods_rel hde.node

theorem methods_eq_map (f : SourceFile) (className : String) :
    f.methods className = (f.methodPlaces className).map fun x => methodOf x.1 x.2 := by
  unfold methods methodPlaces
  cases f.class? className <;> rfl

/-- Of the methods those with interrupted overloads are shown without comments, and the others are
the same. -/
theorem methods_thins (h : f.Thins g) (className : String) :
    (f.interruptedMethods className).length = (g.methods className).length ∧
      f.methods className =
        List.zipWith shownIf (f.interruptedMethods className) (g.methods className) := by
  have hplaces := methodPlaces_thins h className
  rw [methods_eq_map f, methods_eq_map g, interruptedMethods]
  generalize f.methodPlaces className = xs, g.methodPlaces className = ys at hplaces
  -- the methods of the two classes come in pairs, one interruption each
  induction hplaces with
  | nil => exact ⟨rfl, rfl⟩
  | cons hxy _ ih =>
    obtain ⟨hlength, hmethods⟩ := ih
    refine ⟨congrArg Nat.succ hlength, ?_⟩
    rw [List.map_cons, List.map_cons, List.map_cons, List.zipWith_cons_cons, hmethods,
      methodOf_thins hxy.1 hxy.2]

/-- **Comments that document nothing change nothing, unless they stand between overloads.** A file
with fewer of them declares the same subjects, and the arguments of these have the same properties.
A declaration, the constructor of a class and its methods have the same comments, but for those
whose overloads are interrupted: these lose what their comment says.

Both files have the same text wherever a page shows the text of a node. So nothing is said of files
that differ by a comment inside the type of an annotation, as in `a: (string /* b */)`: such a
comment is part of the type that is shown. -/
theorem lookups_thinned (h : f.Thins g) :
    (∀ s, f.declares s = g.declares s ∧ f.argument? s = g.argument? s ∧
      f.comment? s = if f.interrupts s then none else g.comment? s) ∧
    ∀ c, f.constructor? c = (g.constructor? c).map (shownIf (f.interruptsConstructor c)) ∧
      (f.interruptedMethods c).length = (g.methods c).length ∧
      f.methods c = List.zipWith shownIf (f.interruptedMethods c) (g.methods c) :=
  ⟨fun s => ⟨declares_thins h s, argument?_thins h s, comment?_thins h s⟩,
    fun c => ⟨constructor?_thins h c, methods_thins h c⟩⟩

theorem zipWith_shownIf_of_not_interrupted {bs : List Bool} {ms : List Method}
    (hlength : bs.length = ms.length) (h : ∀ b ∈ bs, b = false) :
    List.zipWith shownIf bs ms = ms := by
  induction bs generalizing ms with
  | nil => exact (List.eq_nil_of_length_eq_zero hlength.symm).symm
  | cons b bs ih =>
    cases ms with
    | nil => cases hlength
    | cons m ms =>
      rw [List.forall_mem_cons] at h
      rw [List.zipWith_cons_cons, ih (Nat.succ.inj hlength) h.2, h.1]
      rfl

/-- All comments that document nothing may be deleted from the statements of a file and from the
bodies in it, if none of them stands between overloads. -/
theorem lookups_bare (h : f.root.kind = .program) :
    (∀ s, f.declares s = f.bare.declares s ∧ f.argument? s = f.bare.argument? s ∧
      (f.interrupts s = false → f.comment? s = f.bare.comment? s)) ∧
    ∀ c, (f.interruptsConstructor c = false → f.constructor? c = f.bare.constructor? c) ∧
      ((∀ b ∈ f.interruptedMethods c, b = false) → f.methods c = f.bare.methods c) := by
  have hbare : f.Thins f.bare := thins_bare h
  refine ⟨fun s => ⟨declares_thins hbare s, argument?_thins hbare s, fun hs => ?_⟩,
    fun c => ⟨fun hc => ?_, fun hc => ?_⟩⟩
  · rw [comment?_thins hbare, hs]
    rfl
  · rw [constructor?_thins hbare, hc]
    cases f.bare.constructor? c <;> rfl
  · obtain ⟨hlength, hmethods⟩ := methods_thins hbare c
    rw [hmethods, zipWith_shownIf_of_not_interrupted hlength hc]

/-! ### Comments before overloads and between them -/

namespace Overloaded

/-- A function and a class with a method, both overloaded. -/
def source (above between : String) : String :=
  "/** Uses. */" ++ above ++ "
function use(): 1;" ++ between ++ "
function use() \x7b\x7d
class A \x7b
  /** Runs. */" ++ above ++ "
  run(): 1;" ++ between ++ "
  run() \x7b\x7d
\x7d"

def subject : Subject := ⟨.hook, "use"⟩

/-- The method of the class with a comment, or without. -/
def run (comment : String) : Method := ⟨"run", "run()", comment, []⟩

end Overloaded

open Overloaded

/-- With line comments before the first overload. -/
theorem lookups_thinned_above :
    ∃ f g, SourceFile.parse "a.ts" (source " // b" "") = .ok f ∧
      SourceFile.parse "a.ts" (source "" "") = .ok g ∧ f.Thins g ∧
      f.comment? subject = g.comment? subject ∧ (g.comment? subject).isSome ∧
      f.methods "A" = [run "Runs."] := by
  obtain ⟨f, g, hf, hg, h, hinterrupts, hmethods, hcomment, hrun⟩ : ∃ f g,
      SourceFile.parse "a.ts" (source " // b" "") = .ok f ∧
      SourceFile.parse "a.ts" (source "" "") = .ok g ∧ f.Thins g ∧
      f.interrupts subject = false ∧ f.interruptedMethods "A" = [false] ∧
      (g.comment? subject).isSome ∧ g.methods "A" = [run "Runs."] :=
    exists_thins_of_parse (by decide +kernel)
  obtain ⟨hsubjects, hclasses⟩ := lookups_thinned h
  refine ⟨f, g, hf, hg, h, ?_, hcomment, ?_⟩
  · rw [(hsubjects subject).2.2, hinterrupts]
    rfl
  · rw [(hclasses "A").2.2, hmethods, hrun]
    rfl

/-- With a line comment between two overloads. -/
theorem lookups_interrupted :
    ∃ f g, SourceFile.parse "a.ts" (source "" " // b") = .ok f ∧
      SourceFile.parse "a.ts" (source "" "") = .ok g ∧ f.Thins g ∧
      f.comment? subject = none ∧ (g.comment? subject).isSome ∧
      f.methods "A" = [run ""] ∧ g.methods "A" = [run "Runs."] :=
  exists_thins_of_parse (by decide +kernel)

end RefPages.SourceFile
