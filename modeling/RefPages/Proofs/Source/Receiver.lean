import RefPages.Proofs.Source.Appended
import RefPages.Proofs.Source.Interrupted
import RefPages.Proofs.Syntax.Receiver

/-!
# Receivers and first arguments

A receiver is no argument of a function, although it is written as its first parameter. What a page
shows of methods passes by it. The first argument of a subject is looked for without that:

    constructor(this: A, by: B)  ──▶  constructor(by: B)     as it is shown
                                      A                      as its argument is resolved

So nothing that is looked up changes when a receiver joins the functions of a file (`Node.Joins`),
but for the first argument of the subjects whose function it joins.
-/

namespace RefPages.Source

open Syntax

variable {t : Node}

/-! ### Likeness -/

/-- A receiver does not change which words hide a method. -/
theorem hidesMethod_joins {n m : Node} (h : t.Joins n m ∨ t.JoinsList n m) :
    hidesMethod n = hidesMethod m := by
  rcases h with h | h
  · apply hidesMethod_congr h.kind
    intro hkind
    rw [h.eq_of_kind (by simp [hkind])]
  · cases h with
    | list | bare => rfl

/-- Lookups do not see receivers, where they do not ask for parameters. -/
theorem isLikeness_joins (t : Node) : IsLikeness t.Joins (fun _ => False) where
  kind h := h.kind
  plain h := h.elim
  comment h hkind := by rw [h.eq_of_kind (by simp [hkind])]
  name? := by
    intro n m h
    rw [h.name?_eq]
    cases m.field? .name with
    | none => exact .none
    | some name => exact .some ⟨rfl, rfl⟩
  value? h := rel_imp (h.field? .value rfl) fun _ _ hcd => hcd.1
  declaration? h := rel_imp (h.field? .declaration rfl) fun _ _ hcd => hcd.1
  arguments? h := rel_imp (h.field? .arguments rfl) fun c d hcd => by
    have hlists := hcd.1.children (Node.Joins.isFunction_of_field hcd.2 (.inl rfl))
    exact (Drops.of_forall₂ hlists).imp (fun _ _ h => h) fun _ => False.elim
  -- what stands for its first child is no function, so its children are changed one by one
  first? := by
    intro n m h hkind
    have hfunction : n.host.isFunction = false := by
      rcases hkind with hkind | hkind | hkind <;> rw [Node.host, hkind] <;> rfl
    exact rel_head? (h.named hfunction)
  parts := by
    intro n m h hkind
    have hfunction : n.host.isFunction = false := by
      rcases hkind with hkind | hkind <;> rw [Node.host, hkind] <;> rfl
    exact (Drops.of_forall₂ (h.children hfunction)).imp (fun _ _ h => h) fun _ => False.elim
  statements := by
    intro n m h hkind
    have hfunction : n.host.isFunction = false := by
      rw [Node.host, hkind]
      rfl
    exact Drops.of_forall₂ (h.named hfunction)
  members h := rel_imp (h.field? .body rfl) fun c d hcd =>
    Drops.of_forall₂ (hcd.1.named (Node.Joins.isFunction_of_field hcd.2 (.inr rfl)))
  hides h := (Drops.of_forall₂ h.children_or).any_eq (fun _ _ hcd => hidesMethod_joins hcd)
    fun _ => False.elim

/-! ### Parameters -/

theorem parameter?_receiver (ht : t.IsReceiver) (doc : Comment) : parameter? doc t = none := by
  have hkind : t.kind = .requiredParameter ∨ t.kind = .optionalParameter := by
    simpa [Node.isParameter, Node.is] using ht.parameter
  obtain ⟨pattern, hpattern, hthis⟩ := Option.map_eq_some_iff.1 ht.pattern
  rw [parameter?_of_typed hkind, hpattern, Option.bind_some, parameterOf?, Node.is, hthis]
  rfl

/-- The parameters in a list are its children of that kind. -/
theorem parameterNodes_of_list {function list : Node}
    (h : function.field? .parameters = some list) :
    parameterNodes function = list.children.filter Node.isParameter := by
  rw [← Node.filter_named_isParameter]
  unfold parameterNodes
  rw [h]
  rfl

theorem parameterNodes_of_no_list {function : Node} (h : function.field? .parameters = none) :
    parameterNodes function = (function.field? .parameter).toList := by
  unfold parameterNodes
  rw [h]

/-- The parameters of a function that a receiver joins: the receiver is the first one, and the
others are shown as before. -/
theorem parameterNodes_joinsList {kind : Kind} {role? : Option Field} {text text' : String}
    {before after : List Node} {p q : Node} (ht : t.IsReceiver)
    (honly : ∀ c ∈ before ++ after, c.holdsParameters = false) (hlist : t.JoinsList p q) :
    ∃ ps, parameterNodes (.mk kind role? text' (before ++ q :: after)) = t :: ps ∧
      ∀ doc, ps.filterMap (parameter? doc) =
        (parameterNodes (.mk kind role? text (before ++ p :: after))).filterMap
          (parameter? doc) := by
  have hfield (text : String) (role : Field) (hrole : role.holdsParameters = true) (c : Node) :=
    Node.field?_of_only honly hrole kind role? text c
  cases hlist with
  | @list text₁ text₂ before₁ after₁ hbefore₁ =>
    have hnone : before₁.filter Node.isParameter = [] :=
      List.filter_eq_nil_iff.2 fun c hc => by simp [hbefore₁ c hc]
    rw [parameterNodes_of_list (hfield _ .parameters rfl _),
      parameterNodes_of_list (hfield _ .parameters rfl _), Node.children_mk, Node.children_mk,
      List.filter_append, List.filter_append, hnone, List.filter_cons_of_pos ht.parameter]
    exact ⟨after₁.filter Node.isParameter, rfl, fun doc => rfl⟩
  | @bare name text₂ =>
    rw [parameterNodes_of_list (hfield _ .parameters rfl _),
      parameterNodes_of_no_list (hfield _ .parameters rfl _), hfield _ .parameter rfl,
      Node.children_mk, List.filter_cons_of_pos ht.parameter]
    -- a name without parentheses is shown as the same parameter as one in a list
    exact ⟨_, rfl, fun doc => rfl⟩

/-- The parameters of a function, which a receiver joins or not. -/
theorem parameterNodes_joins {n m : Node} (ht : t.IsReceiver) (h : t.Joins n m) :
    parameterNodes n = parameterNodes m ∨
      ∃ ps, parameterNodes m = t :: ps ∧ ∀ doc, ps.filterMap (parameter? doc) =
        (parameterNodes n).filterMap (parameter? doc) := by
  -- only a function has a list of parameters to which a receiver can be joined
  cases hfunction : n.host.isFunction with
  | false =>
    left
    unfold parameterNodes
    rw [h.field?_eq_of_closed hfunction .parameters rfl,
      h.field?_eq_of_closed hfunction .parameter rfl]
  | true =>
    cases h with
    | same => exact .inl rfl
    | inside hhost =>
      have hother := Host.isFunction_of_holdsFunctions hhost
      exact absurd (hother.symm.trans hfunction) Bool.false_ne_true
    | function _ honly hlist => exact .inr (parameterNodes_joinsList ht honly hlist)

/-- What a page shows of the parameters of a function does not change. -/
theorem shownParameters_joins {n m : Node} (ht : t.IsReceiver) (h : t.Joins n m) (doc : Comment) :
    (parameterNodes n).filterMap (parameter? doc) =
      (parameterNodes m).filterMap (parameter? doc) := by
  rcases parameterNodes_joins ht h with heq | ⟨ps, hps, hshown⟩
  · rw [heq]
  · rw [hps, List.filterMap_cons_none (parameter?_receiver ht doc), hshown]

/-! ### Methods -/

/-- The walk over overloads ends at the same sibling. -/
theorem beforeOverloads_joins (name : String) {before before' : List Node}
    (h : Drops t.Joins (fun _ => False) before before') :
    Drops t.Joins (fun _ => False) (beforeOverloads name before)
      (beforeOverloads name before') := by
  induction h with
  | nil => exact .nil
  | keep hnm hrest ih =>
    rw [beforeOverloads, beforeOverloads, (isLikeness_joins t).overloadName?_eq_of_rel hnm]
    split
    · exact ih
    · exact .keep hnm hrest
  | drop hspare => exact hspare.elim

/-- The comment that documents something is the same. -/
theorem commentOf?_joins (name : String) {before before' : List Node}
    (h : Drops t.Joins (fun _ => False) before before') :
    commentOf? name before = commentOf? name before' :=
  (isLikeness_joins t).leadingComment?_eq (beforeOverloads_joins name h)

/-- What a page shows of a method or constructor does not change. -/
theorem methodOf_joins (ht : t.IsReceiver) {before before' : List Node} {n m : Node}
    (hbefore : Drops t.Joins (fun _ => False) before before') (h : t.Joins n m) :
    methodOf before n = methodOf before' m := by
  have hcomment : methodComment? before n = methodComment? before' m := by
    rw [methodComment?, methodComment?, (isLikeness_joins t).writtenName?_eq h]
    cases writtenName? m with
    | none => exact (isLikeness_joins t).leadingComment?_eq hbefore
    | some name => exact commentOf?_joins name hbefore
  rw [methodOf_eq, methodOf_eq, hcomment, methodWith, methodWith, h.name?_eq,
    shownParameters_joins ht h]

/-! ### Types -/

/-- Types are the same in both files. -/
theorem meaning_joins {ds es : List Declaration}
    (h : List.Forall₂ (Declaration.Like t.Joins (fun _ => False)) ds es) (name : String) :
    (meaning ds name).Alike (meaning es name) := by
  have hfound := find?_rel h (fun hde => hde.name) (fun hde => hde.shape) name Shape.isType
  unfold meaning findType?
  rcases none_or_some_of_rel hfound with ⟨hd, he⟩ | ⟨d, e, hd, he, hde, htype⟩
  · rw [hd, he]
    exact .nothing
  -- types hold no function, so the declaration found is the same on both sides
  · have hnode : e.node = d.node := by
      apply hde.node.eq_of_kind
      rcases hde.isType htype with hkind | hkind <;> simp [hkind]
    rw [hd, he]
    dsimp only
    rw [hde.shape, hnode]
    split
    · exact .interface hnode
    · cases d.node.field? .value with
      | none => exact .nothing
      | some type => exact .typeAlias type

end RefPages.Source

namespace RefPages.SourceFile

open Source Syntax

/-- The first parameter of what configures a subject: of a class's constructor, or of the function
itself. -/
def firstParameter? (f : SourceFile) (s : Subject) : Option Node :=
  ((f.subject? s).bind configured?).bind fun function => (parameterNodes function).head?

/-- A subject's argument is looked up in the type of the first parameter, whatever it is. -/
theorem argument?_eq_of_firstParameter? (f : SourceFile) (s : Subject) :
    f.argument? s = (f.firstParameter? s).bind fun parameter =>
      ((parameter.field? .type).bind annotated?).bind (definition? f.declarations) := by
  rw [argument?_eq, ← Option.bind_assoc]
  rfl

/-- A file before and after the receiver `t` joined some of its functions. -/
structure Joins (t : Node) (f g : SourceFile) : Prop where
  program : f.root.kind = .program
  root : t.Joins f.root g.root

variable {t : Node} {f g : SourceFile}

/-- The file declares the same names. -/
theorem declarations_joins (h : Joins t f g) :
    List.Forall₂ (Declaration.Like t.Joins (fun _ => False)) f.declarations g.declarations :=
  (isLikeness_joins t).declarations_rel h.root h.program

/-- The first declaration of a name stays the same one, whatever shapes are accepted. -/
theorem find?_joins (h : Joins t f g) (name : String) (accepts : Shape → Bool) :
    Option.Rel (Declaration.Like t.Joins (fun _ => False))
      (Source.find? f.declarations name accepts) (Source.find? g.declarations name accepts) :=
  rel_imp (find?_rel (declarations_joins h) (fun hde => hde.name) (fun hde => hde.shape) name
    accepts) fun _ _ hde => hde.1

theorem declares_joins (h : Joins t f g) (s : Subject) : f.declares s = g.declares s :=
  isSome_eq_of_rel (find?_joins h s.name (fits s.kind))

theorem comment?_joins (h : Joins t f g) (s : Subject) : f.comment? s = g.comment? s :=
  bind_eq_of_rel (find?_joins h s.name (fits s.kind)) fun _ _ hde =>
    commentOf?_joins s.name hde.before

/-- The constructor is the same: a receiver is dropped from its parameters. -/
theorem constructor?_joins (ht : t.IsReceiver) (h : Joins t f g) (className : String) :
    f.constructor? className = g.constructor? className := by
  have hplace := rel_bind (find?_joins h className (· == .classShape)) fun _ _ _ hde =>
    (isLikeness_joins t).constructor?_rel hde.node
  exact map_eq_of_rel hplace fun _ _ _ hxy => methodOf_joins ht hxy.1 hxy.2

theorem methods_joins (ht : t.IsReceiver) (h : Joins t f g) (className : String) :
    f.methods className = g.methods className := by
  unfold methods
  rcases none_or_some_of_rel (find?_joins h className (· == .classShape)) with
    ⟨hf, hg⟩ | ⟨d, e, hf, hg, hde⟩
  · rw [class?, hf, class?, hg]
  · have hplaces := (isLikeness_joins t).publicMethods_rel hde.node
    rw [class?, hf, class?, hg]
    dsimp only
    generalize (classMembers d.node).filter _ = xs, (classMembers e.node).filter _ = ys at hplaces
    -- the methods of the two classes come in pairs
    induction hplaces with
    | nil => rfl
    | cons hxy _ ih => rw [List.map_cons, List.map_cons, methodOf_joins ht hxy.1 hxy.2, ih]

/-- A receiver is the first parameter of the functions that it joins. -/
theorem firstParameter?_joins (ht : t.IsReceiver) (h : Joins t f g) (s : Subject) :
    f.firstParameter? s = g.firstParameter? s ∨ g.firstParameter? s = some t := by
  have hfunction : Option.Rel t.Joins ((f.subject? s).bind configured?)
      ((g.subject? s).bind configured?) :=
    rel_bind (find?_joins h s.name (fits s.kind)) fun _ _ _ hde =>
      (isLikeness_joins t).configured?_rel hde.shape hde.node
  unfold firstParameter?
  rcases none_or_some_of_rel hfunction with ⟨hf, hg⟩ | ⟨n, m, hf, hg, hnm⟩
  · rw [hf, hg]
    exact .inl rfl
  · rw [hf, hg]
    rcases parameterNodes_joins ht hnm with hparameters | ⟨ps, hps, -⟩
    · left
      show (parameterNodes n).head? = (parameterNodes m).head?
      rw [hparameters]
    · right
      show (parameterNodes m).head? = some t
      rw [hps]
      rfl

/-- **A receiver is no parameter of a method, but it is taken for the first argument.** When a
receiver joins functions of a file, everything that is looked up stays the same, with the signatures
of constructors and methods, their parameters and the comments of these. The interface of a
subject's first argument is the only exception: where the receiver joins the function that
configures the subject, it is resolved from the type of the receiver. -/
theorem lookups_joined (ht : t.IsReceiver) (h : Joins t f g) :
    (∀ c, f.constructor? c = g.constructor? c ∧ f.methods c = g.methods c) ∧
    ∀ s, f.declares s = g.declares s ∧ f.comment? s = g.comment? s ∧
      (f.firstParameter? s = g.firstParameter? s ∧ f.argument? s = g.argument? s ∨
        g.firstParameter? s = some t ∧ g.argument? s =
          ((t.field? .type).bind annotated?).bind (definition? f.declarations)) := by
  refine ⟨fun c => ⟨constructor?_joins ht h c, methods_joins ht h c⟩,
    fun s => ⟨declares_joins h s, comment?_joins h s, ?_⟩⟩
  -- types have the same meaning in both files
  have hdefinition : definition? f.declarations = definition? g.declarations :=
    funext (definition?_alike (meaning_joins (declarations_joins h)))
  rcases firstParameter?_joins ht h s with hfirst | hfirst
  · left
    refine ⟨hfirst, ?_⟩
    rw [argument?_eq_of_firstParameter?, argument?_eq_of_firstParameter?, hfirst, hdefinition]
  · right
    refine ⟨hfirst, ?_⟩
    rw [argument?_eq_of_firstParameter?, hfirst, hdefinition]
    rfl

/-- A check that reads two files first shows that they can be read, that a receiver joins functions
of the first one in the second one, and what it checks of them. -/
theorem exists_joins_of_parse [ErrorPlaces] {path text text' : String}
    {P : SourceFile → SourceFile → Prop}
    [∀ f g, Decidable (P f g)]
    (h : (parse path text).toOption.any (fun f => (parse path text').toOption.any fun g =>
      f.root.kind == .program && joins t f.root g.root && decide (P f g)) = true) :
    ∃ f g, parse path text = .ok f ∧ parse path text' = .ok g ∧ Joins t f g ∧ P f g := by
  obtain ⟨f, g, hf, hg, hchecked⟩ := exists_of_parse_both h
  obtain ⟨⟨hprogram, hroot⟩, hP⟩ :
      (f.root.kind = .program ∧ joins t f.root g.root = true) ∧ P f g := by simpa using hchecked
  exact ⟨f, g, hf, hg, ⟨hprogram, joins_of_joins hroot⟩, hP⟩

/-! ### A method and a constructor that a receiver joins -/

namespace Receiving

/-- A class with a constructor and a method that have the same parameter. -/
def source (constructor method : String) : String :=
  "interface O \x7b\x7d
interface B \x7b\x7d
class A \x7b
  constructor(" ++ constructor ++ "by: O) \x7b\x7d
  run(" ++ method ++ "by: O) \x7b\x7d
\x7d"

def receiver : Node :=
  .mk .requiredParameter none "this: B" [.mk .this (some .pattern) "this" [],
    .mk .ascription (some .type) ": B" [.mk .typeIdentifier none "B" []]]

theorem isReceiver_receiver : receiver.IsReceiver := ⟨rfl, rfl⟩

def subject : Subject := ⟨.classKind, "A"⟩

/-- An argument with one candidate gets the interface with this name, if it is an interface without
bases. -/
theorem name_argument? {f : SourceFile} {name : String}
    (htype : (f.argumentType? subject).map candidates = some [name])
    (hbody : (meaning f.declarations name).plainBody?.isSome = true) :
    (f.argument? subject).map Interface.name = some name := by
  obtain ⟨body, hbody⟩ := Option.isSome_iff_exists.1 hbody
  rw [argument?_of_candidates htype (interface?_of_plainBody hbody)]
  rfl

end Receiving

open Receiving

/-- It joins the method. -/
theorem lookups_joined_method :
    ∃ f g, SourceFile.parse "a.ts" (source "" "") = .ok f ∧
      SourceFile.parse "a.ts" (source "" "this: B, ") = .ok g ∧ receiver.IsReceiver ∧
      Joins receiver f g ∧ (g.methods "A").map Method.signature = ["run(by: O)"] ∧
      (g.argument? subject).map Interface.name = some "O" := by
  obtain ⟨f, g, hf, hg, h, hmethods, hfirst, htype, hbody⟩ : ∃ f g,
      SourceFile.parse "a.ts" (source "" "") = .ok f ∧
      SourceFile.parse "a.ts" (source "" "this: B, ") = .ok g ∧ Joins receiver f g ∧
      (f.methods "A").map Method.signature = ["run(by: O)"] ∧
      (g.firstParameter? subject).map Node.text = some "by: O" ∧
      (f.argumentType? subject).map candidates = some ["O"] ∧
      (meaning f.declarations "O").plainBody?.isSome = true :=
    exists_joins_of_parse (by decide +kernel)
  obtain ⟨hclasses, hsubjects⟩ := lookups_joined isReceiver_receiver h
  refine ⟨f, g, hf, hg, isReceiver_receiver, h, ?_, ?_⟩
  · rw [← (hclasses "A").2, hmethods]
  -- the receiver is not the first parameter of the constructor
  · rcases (hsubjects subject).2.2 with hsame | hreceiver
    · rw [← hsame.2, name_argument? htype hbody]
    · rw [hreceiver.1] at hfirst
      exact absurd hfirst (by decide)

/-- It joins the constructor. -/
theorem lookups_joined_constructor :
    ∃ f g, SourceFile.parse "a.ts" (source "" "") = .ok f ∧
      SourceFile.parse "a.ts" (source "this: B, " "") = .ok g ∧ Joins receiver f g ∧
      (f.argument? subject).map Interface.name = some "O" ∧
      (g.argument? subject).map Interface.name = some "B" := by
  obtain ⟨f, g, hf, hg, h, ⟨hO, hO'⟩, hB, hB'⟩ : ∃ f g,
      SourceFile.parse "a.ts" (source "" "") = .ok f ∧
      SourceFile.parse "a.ts" (source "this: B, " "") = .ok g ∧ Joins receiver f g ∧
      ((f.argumentType? subject).map candidates = some ["O"] ∧
        (meaning f.declarations "O").plainBody?.isSome = true) ∧
      (g.argumentType? subject).map candidates = some ["B"] ∧
        (meaning g.declarations "B").plainBody?.isSome = true :=
    exists_joins_of_parse (by decide +kernel)
  exact ⟨f, g, hf, hg, h, name_argument? hO hO', name_argument? hB hB'⟩

end RefPages.SourceFile
