import RefPages.Proofs.Syntax.Thinned
import RefPages.Source.File

/-!
# Likeness of trees

Two trees can differ in ways that the lookups of a file do not see: comments may be missing, and
texts may differ where nobody reads them. `IsLikeness` says what a relation of trees has to grant
for that. Related nodes have the same kind and the same name. Where statements, values and members
are looked through, what stands in them is related, but for comments that one of the trees lacks:

    functionIn? n  =  first named child     of parentheses and casts
                      some argument         of a call

Each lookup is followed here from one tree to the other, once for all such relations. What it does
with the children of a node is first written with functions on lists, since these are what `Drops`
tells about. The recursion is then on the size of the node.
-/

namespace RefPages.Source

open Syntax

/-! ### Functions in values, declared names and overloads, one node at a time -/

theorem functionInFirst?_eq (ns : List Node) :
    functionInFirst? ns = (ns.filter Node.isNamed).head?.bind functionIn? := by
  induction ns with
  | nil => rfl
  | cons n ns ih =>
    rw [functionInFirst?, List.filter_cons]
    split
    · rfl
    · exact ih

theorem functionInAny?_eq (ns : List Node) : functionInAny? ns = ns.findSome? functionIn? := by
  induction ns with
  | nil => rfl
  | cons n ns ih =>
    rw [functionInAny?, List.findSome?_cons]
    split
    · next hf => rw [hf]
    · next hf => rw [hf, ih]

theorem functionInArguments?_eq (ns : List Node) :
    functionInArguments? ns = (ns.find? fun n => n.role? == some .arguments).bind fun list =>
      list.children.findSome? functionIn? := by
  induction ns with
  | nil => rfl
  | cons n ns ih =>
    obtain ⟨kind, role?, text, children⟩ := n
    rw [functionInArguments?, List.find?_cons, functionInAny?_eq, Node.role?_mk]
    cases hrole : role? == some .arguments with
    | true => rfl
    | false => exact ih

/-- The functions that walk over siblings are mutual with the ones they serve. These equations
unfold one node in terms of list functions, which relations of lists can follow. -/
theorem functionIn?_eq (n : Node) :
    functionIn? n = match n.kind with
      | .arrowFunction | .functionExpression => some n
      | .callExpression =>
        (n.field? .arguments).bind fun list => list.children.findSome? functionIn?
      | .parenthesizedExpression | .asExpression | .satisfiesExpression =>
        n.named.head?.bind functionIn?
      | _ => none := by
  obtain ⟨kind, role?, text, children⟩ := n
  cases kind with
  | callExpression => exact functionInArguments?_eq children
  | parenthesizedExpression | asExpression | satisfiesExpression =>
    exact functionInFirst?_eq children
  | _ => rfl

theorem functionIn?_of_comment {n : Node} (h : n.kind = .comment) : functionIn? n = none := by
  rw [functionIn?_eq, h]

theorem declaredInExport_eq (before ns : List Node) :
    declaredInExport before ns =
      ((ns.find? fun n => n.role? == some .declaration).map (declared before)).getD [] := by
  induction ns with
  | nil => rfl
  | cons n ns ih =>
    rw [declaredInExport, List.find?_cons]
    cases hrole : n.role? == some .declaration with
    | true => rfl
    | false => exact ih

theorem declaredInAll_eq (before ns : List Node) :
    declaredInAll before ns = ns.flatMap (declared before) := by
  induction ns with
  | nil => rfl
  | cons n ns ih => rw [declaredInAll, List.flatMap_cons, ih]

/-- One equation for what a statement declares, by its kind. -/
theorem declared_eq (before : List Node) (n : Node) :
    declared before n = match n.kind with
      | .exportStatement => ((n.field? .declaration).map (declared before)).getD []
      | .ambientDeclaration => n.children.flatMap (declared before)
      | .variableDeclaration => n.named.filterMap (Declaration.ofVariable? before)
      | .classDeclaration => (Declaration.ofNode? .classShape before n).toList
      | .functionDeclaration => (Declaration.ofNode? .function before n).toList
      | .interfaceDeclaration => (Declaration.ofNode? .interface before n).toList
      | .typeAlias => (Declaration.ofNode? .alias before n).toList
      | _ => [] := by
  obtain ⟨kind, role?, text, children⟩ := n
  cases kind with
  | exportStatement => exact declaredInExport_eq before children
  | ambientDeclaration => exact declaredInAll_eq before children
  | _ => rfl

theorem declared_of_comment {before : List Node} {n : Node} (h : n.kind = .comment) :
    declared before n = [] := by
  rw [declared_eq, h]

theorem overloadNameInExport?_eq (ns : List Node) :
    overloadNameInExport? ns =
      (ns.find? fun n => n.role? == some .declaration).bind overloadName? := by
  induction ns with
  | nil => rfl
  | cons n ns ih =>
    rw [overloadNameInExport?, List.find?_cons]
    cases hrole : n.role? == some .declaration with
    | true => rfl
    | false => exact ih

/-- One equation for the name of an overload, by the kind of the node. -/
theorem overloadName?_eq (n : Node) :
    overloadName? n = match n.kind with
      | .functionSignature | .methodSignature => (n.field? .name).map Node.text
      | .exportStatement => (n.field? .declaration).bind overloadName?
      | _ => none := by
  obtain ⟨kind, role?, text, children⟩ := n
  cases kind with
  | exportStatement => exact overloadNameInExport?_eq children
  | _ => rfl

/-- A comment that documents nothing is passed. -/
theorem leadingComment?_cons_of_isPlain {n : Node} {before : List Node} (h : n.isPlain = true) :
    leadingComment? (n :: before) = leadingComment? before := by
  obtain ⟨hkind, hraw⟩ : n.kind = .comment ∧ Comment.isDocumentation n.text.toList = false := by
    simpa [Node.isPlain, Node.is] using h
  rw [leadingComment?, hkind]
  dsimp only
  rw [if_neg (by simp [hraw])]

theorem hidesMethod_congr {n m : Node} (hkind : m.kind = n.kind)
    (htext : n.kind = .accessModifier → m.text = n.text) : hidesMethod n = hidesMethod m := by
  rw [hidesMethod, hidesMethod, hkind]
  cases hn : n.kind with
  | accessModifier =>
    dsimp only
    rw [htext hn]
  | _ => rfl

/-! ### Relations that lookups follow -/

/-- A relation of trees, and the siblings that may be missing in the second one, such that lookups
do not see the difference. -/
structure IsLikeness (R : Node → Node → Prop) (spare : Node → Prop) : Prop where
  kind : ∀ {n m}, R n m → m.kind = n.kind
  /-- What is missing documents nothing. -/
  plain : ∀ {n}, spare n → n.isPlain = true
  comment : ∀ {n m}, R n m → n.kind = .comment → m.text = n.text
  name? : ∀ {n m}, R n m → Option.Rel (fun c d => d.kind = c.kind ∧ d.text = c.text)
    (n.field? .name) (m.field? .name)
  value? : ∀ {n m}, R n m → Option.Rel R (n.field? .value) (m.field? .value)
  declaration? : ∀ {n m}, R n m → Option.Rel R (n.field? .declaration) (m.field? .declaration)
  arguments? : ∀ {n m}, R n m →
    Option.Rel (fun c d => Drops R (fun a => a.kind = .comment) c.children d.children)
      (n.field? .arguments) (m.field? .arguments)
  /-- Parentheses and casts stand for their first child. -/
  first? : ∀ {n m}, R n m → n.kind = .parenthesizedExpression ∨ n.kind = .asExpression ∨
    n.kind = .satisfiesExpression → Option.Rel R n.named.head? m.named.head?
  parts : ∀ {n m}, R n m → n.kind = .ambientDeclaration ∨ n.kind = .variableDeclaration →
    Drops R (fun a => a.kind = .comment) n.children m.children
  statements : ∀ {n m}, R n m → n.kind = .program → Drops R spare n.named m.named
  members : ∀ {n m}, R n m →
    Option.Rel (fun c d => Drops R spare c.named d.named) (n.field? .body) (m.field? .body)
  /-- Words before methods stay. -/
  hides : ∀ {n m}, R n m → n.children.any hidesMethod = m.children.any hidesMethod

/-- The same declaration in a file that is like another one. -/
structure Declaration.Like (R : Node → Node → Prop) (spare : Node → Prop) (d e : Declaration) :
    Prop where
  name : e.name = d.name
  shape : e.shape = d.shape
  before : Drops R spare d.before e.before
  node : R d.node e.node
  isType : d.shape.isType = true → d.node.kind = .interfaceDeclaration ∨ d.node.kind = .typeAlias

namespace IsLikeness

variable {R : Node → Node → Prop} {spare : Node → Prop} (hR : IsLikeness R spare)

include hR

theorem is_eq {n m : Node} (h : R n m) (kind : Kind) : n.is kind = m.is kind := by
  rw [Node.is, Node.is, hR.kind h]

theorem writtenName?_eq {n m : Node} (h : R n m) : writtenName? n = writtenName? m :=
  map_eq_of_rel (hR.name? h) fun _ _ _ hcd => hcd.2.symm

/-! ### Functions and declarations -/

/-- The function in a value stays the one that it was. -/
theorem functionIn?_rel {n m : Node} (h : R n m) :
    Option.Rel R (functionIn? n) (functionIn? m) := by
  rw [functionIn?_eq n, functionIn?_eq m, hR.kind h]
  cases hkind : n.kind with
  | arrowFunction | functionExpression => exact .some h
  | callExpression =>
    refine rel_bind (hR.arguments? h) fun list hlist list' hlists => ?_
    have hlist := Node.sizeOf_lt_of_field? hlist
    refine hlists.findSome?_rel (fun c hc d hcd => ?_) fun c hc => functionIn?_of_comment hc
    -- what is wrapped is smaller, so the claim holds of it already
    have hsmaller := Node.sizeOf_lt_of_mem_children hc
    exact functionIn?_rel hcd
  | parenthesizedExpression | asExpression | satisfiesExpression =>
    refine rel_bind (hR.first? h (by tauto)) fun c hc d hcd => ?_
    have hsmaller := Node.sizeOf_lt_of_mem_named (List.mem_of_head? hc)
    exact functionIn?_rel hcd
  | _ => exact .none
termination_by sizeOf n

/-- Like nodes declare like things, if their types are looked at only where declarations of types
are. -/
theorem ofNode?_rel {before before' : List Node} {n m : Node} {shape : Shape}
    (hbefore : Drops R spare before before') (h : R n m)
    (htype : shape.isType = true → n.kind = .interfaceDeclaration ∨ n.kind = .typeAlias) :
    List.Forall₂ (Declaration.Like R spare) (Declaration.ofNode? shape before n).toList
      (Declaration.ofNode? shape before' m).toList := by
  unfold Declaration.ofNode?
  rcases none_or_some_of_rel (hR.name? h) with ⟨hn, hm⟩ | ⟨c, d, hn, hm, -, htext⟩
  · rw [hn, hm]
    exact .nil
  · rw [hn, hm]
    exact .cons ⟨htext, rfl, hbefore, h, htype⟩ .nil

theorem ofVariable?_rel {before before' : List Node} {n m : Node}
    (hbefore : Drops R spare before before') (h : R n m) :
    Option.Rel (Declaration.Like R spare) (Declaration.ofVariable? before n)
      (Declaration.ofVariable? before' m) := by
  unfold Declaration.ofVariable?
  rw [hR.is_eq h .variableDeclarator]
  split
  · rcases none_or_some_of_rel (hR.name? h) with ⟨hn, hm⟩ | ⟨c, d, hn, hm, -, htext⟩
    · rw [hn, hm]
      exact .none
    · have hfunction : Option.Rel R ((n.field? .value).bind functionIn?)
          ((m.field? .value).bind functionIn?) :=
        rel_bind (hR.value? h) fun _ _ _ => hR.functionIn?_rel
      rw [hn, hm]
      dsimp only
      rcases none_or_some_of_rel hfunction with ⟨hn, hm⟩ | ⟨a, b, hn, hm, hab⟩
      · rw [hn, hm]
        exact .some ⟨htext, rfl, hbefore, h, fun htype => absurd htype Bool.false_ne_true⟩
      · rw [hn, hm]
        exact .some ⟨htext, rfl, hbefore, hab, fun htype => absurd htype Bool.false_ne_true⟩
  · exact .none

/-- A statement declares the same names. -/
theorem declared_rel {before before' : List Node} {n m : Node}
    (hbefore : Drops R spare before before') (h : R n m) :
    List.Forall₂ (Declaration.Like R spare) (declared before n) (declared before' m) := by
  rw [declared_eq before n, declared_eq before' m, hR.kind h]
  -- exports and ambient declarations pass to a child, the others look at the node
  cases hkind : n.kind with
  | exportStatement =>
    rcases none_or_some_of_rel (hR.declaration? h) with ⟨hn, hm⟩ | ⟨c, d, hn, hm, hcd⟩
    · rw [hn, hm]
      exact .nil
    · have hsmaller := Node.sizeOf_lt_of_field? hn
      rw [hn, hm]
      exact declared_rel hbefore hcd
  | ambientDeclaration =>
    refine (hR.parts h (.inl hkind)).forall₂_flatMap (fun c hc d hcd => ?_)
      fun c hc => declared_of_comment hc
    have hsmaller := Node.sizeOf_lt_of_mem_children hc
    exact declared_rel hbefore hcd
  | variableDeclaration =>
    have hnamed : Drops R (fun a => a.kind = .comment) n.named m.named := by
      apply (hR.parts h (.inr hkind)).filter
      intro c d hcd
      rw [Node.isNamed, Node.isNamed, hR.kind hcd]
    refine hnamed.forall₂_filterMap (fun c d hcd => hR.ofVariable?_rel hbefore hcd) fun c hc => ?_
    rw [Declaration.ofVariable?, Node.is, hc]
    rfl
  | classDeclaration | functionDeclaration =>
    exact hR.ofNode?_rel hbefore h fun htype => absurd htype (by decide)
  | interfaceDeclaration | typeAlias =>
    exact hR.ofNode?_rel hbefore h fun _ => by tauto
  | _ => exact .nil
termination_by sizeOf n

/-- A file declares the same names. -/
theorem declarations_rel {root root' : Node} (h : R root root') (hroot : root.kind = .program) :
    List.Forall₂ (Declaration.Like R spare) (declarations root) (declarations root') := by
  refine ((hR.statements h hroot).withBefore .nil).forall₂_flatMap (fun x _ y hxy => ?_)
    fun x hx => declared_of_comment (Node.kind_of_isPlain (hR.plain hx))
  exact hR.declared_rel hxy.1 hxy.2

/-! ### Comments -/

/-- The comment before a declaration or a member. -/
theorem leadingComment?_eq {before before' : List Node} (h : Drops R spare before before') :
    leadingComment? before = leadingComment? before' := by
  induction h with
  | nil => rfl
  | @keep n m _ _ hnm _ ih =>
    unfold leadingComment?
    rw [hR.kind hnm]
    cases hkind : n.kind with
    | comment =>
      dsimp only
      rw [hR.comment hnm hkind, ih]
    | decorator => exact ih
    | _ => rfl
  -- what is dropped is a plain comment, which the search passes
  | drop hspare _ ih => rw [leadingComment?_cons_of_isPlain (hR.plain hspare), ih]

theorem overloadName?_eq_of_rel {n m : Node} (h : R n m) : overloadName? n = overloadName? m := by
  rw [overloadName?_eq n, overloadName?_eq m, hR.kind h]
  cases hkind : n.kind with
  | functionSignature | methodSignature => exact hR.writtenName?_eq h
  | exportStatement =>
    rcases none_or_some_of_rel (hR.declaration? h) with ⟨hn, hm⟩ | ⟨c, d, hn, hm, hcd⟩
    · rw [hn, hm]
    · have hsmaller := Node.sizeOf_lt_of_field? hn
      rw [hn, hm]
      exact overloadName?_eq_of_rel hcd
  | _ => rfl
termination_by sizeOf n

/-! ### Classes -/

/-- Like classes have like members, but for those that may be missing. -/
theorem classMembers_rel {n m : Node} (h : R n m) :
    Drops (fun x y => Drops R spare x.1 y.1 ∧ R x.2 y.2) (fun x => spare x.2)
      (classMembers n) (classMembers m) := by
  unfold classMembers
  rcases none_or_some_of_rel (hR.members h) with ⟨hn, hm⟩ | ⟨c, d, hn, hm, hcd⟩
  · rw [hn, hm]
    exact .nil
  · rw [hn, hm]
    exact hcd.withBefore .nil

theorem isConstructor_eq {n m : Node} (h : R n m) : isConstructor n = isConstructor m := by
  rw [isConstructor, isConstructor, hR.is_eq h, hR.writtenName?_eq h]

/-- The constructor of a class. -/
theorem constructor?_rel {n m : Node} (h : R n m) :
    Option.Rel (fun x y => Drops R spare x.1 y.1 ∧ R x.2 y.2) (constructor? n)
      (constructor? m) := by
  refine rel_imp ((hR.classMembers_rel h).find?_rel (fun x y hxy => ?_) fun x hx => ?_)
    fun x y hxy => hxy.1
  · exact hR.isConstructor_eq hxy.2
  · show isConstructor x.2 = false
    rw [isConstructor, Node.is, Node.kind_of_isPlain (hR.plain hx)]
    rfl

theorem isPublicMethod_eq {n m : Node} (h : R n m) : isPublicMethod n = isPublicMethod m := by
  unfold isPublicMethod
  rw [hR.is_eq h, hR.hides h]
  rcases none_or_some_of_rel (hR.name? h) with ⟨hn, hm⟩ | ⟨c, d, hn, hm, hkind, htext⟩
  · rw [hn, hm]
  · have hprivate : c.is .privateName = d.is .privateName := by rw [Node.is, Node.is, hkind]
    rw [hn, hm]
    dsimp only
    rw [hprivate, htext]

/-- The methods of a class that pages show. -/
theorem publicMethods_rel {n m : Node} (h : R n m) :
    List.Forall₂ (fun x y => Drops R spare x.1 y.1 ∧ R x.2 y.2)
      ((classMembers n).filter fun x => isPublicMethod x.2)
      ((classMembers m).filter fun x => isPublicMethod x.2) := by
  refine (hR.classMembers_rel h).forall₂_filter (fun x y hxy => hR.isPublicMethod_eq hxy.2)
    fun x hx => ?_
  rw [isPublicMethod, Node.is, Node.kind_of_isPlain (hR.plain hx)]
  rfl

/-! ### Files -/

/-- What configures a declaration. -/
theorem configured?_rel {d e : Declaration} (hshape : e.shape = d.shape) (hnode : R d.node e.node) :
    Option.Rel R (SourceFile.configured? d) (SourceFile.configured? e) := by
  unfold SourceFile.configured?
  rw [hshape]
  cases d.shape with
  | classShape =>
    rcases none_or_some_of_rel (hR.constructor?_rel hnode) with ⟨hn, hm⟩ | ⟨x, y, hn, hm, hxy⟩
    · rw [hn, hm]
      exact .none
    · rw [hn, hm]
      exact .some hxy.2
  | function => exact .some hnode
  | _ => exact .none

end IsLikeness

/-- The first declaration of a name, in two files that declare the same names. -/
theorem find?_rel {D : Declaration → Declaration → Prop} {ds es : List Declaration}
    (h : List.Forall₂ D ds es) (hname : ∀ {d e}, D d e → e.name = d.name)
    (hshape : ∀ {d e}, D d e → e.shape = d.shape) (name : String) (accepts : Shape → Bool) :
    Option.Rel (fun d e => D d e ∧ accepts d.shape = true) (find? ds name accepts)
      (find? es name accepts) := by
  refine rel_imp ((Drops.of_forall₂ h).find?_rel (fun d e hde => ?_) fun _ => False.elim)
    fun d e hde => ⟨hde.1, (Bool.and_eq_true_iff.1 hde.2).2⟩
  rw [hname hde, hshape hde]

end RefPages.Source
