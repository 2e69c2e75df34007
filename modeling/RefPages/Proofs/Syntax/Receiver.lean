import RefPages.Proofs.Syntax.Thinned

/-!
# Trees in which functions name a receiver

A function may name the object that it is called on as if that were its first parameter:

    function draw(by: A)      ──▶   function draw(this: B, by: A)
    memo(x => 1)              ──▶   memo((this: B, x) => 1)

`Node.Joins` relates a tree to one in which some functions do, and the others stay as they are. The
functions are those that a statement of a file comes to: declared ones, values, also where they are
wrapped in calls, parentheses and casts, and the methods of classes with their constructor. What
stands around such a function may change its text and nothing else, so both trees may be those of a
source file.
-/

namespace RefPages.Syntax

/-! ### Receivers -/

def Node.isParameter (n : Node) : Bool := n.is .requiredParameter || n.is .optionalParameter

/-- A parameter for the object that a function is called on. -/
structure Node.IsReceiver (t : Node) : Prop where
  parameter : t.isParameter = true
  pattern : (t.field? .pattern).map Node.kind = some .this

/-- Does the role belong to the parameters of a function? -/
def Field.holdsParameters : Field → Bool
  | .parameters | .parameter => true
  | _ => false

/-- Does the role belong to something else than functions and what they stand in? -/
def Field.isClosed : Field → Bool
  | .value | .declaration | .arguments | .body => false
  | _ => true

namespace Host

/-- Does the role of the node belong to statements, values or members? -/
def isOpen (h : Host) : Bool :=
  match h.role? with
  | none | some .value | some .declaration => true
  | _ => false

def isFunction (h : Host) : Bool :=
  match h.kind with
  | .functionDeclaration | .functionExpression | .arrowFunction | .methodDefinition => h.isOpen
  | _ => false

/-- May there be functions in the node that a statement comes to? -/
def holdsFunctions (h : Host) : Bool :=
  match h.kind with
  | .program | .exportStatement | .ambientDeclaration | .variableDeclaration
  | .variableDeclarator | .classDeclaration | .callExpression | .parenthesizedExpression
  | .asExpression | .satisfiesExpression => h.isOpen
  | .other => h.role? == some .arguments || h.role? == some .body
  | _ => false

theorem isFunction_of_role (kind : Kind) {role : Field} (hvalue : role ≠ .value)
    (hdeclaration : role ≠ .declaration) : (Host.mk kind (some role)).isFunction = false := by
  cases role with
  | value => exact absurd rfl hvalue
  | declaration => exact absurd rfl hdeclaration
  | _ =>
    unfold isFunction
    split <;> rfl

/-- In a closed role nothing holds functions that a statement comes to. -/
theorem holdsFunctions_of_closed (kind : Kind) {role : Field} (h : role.isClosed = true) :
    (Host.mk kind (some role)).holdsFunctions = false := by
  cases role with
  | value | declaration | arguments | body => cases h
  | _ =>
    unfold holdsFunctions
    split <;> rfl

theorem isFunction_of_holdsFunctions {h : Host} (hh : h.holdsFunctions = true) :
    h.isFunction = false := by
  unfold holdsFunctions at hh
  unfold isFunction
  split at hh <;> simp_all

end Host

/-! ### Trees with receivers -/

namespace Node

/-- Does the node hold the parameters of its parent? -/
def holdsParameters (n : Node) : Bool := n.role?.any Field.holdsParameters

theorem beq_role?_of_ne {c : Node} {role : Field} (h : c.holdsParameters ≠ role.holdsParameters) :
    (c.role? == some role) = false := by
  rw [beq_eq_false_iff_ne]
  intro hrole
  apply h
  rw [holdsParameters, hrole, Option.any_some]

/-- Where only one child holds parameters, the search for them finds that one or nothing. -/
theorem field?_of_only {before after : List Node}
    (honly : ∀ c ∈ before ++ after, c.holdsParameters = false) {role : Field}
    (hrole : role.holdsParameters = true) (kind : Kind) (role? : Option Field) (text : String)
    (q : Node) :
    (Node.mk kind role? text (before ++ q :: after)).field? role =
      if q.role? == some role then some q else none := by
  -- no other child holds parameters, so none has the role
  have hother : ∀ c ∈ before ++ after, ¬(c.role? == some role) = true := by
    intro c hc
    rw [beq_role?_of_ne (by simp [honly c hc, hrole])]
    exact Bool.false_ne_true
  have hbefore : before.find? (fun c => c.role? == some role) = none :=
    List.find?_eq_none.2 fun c hc => hother c (List.mem_append_left _ hc)
  have hafter : after.find? (fun c => c.role? == some role) = none :=
    List.find?_eq_none.2 fun c hc => hother c (List.mem_append_right _ hc)
  rw [field?, children_mk, List.find?_append, hbefore, Option.none_or, List.find?_cons, hafter]
  cases q.role? == some role <;> rfl

theorem isNamed_of_isParameter {n : Node} (h : n.isParameter = true) : n.isNamed = true := by
  have hkind : n.kind = .requiredParameter ∨ n.kind = .optionalParameter := by
    simpa [isParameter, is] using h
  rcases hkind with hkind | hkind <;> rw [isNamed, hkind] <;> rfl

/-- The parameters among the nodes of a list. -/
theorem filter_named_isParameter (n : Node) :
    n.named.filter isParameter = n.children.filter isParameter := by
  rw [named, List.filter_filter]
  apply List.filter_congr
  intro c _
  cases hc : c.isParameter with
  | false => rfl
  | true => rw [isNamed_of_isParameter hc]; rfl

/-- The parameters of a function before and after the receiver `t` joined them. Comments may stand
before it. A name without parentheses gets some. -/
inductive JoinsList (t : Node) : Node → Node → Prop
  | list {text text' before after} (hbefore : ∀ n ∈ before, n.isParameter = false) :
      JoinsList t (.mk .other (some .parameters) text (before ++ after))
        (.mk .other (some .parameters) text' (before ++ t :: after))
  | bare {name text'} :
      JoinsList t (.mk .identifier (some .parameter) name [])
        (.mk .other (some .parameters) text'
          [t, .mk .requiredParameter none name [.mk .identifier (some .pattern) name []]])

/-- A tree before and after the receiver `t` joined some of its functions. -/
inductive Joins (t : Node) : Node → Node → Prop
  | same (n : Node) : Joins t n n
  | inside {kind role? text text' cs cs'} (hhost : (Host.mk kind role?).holdsFunctions = true)
      (hchildren : List.Forall₂ (Joins t) cs cs') :
      Joins t (.mk kind role? text cs) (.mk kind role? text' cs')
  | function {kind role? text text' before after p q}
      (hhost : (Host.mk kind role?).isFunction = true)
      (honly : ∀ c ∈ before ++ after, c.holdsParameters = false) (hlist : JoinsList t p q) :
      Joins t (.mk kind role? text (before ++ p :: after))
        (.mk kind role? text' (before ++ q :: after))

variable {t n m : Node}

namespace JoinsList

/-- What a receiver joins holds the parameters of a function, before and after. -/
theorem holdsParameters {p q : Node} (h : t.JoinsList p q) :
    p.holdsParameters = true ∧ q.holdsParameters = true := by
  cases h with
  | list | bare => exact ⟨rfl, rfl⟩

end JoinsList

namespace Joins

theorem kind (h : t.Joins n m) : m.kind = n.kind := by
  cases h with
  | same | inside | function => rfl

theorem role? (h : t.Joins n m) : m.role? = n.role? := by
  cases h with
  | same | inside | function => rfl

theorem isNamed_eq (h : t.Joins n m) : n.isNamed = m.isNamed := by
  rw [Node.isNamed, Node.isNamed, h.kind]

/-- All other nodes stay as they are. -/
theorem eq_of_host (h : t.Joins n m) (hfunction : n.host.isFunction = false)
    (hholds : n.host.holdsFunctions = false) : m = n := by
  cases h with
  | same => rfl
  | inside hhost => exact absurd (hholds.symm.trans hhost) Bool.false_ne_true
  | function hhost => exact absurd (hfunction.symm.trans hhost) Bool.false_ne_true

/-- A tree in a closed role stays as it is. -/
theorem eq_of_role (h : t.Joins n m) {role : Field} (hrole : n.role? = some role)
    (hclosed : role.isClosed = true) : m = n := by
  have hhost : n.host = ⟨n.kind, some role⟩ := by rw [host, hrole]
  apply h.eq_of_host
  · rw [hhost]
    apply Host.isFunction_of_role <;> rintro rfl <;> cases hclosed
  · rw [hhost]
    exact Host.holdsFunctions_of_closed _ hclosed

/-- Comments, words before methods and types stay. -/
theorem eq_of_kind (h : t.Joins n m)
    (hkind : n.kind ∈ [.comment, .accessModifier, .interfaceDeclaration, .typeAlias]) : m = n := by
  apply h.eq_of_host <;> unfold host <;> revert hkind <;> cases n.kind <;> intro hkind <;>
    first | rfl | simp at hkind

/-! ### Children -/

/-- Trees that nothing joined are related to themselves. -/
theorem forall₂_same (ns : List Node) : List.Forall₂ t.Joins ns ns :=
  List.forall₂_same.2 fun n _ => .same n

/-- Each child is joined, or lists the parameters of its parent. -/
theorem children_or (h : t.Joins n m) :
    List.Forall₂ (fun c d => t.Joins c d ∨ t.JoinsList c d) n.children m.children := by
  have hsame (ns : List Node) : List.Forall₂ (fun c d => t.Joins c d ∨ t.JoinsList c d) ns ns :=
    (forall₂_same ns).imp fun _ _ => .inl
  cases h with
  | same => exact hsame _
  | inside _ hchildren => exact hchildren.imp fun _ _ => .inl
  | function _ _ hlist => exact List.rel_append (hsame _) (.cons (.inr hlist) (hsame _))

/-- Below a node that is no function, each child is changed by itself. -/
theorem children (h : t.Joins n m) (hfunction : n.host.isFunction = false) :
    List.Forall₂ t.Joins n.children m.children := by
  cases h with
  | same => exact forall₂_same _
  | inside _ hchildren => exact hchildren
  | function hhost => exact absurd (hfunction.symm.trans hhost) Bool.false_ne_true

theorem named (h : t.Joins n m) (hfunction : n.host.isFunction = false) :
    List.Forall₂ t.Joins n.named m.named :=
  (Drops.of_forall₂ (h.children hfunction)).forall₂_filter (fun _ _ hc => hc.isNamed_eq)
    fun _ => False.elim

/-- The child in a role that is not the one of the parameters. -/
theorem field? (h : t.Joins n m) (role : Field) (hrole : role.holdsParameters = false) :
    Option.Rel (fun c d => t.Joins c d ∧ c.role? = some role) (n.field? role) (m.field? role) := by
  -- a list of parameters has another role, so the search passes by it in both trees
  have hother : ∀ c : Node, c.holdsParameters = true → (c.role? == some role) = false := by
    intro c hc
    exact beq_role?_of_ne (by simp [hc, hrole])
  refine rel_imp ((Drops.of_forall₂ h.children_or).find?_rel ?_ fun _ => False.elim) ?_
  · rintro c d (hcd | hcd)
    · rw [hcd.role?]
    · rw [hother c hcd.holdsParameters.1, hother d hcd.holdsParameters.2]
  · rintro c d ⟨hcd | hcd, hc⟩
    · exact ⟨hcd, by simpa using hc⟩
    · rw [hother c hcd.holdsParameters.1] at hc
      cases hc

/-- Outside of functions, a child in a closed role stays. -/
theorem field?_eq_of_closed (h : t.Joins n m) (hfunction : n.host.isFunction = false)
    (role : Field) (hclosed : role.isClosed = true) : n.field? role = m.field? role := by
  have hrel : Option.Rel (fun c d => t.Joins c d ∧ (c.role? == some role) = true) (n.field? role)
      (m.field? role) := by
    refine (Drops.of_forall₂ (h.children hfunction)).find?_rel (fun c d hcd => ?_)
      fun _ => False.elim
    rw [hcd.role?]
  rcases none_or_some_of_rel hrel with ⟨hn, hm⟩ | ⟨c, d, hn, hm, hcd, hrole⟩
  · rw [hn, hm]
  · rw [hn, hm, hcd.eq_of_role (by simpa using hrole) hclosed]

/-- A name is no function and holds none. -/
theorem name?_eq (h : t.Joins n m) : n.field? .name = m.field? .name := by
  rcases none_or_some_of_rel (h.field? .name rfl) with
    ⟨hn, hm⟩ | ⟨c, d, hn, hm, hcd, hrole⟩
  · rw [hn, hm]
  · rw [hn, hm, hcd.eq_of_role hrole rfl]

/-- Arguments and members are listed outside of functions. -/
theorem isFunction_of_field {c : Node} {role : Field} (hrole : c.role? = some role)
    (hlists : role = .arguments ∨ role = .body) : c.host.isFunction = false := by
  rw [host, hrole]
  apply Host.isFunction_of_role <;> rintro rfl <;> simp at hlists

end Joins

end Node

/-! ### Two given trees -/

mutual

def sameTree : Node → Node → Bool
  | .mk kind role? text cs, m =>
    m.kind == kind && m.role? == role? && m.text == text && sameTrees cs m.children

def sameTrees : List Node → List Node → Bool
  | [], ms => ms.isEmpty
  | _ :: _, [] => false
  | n :: ns, m :: ms => sameTree n m && sameTrees ns ms

end

mutual

theorem eq_of_sameTree {n m : Node} (h : sameTree n m = true) : m = n := by
  obtain ⟨kind, role?, text, cs⟩ := n
  obtain ⟨kind', role?', text', cs'⟩ := m
  simp only [sameTree, Bool.and_eq_true, beq_iff_eq] at h
  obtain ⟨⟨⟨hkind, hrole⟩, htext⟩, hchildren⟩ := h
  rw [Node.mk.injEq]
  exact ⟨hkind, hrole, htext, eq_of_sameTrees hchildren⟩

theorem eq_of_sameTrees {ns ms : List Node} (h : sameTrees ns ms = true) : ms = ns := by
  match ns, ms with
  | [], [] => rfl
  | [], _ :: _ => cases h
  | _ :: _, [] => cases h
  | n :: ns, m :: ms =>
    rw [sameTrees, Bool.and_eq_true] at h
    rw [eq_of_sameTree h.1, eq_of_sameTrees h.2]

end

/-- Does the second list have the receiver before the first parameter, and the same nodes else? -/
def joinsParameters (t : Node) : List Node → List Node → Bool
  | _, [] => false
  | ns, m :: ms =>
    sameTree t m && sameTrees ns ms ||
      match ns with
      | [] => false
      | n :: ns => !n.isParameter && sameTree n m && joinsParameters t ns ms

/-- Are these the parameters of a function before and after the receiver joined them? -/
def joinsList (t n m : Node) : Bool :=
  m.kind == .other && m.role? == some .parameters &&
    (n.kind == .other && n.role? == some .parameters && joinsParameters t n.children m.children ||
      sameTree n (.mk .identifier (some .parameter) n.text []) &&
        sameTrees
          [t, .mk .requiredParameter none n.text [.mk .identifier (some .pattern) n.text []]]
          m.children)

/-- Are these the children of a function before and after the receiver joined its parameters? -/
def joinsOne (t : Node) : List Node → List Node → Bool
  | n :: ns, m :: ms =>
    joinsList t n m && sameTrees ns ms && ns.all (fun c => !c.holdsParameters) ||
      !n.holdsParameters && sameTree n m && joinsOne t ns ms
  | _, _ => false

mutual

/-- Are these a tree before and after the receiver joined some of its functions? -/
def joins (t : Node) : Node → Node → Bool
  | .mk kind role? text cs, m =>
    sameTree (.mk kind role? text cs) m ||
      m.kind == kind && m.role? == role? &&
        ((Host.mk kind role?).holdsFunctions && joinsAll t cs m.children ||
          (Host.mk kind role?).isFunction && joinsOne t cs m.children)

/-- Are these lists of trees before and after the receiver joined some of their functions? -/
def joinsAll (t : Node) : List Node → List Node → Bool
  | [], ms => ms.isEmpty
  | _ :: _, [] => false
  | n :: ns, m :: ms => joins t n m && joinsAll t ns ms

end

/-- What the check of two parameter lists says: the receiver stands before the first parameter of
the second one. -/
theorem exists_of_joinsParameters {t : Node} {ns ms : List Node}
    (h : joinsParameters t ns ms = true) :
    ∃ before after, ns = before ++ after ∧ ms = before ++ t :: after ∧
      ∀ n ∈ before, n.isParameter = false := by
  induction ms generalizing ns with
  | nil => cases ns <;> cases h
  | cons m ms ih =>
    unfold joinsParameters at h
    -- the receiver stands here, or further on behind a node that is no parameter
    rcases Bool.or_eq_true_iff.1 h with h | h
    · rw [Bool.and_eq_true] at h
      obtain rfl := eq_of_sameTree h.1
      obtain rfl := eq_of_sameTrees h.2
      exact ⟨[], ms, rfl, rfl, fun _ hn => absurd hn List.not_mem_nil⟩
    · cases ns with
      | nil => cases h
      | cons n ns =>
        simp only [Bool.and_eq_true, Bool.not_eq_true'] at h
        obtain ⟨⟨hn, hsame⟩, hrest⟩ := h
        obtain rfl := eq_of_sameTree hsame
        obtain ⟨before, after, rfl, rfl, hbefore⟩ := ih hrest
        exact ⟨m :: before, after, rfl, rfl, List.forall_mem_cons.2 ⟨hn, hbefore⟩⟩

theorem joinsList_of_joinsList {t n m : Node} (h : joinsList t n m = true) : t.JoinsList n m := by
  obtain ⟨kind, role?, text, cs⟩ := n
  obtain ⟨kind', role?', text', cs'⟩ := m
  simp only [joinsList, Bool.and_eq_true, Bool.or_eq_true, beq_iff_eq, Node.kind_mk, Node.role?_mk,
    Node.text_mk, Node.children_mk] at h
  obtain ⟨⟨rfl, rfl⟩, ⟨⟨rfl, rfl⟩, hlist⟩ | ⟨hbare, hlist⟩⟩ := h
  · obtain ⟨before, after, rfl, rfl, hbefore⟩ := exists_of_joinsParameters hlist
    exact .list hbefore
  · rw [← eq_of_sameTree hbare, eq_of_sameTrees hlist]
    exact .bare

/-- What the check of a function's children says: only those that hold its parameters differ. -/
theorem exists_of_joinsOne {t : Node} {ns ms : List Node} (h : joinsOne t ns ms = true) :
    ∃ before after p q, ns = before ++ p :: after ∧ ms = before ++ q :: after ∧
      (∀ c ∈ before ++ after, c.holdsParameters = false) ∧ t.JoinsList p q := by
  induction ns generalizing ms with
  | nil => cases h
  | cons n ns ih =>
    cases ms with
    | nil => cases h
    | cons m ms =>
      rw [joinsOne] at h
      -- the parameters are held here, or further on
      rcases Bool.or_eq_true_iff.1 h with h | h
      · simp only [Bool.and_eq_true, List.all_eq_true, Bool.not_eq_true'] at h
        obtain ⟨⟨hlist, hsame⟩, honly⟩ := h
        obtain rfl := eq_of_sameTrees hsame
        exact ⟨[], ms, n, m, rfl, rfl, honly, joinsList_of_joinsList hlist⟩
      · simp only [Bool.and_eq_true, Bool.not_eq_true'] at h
        obtain ⟨⟨hn, hsame⟩, hrest⟩ := h
        obtain rfl := eq_of_sameTree hsame
        obtain ⟨before, after, p, q, rfl, rfl, honly, hlist⟩ := ih hrest
        exact ⟨m :: before, after, p, q, rfl, rfl, List.forall_mem_cons.2 ⟨hn, honly⟩, hlist⟩

mutual

/-- The check of two trees is right, so that files can be compared by evaluation. -/
theorem joins_of_joins {t n m : Node} (h : joins t n m = true) : t.Joins n m := by
  obtain ⟨kind, role?, text, cs⟩ := n
  rw [joins] at h
  -- the trees are equal, or they differ further inside, or at this list
  rcases Bool.or_eq_true_iff.1 h with h | h
  · rw [eq_of_sameTree h]
    exact .same _
  · obtain ⟨kind', role?', text', cs'⟩ := m
    simp only [Bool.and_eq_true, Bool.or_eq_true, beq_iff_eq, Node.kind_mk, Node.role?_mk,
      Node.children_mk] at h
    obtain ⟨⟨rfl, rfl⟩, ⟨hhost, hchildren⟩ | ⟨hhost, hchildren⟩⟩ := h
    · exact .inside hhost (joins_of_joinsAll hchildren)
    · obtain ⟨before, after, p, q, rfl, rfl, honly, hlist⟩ := exists_of_joinsOne hchildren
      exact .function hhost honly hlist

theorem joins_of_joinsAll {t : Node} {ns ms : List Node} (h : joinsAll t ns ms = true) :
    List.Forall₂ t.Joins ns ms := by
  match ns, ms with
  | [], [] => exact .nil
  | [], _ :: _ => cases h
  | _ :: _, [] => cases h
  | n :: ns, m :: ms =>
    rw [joinsAll, Bool.and_eq_true] at h
    exact .cons (joins_of_joins h.1) (joins_of_joinsAll h.2)

end

end RefPages.Syntax
