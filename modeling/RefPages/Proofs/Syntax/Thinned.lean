import Mathlib.Data.List.Forall2
import RefPages.Comment.Lines
import RefPages.Syntax.Tree

/-!
# Trees with some comments left out

Comments are nodes among the others, and every walk over siblings meets them. A comment is spare if
nothing should change when it is left out. Where declarations or members are listed, that is one
that documents nothing, and elsewhere it is any. Only a node that stands for its first child, as an
annotation does, needs a comment that stands first:

    class A { // plain      ──▶   class A {
      run() {}                      run() {}
    }                             }

    (Options /* both */)    ──▶   (Options)

`Node.Thins` relates a tree to one in which some spare comments are left out. The text of a node
that stays may change where no lookup reads it, so both trees may be those of a source file. Where
its text is read it stays, so that no comment is left out of the type that an annotation shows:

    a: (string /* c */)     ──▶   the type is `(string /* c */)`
-/

namespace RefPages.Syntax

variable {α β γ δ : Type} {R S : α → β → Prop} {T : γ → δ → Prop} {P : α → Prop}

/-! ### Related options and lists -/

/-- Related results are both missing or both there. -/
theorem none_or_some_of_rel {a : Option α} {b : Option β} (h : Option.Rel R a b) :
    a = none ∧ b = none ∨ ∃ x y, a = some x ∧ b = some y ∧ R x y := by
  cases h with
  | none => exact .inl ⟨rfl, rfl⟩
  | some hxy => exact .inr ⟨_, _, rfl, rfl, hxy⟩

theorem rel_imp {a : Option α} {b : Option β} (h : Option.Rel R a b)
    (hRS : ∀ x y, R x y → S x y) : Option.Rel S a b := by
  cases h with
  | none => exact .none
  | some hxy => exact .some (hRS _ _ hxy)

/-- Related results may be looked up further in related ways. -/
theorem rel_bind {a : Option α} {b : Option β} {f : α → Option γ} {g : β → Option δ}
    (h : Option.Rel R a b) (hfg : ∀ x ∈ a, ∀ y, R x y → Option.Rel T (f x) (g y)) :
    Option.Rel T (a.bind f) (b.bind g) := by
  cases h with
  | none => exact .none
  | some hxy => exact hfg _ rfl _ hxy

theorem bind_eq_of_rel {a : Option α} {b : Option β} {f : α → Option γ} {g : β → Option γ}
    (h : Option.Rel R a b) (hfg : ∀ x y, R x y → f x = g y) : a.bind f = b.bind g := by
  cases h with
  | none => rfl
  | some hxy => exact hfg _ _ hxy

theorem map_eq_of_rel {a : Option α} {b : Option β} {f : α → γ} {g : β → γ}
    (h : Option.Rel R a b) (hfg : ∀ x ∈ a, ∀ y, R x y → f x = g y) : a.map f = b.map g := by
  cases h with
  | none => rfl
  | some hxy => exact congrArg some (hfg _ rfl _ hxy)

theorem isSome_eq_of_rel {a : Option α} {b : Option β} (h : Option.Rel R a b) :
    a.isSome = b.isSome := by
  cases h with
  | none | some => rfl

theorem rel_head? {as : List α} {bs : List β} (h : List.Forall₂ R as bs) :
    Option.Rel R as.head? bs.head? := by
  cases h with
  | nil => exact .none
  | cons hab _ => exact .some hab

theorem flatMap_eq_of_forall₂ {as : List α} {bs : List β} {f : α → List γ} {g : β → List γ}
    (h : List.Forall₂ R as bs) (hfg : ∀ a b, R a b → f a = g b) :
    as.flatMap f = bs.flatMap g := by
  induction h with
  | nil => rfl
  | cons hab _ ih => rw [List.flatMap_cons, List.flatMap_cons, hfg _ _ hab, ih]

theorem filterMap_eq_of_forall₂ {as : List α} {bs : List β} {f : α → Option γ}
    {g : β → Option γ} (h : List.Forall₂ R as bs) (hfg : ∀ a b, R a b → f a = g b) :
    as.filterMap f = bs.filterMap g := by
  induction h with
  | nil => rfl
  | cons hab _ ih => rw [List.filterMap_cons, List.filterMap_cons, hfg _ _ hab, ih]

/-! ### Lists with elements left out -/

/-- The second list is the first one without some elements that may be left out. The others are
related. -/
inductive Drops (R : α → β → Prop) (P : α → Prop) : List α → List β → Prop
  | nil : Drops R P [] []
  | keep {a b as bs} (hab : R a b) (hrest : Drops R P as bs) : Drops R P (a :: as) (b :: bs)
  | drop {a as bs} (ha : P a) (hrest : Drops R P as bs) : Drops R P (a :: as) bs

namespace Drops

variable {as : List α} {bs : List β}

/-- A filter that cannot tell related elements apart keeps the relation. -/
theorem filter {p : α → Bool} {q : β → Bool} (h : Drops R P as bs)
    (hpq : ∀ a b, R a b → p a = q b) : Drops R P (as.filter p) (bs.filter q) := by
  induction h with
  | nil => exact .nil
  | @keep a b as bs hab _ ih =>
    rw [List.filter_cons, List.filter_cons, hpq a b hab]
    split
    · exact .keep hab ih
    · exact ih
  | @drop a as bs ha _ ih =>
    rw [List.filter_cons]
    split
    · exact .drop ha ih
    · exact ih

theorem map {Q : γ → Prop} {f : α → γ} {g : β → δ} (h : Drops R P as bs)
    (hfg : ∀ a b, R a b → T (f a) (g b)) (hP : ∀ a, P a → Q (f a)) :
    Drops T Q (as.map f) (bs.map g) := by
  induction h with
  | nil => exact .nil
  | keep hab _ ih => exact .keep (hfg _ _ hab) ih
  | drop ha _ ih => exact .drop (hP _ ha) ih

theorem imp {Q : α → Prop} (h : Drops R P as bs) (hRS : ∀ a b, R a b → S a b)
    (hPQ : ∀ a, P a → Q a) : Drops S Q as bs := by
  simpa using h.map hRS hPQ

theorem filterMap_eq {f : α → Option γ} {g : β → Option γ} (h : Drops R P as bs)
    (hfg : ∀ a b, R a b → f a = g b) (hP : ∀ a, P a → f a = none) :
    as.filterMap f = bs.filterMap g := by
  induction h with
  | nil => rfl
  | keep hab _ ih => rw [List.filterMap_cons, List.filterMap_cons, hfg _ _ hab, ih]
  | drop ha _ ih => rw [List.filterMap_cons, hP _ ha, ih]

theorem forall₂_filterMap {f : α → Option γ} {g : β → Option δ} (h : Drops R P as bs)
    (hfg : ∀ a b, R a b → Option.Rel T (f a) (g b)) (hP : ∀ a, P a → f a = none) :
    List.Forall₂ T (as.filterMap f) (bs.filterMap g) := by
  induction h with
  | nil => exact .nil
  | @keep a b as bs hab _ ih =>
    rw [List.filterMap_cons, List.filterMap_cons]
    rcases none_or_some_of_rel (hfg a b hab) with ⟨ha, hb⟩ | ⟨x, y, ha, hb, hxy⟩
    · rwa [ha, hb]
    · rw [ha, hb]
      exact .cons hxy ih
  | drop ha _ ih => rwa [List.filterMap_cons, hP _ ha]

theorem any_eq {p : α → Bool} {q : β → Bool} (h : Drops R P as bs)
    (hpq : ∀ a b, R a b → p a = q b) (hP : ∀ a, P a → p a = false) : as.any p = bs.any q := by
  induction h with
  | nil => rfl
  | keep hab _ ih => rw [List.any_cons, List.any_cons, hpq _ _ hab, ih]
  | drop ha _ ih => rw [List.any_cons, hP _ ha, ih, Bool.false_or]

/-- The first elements with a property are related, if none of those that may be left out has it. -/
theorem find?_rel {p : α → Bool} {q : β → Bool} (h : Drops R P as bs)
    (hpq : ∀ a b, R a b → p a = q b) (hP : ∀ a, P a → p a = false) :
    Option.Rel (fun a b => R a b ∧ p a = true) (as.find? p) (bs.find? q) := by
  induction h with
  | nil => exact .none
  | @keep a b as bs hab _ ih =>
    rw [List.find?_cons, List.find?_cons, ← hpq a b hab]
    split
    · next ha => exact .some ⟨hab, ha⟩
    · exact ih
  | drop ha _ ih => rwa [List.find?_cons, hP _ ha]

theorem findSome?_rel {f : α → Option γ} {g : β → Option δ} (h : Drops R P as bs)
    (hfg : ∀ a ∈ as, ∀ b, R a b → Option.Rel T (f a) (g b)) (hP : ∀ a, P a → f a = none) :
    Option.Rel T (as.findSome? f) (bs.findSome? g) := by
  induction h with
  | nil => exact .none
  | @keep a b as bs hab _ ih =>
    have hrest := ih fun x hx => hfg x (List.mem_cons_of_mem a hx)
    rw [List.findSome?_cons, List.findSome?_cons]
    rcases none_or_some_of_rel (hfg a List.mem_cons_self b hab) with
      ⟨ha, hb⟩ | ⟨x, y, ha, hb, hxy⟩
    · rwa [ha, hb]
    · rw [ha, hb]
      exact .some hxy
  | @drop a as bs ha _ ih =>
    rw [List.findSome?_cons, hP a ha]
    exact ih fun x hx => hfg x (List.mem_cons_of_mem a hx)

theorem forall₂_flatMap {f : α → List γ} {g : β → List δ} (h : Drops R P as bs)
    (hfg : ∀ a ∈ as, ∀ b, R a b → List.Forall₂ T (f a) (g b)) (hP : ∀ a, P a → f a = []) :
    List.Forall₂ T (as.flatMap f) (bs.flatMap g) := by
  induction h with
  | nil => exact .nil
  | @keep a b as bs hab _ ih =>
    rw [List.flatMap_cons, List.flatMap_cons]
    refine List.rel_append (hfg a List.mem_cons_self b hab) (ih fun x hx => ?_)
    exact hfg x (List.mem_cons_of_mem a hx)
  | @drop a as bs ha _ ih =>
    rw [List.flatMap_cons, hP a ha, List.nil_append]
    exact ih fun x hx => hfg x (List.mem_cons_of_mem a hx)

theorem flatMap_eq {f : α → List γ} {g : β → List γ} (h : Drops R P as bs)
    (hfg : ∀ a ∈ as, ∀ b, R a b → f a = g b) (hP : ∀ a, P a → f a = []) :
    as.flatMap f = bs.flatMap g := by
  have hrel : List.Forall₂ (· = ·) (as.flatMap f) (bs.flatMap g) := by
    refine h.forall₂_flatMap (fun a ha b hab => ?_) hP
    rw [hfg a ha b hab]
    exact List.forall₂_refl _
  rwa [List.forall₂_eq_eq_eq] at hrel

/-- A filter that refuses all that may be left out gives related lists. -/
theorem forall₂_filter {p : α → Bool} {q : β → Bool} (h : Drops R P as bs)
    (hpq : ∀ a b, R a b → p a = q b) (hP : ∀ a, P a → p a = false) :
    List.Forall₂ R (as.filter p) (bs.filter q) := by
  induction h with
  | nil => exact .nil
  | @keep a b as bs hab _ ih =>
    rw [List.filter_cons, List.filter_cons, hpq a b hab]
    split
    · exact .cons hab ih
    · exact ih
  | drop ha _ ih => rwa [List.filter_cons, hP _ ha]

/-- A list in which nothing is left out. -/
theorem of_forall₂ (h : List.Forall₂ R as bs) : Drops R (fun _ => False) as bs := by
  induction h with
  | nil => exact .nil
  | cons hab _ ih => exact .keep hab ih

/-- Nodes with the siblings before them. -/
theorem withBefore {R : Node → Node → Prop} {P : Node → Prop} {ns ms before before' : List Node}
    (h : Drops R P ns ms) (hbefore : Drops R P before before') :
    Drops (fun x y => Drops R P x.1 y.1 ∧ R x.2 y.2) (fun x => P x.2)
      (Node.withBefore before ns) (Node.withBefore before' ms) := by
  induction h generalizing before before' with
  | nil => exact .nil
  | keep hnm _ ih => exact .keep ⟨hbefore, hnm⟩ (ih (.keep hnm hbefore))
  | drop hn _ ih => exact .drop hn (ih (.drop hn hbefore))

end Drops

/-! ### Spare comments -/

def Node.isPlain (n : Node) : Bool := n.is .comment && !Comment.isDocumentation n.text.toList

theorem Node.kind_of_isPlain {n : Node} (h : n.isPlain = true) : n.kind = .comment := by
  have hcomment := (Bool.and_eq_true_iff.1 h).1
  simpa [Node.is] using hcomment

/-- What a child knows of its parent. -/
structure Host where
  kind : Kind
  role? : Option Field

def Node.host (n : Node) : Host := ⟨n.kind, n.role?⟩

namespace Host

/-- Is the parent the annotation of a type? -/
def annotates (h : Host) : Bool :=
  h.kind == .ascription || h.role? == some .type || h.role? == some .returnType

/-- Does the parent stand for its first child? An annotation does, and so does a type or an
expression with parentheses or a cast around it. -/
def wraps (h : Host) : Bool :=
  match h.kind with
  | .parenthesizedType | .parenthesizedExpression | .asExpression | .satisfiesExpression => true
  | _ => h.annotates

/-- Does the parent list declarations or members, with the comments that document them? -/
def lists (h : Host) : Bool :=
  h.kind == .program || h.kind == .objectType || h.role? == some .body

/-- Do lookups read the text of a child in a role? -/
def shows (h : Host) (role? : Option Field) : Bool :=
  match h.kind, role? with
  | _, some .name => true
  | .requiredParameter, some .pattern | .requiredParameter, some .value => true
  | .optionalParameter, some .pattern | .optionalParameter, some .value => true
  | .methodSignature, some .parameters => true
  | _, _ => h.annotates

theorem wraps_of_annotates {h : Host} (hh : h.annotates = true) : h.wraps = true := by
  unfold wraps
  split <;> first | rfl | exact hh

theorem shows_of_annotates {h : Host} {role? : Option Field} (hh : h.annotates = true) :
    h.shows role? = true := by
  unfold shows
  split <;> first | rfl | exact hh

theorem shows_name (h : Host) : h.shows (some .name) = true := by
  unfold shows
  split <;> simp_all

end Host

/-- Do lookups read the text of such nodes wherever they stand? -/
def Kind.isRead : Kind → Bool
  | .comment | .identifier | .typeIdentifier | .nestedTypeIdentifier | .accessModifier => true
  | _ => false

/-- A comment that may be left out, with a child of the same parent before it or not. -/
structure Node.IsSpare (host : Host) (led : Bool) (n : Node) : Prop where
  comment : n.kind = .comment
  role? : n.role? = none
  behind : host.wraps = true → led = true
  plain : host.lists = true → n.isPlain = true

/-! ### Trees with fewer comments -/

/-- The second list has the children of the first one without some spare comments. -/
inductive Thinned : Host → Bool → List Node → List Node → Prop
  | nil {host led} : Thinned host led [] []
  | keep {host led kind role? text text' cs cs' ns ms}
      (hchildren : Thinned ⟨kind, role?⟩ false cs cs')
      (htext : kind.isRead || host.shows role? → text' = text)
      (hrest : Thinned host (led || kind.isNamed) ns ms) :
      Thinned host led (.mk kind role? text cs :: ns) (.mk kind role? text' cs' :: ms)
  | drop {host led n ns ms} (hspare : n.IsSpare host led) (hrest : Thinned host true ns ms) :
      Thinned host led (n :: ns) ms

namespace Node

/-- The second tree is the first one without some spare comments. -/
structure Thins (n m : Node) : Prop where
  kind : m.kind = n.kind
  role? : m.role? = n.role?
  text : n.kind.isRead → m.text = n.text
  children : Thinned n.host false n.children m.children

/-- The second tree is the first one without some spare comments, below a parent. -/
structure ThinsIn (host : Host) (n m : Node) : Prop extends Thins n m where
  shown : host.shows n.role? → m.text = n.text

/-- The second siblings are the first ones without some comments that document nothing. -/
def ThinsAll (ns ms : List Node) : Prop := Drops Thins (fun n => n.isPlain = true) ns ms

end Node

namespace Thinned

variable {host : Host} {led : Bool} {ns ms : List Node}

/-- A child may be thinned by itself, whatever follows it. -/
theorem cons {n m : Node} (h : n.ThinsIn host m)
    (hrest : Thinned host (led || n.isNamed) ns ms) :
    Thinned host led (n :: ns) (m :: ms) := by
  obtain ⟨kind, role?, text, cs⟩ := n
  obtain ⟨kind', role?', text', cs'⟩ := m
  obtain ⟨⟨rfl, rfl, hread, hchildren⟩, hshown⟩ := h
  refine .keep hchildren (fun htext => ?_) hrest
  exact (Bool.or_eq_true _ _ ▸ htext).elim hread hshown

/-- A node is thinned if its children are, and if its text is the same wherever lookups read it. -/
theorem thinsIn {kind : Kind} {role? : Option Field} {text text' : String} {cs cs' : List Node}
    (hchildren : Thinned ⟨kind, role?⟩ false cs cs')
    (htext : kind.isRead || host.shows role? → text' = text) :
    (Node.mk kind role? text cs).ThinsIn host (.mk kind role? text' cs') where
  kind := rfl
  role? := rfl
  text hread := htext (Bool.or_eq_true_iff.2 (.inl hread))
  children := hchildren
  shown hshown := htext (Bool.or_eq_true_iff.2 (.inr hshown))

/-- Among the children only comments without a role are missing. -/
theorem drops (h : Thinned host led ns ms) :
    Drops (Node.ThinsIn host) (fun n => n.kind = .comment ∧ n.role? = none) ns ms := by
  induction h with
  | nil => exact .nil
  | keep hchildren htext _ _ ih => exact .keep (thinsIn hchildren htext) ih
  | drop hspare _ ih => exact .drop ⟨hspare.comment, hspare.role?⟩ ih

/-- In a list of declarations or members, the comments left out document nothing. -/
theorem thinsAll (h : Thinned host led ns ms) (hhost : host.lists = true) :
    Node.ThinsAll ns ms := by
  induction h with
  | nil => exact .nil
  | keep hchildren htext _ _ ih => exact .keep (thinsIn hchildren htext).toThins (ih hhost)
  | drop hspare _ ih => exact .drop (hspare.plain hhost) (ih hhost)

/-- The first child of a node that stands for it is never left out. -/
theorem head?_named (h : Thinned host led ns ms) (hhost : host.wraps = true)
    (hled : led = false) :
    Option.Rel (Node.ThinsIn host) (ns.filter Node.isNamed).head?
      (ms.filter Node.isNamed).head? := by
  induction h with
  | nil => exact .none
  | @keep host led kind role? text text' cs cs' ns ms hchildren htext _ _ ih =>
    have hnamed : ∀ t ds, (Node.mk kind role? t ds).isNamed = kind.isNamed := fun _ _ => rfl
    rw [List.filter_cons, List.filter_cons, hnamed, hnamed]
    cases hkind : kind.isNamed with
    | true => exact .some (thinsIn hchildren htext)
    | false => exact ih hhost (by rw [hled, hkind]; rfl)
  -- in a wrapper no comment is dropped in front of the first named child
  | drop hspare _ _ =>
    rw [hspare.behind hhost] at hled
    cases hled

end Thinned

namespace Node.Thins

variable {n m : Node}

theorem is_eq (h : n.Thins m) (kind : Kind) : n.is kind = m.is kind := by
  rw [Node.is, Node.is, h.kind]

theorem isNamed_eq (h : n.Thins m) : n.isNamed = m.isNamed := by
  rw [Node.isNamed, Node.isNamed, h.kind]

theorem drops (h : n.Thins m) :
    Drops (ThinsIn n.host) (fun c => c.kind = .comment ∧ c.role? = none) n.children m.children :=
  h.children.drops

/-- The children that are nodes of their own. -/
theorem named (h : n.Thins m) :
    Drops Thins (fun c => c.kind = .comment) n.named m.named :=
  (h.drops.filter fun _ _ hc => hc.toThins.isNamed_eq).imp (fun _ _ hc => hc.toThins)
    fun _ hc => hc.1

/-- Where declarations or members are listed, only comments that document nothing are missing. -/
theorem thinsAll_named (h : n.Thins m) (hn : n.host.lists = true) : ThinsAll n.named m.named :=
  (h.children.thinsAll hn).filter fun _ _ hc => hc.isNamed_eq

/-- The child in a role is the same one, thinned. -/
theorem field?_in (h : n.Thins m) (role : Field) :
    Option.Rel (fun c d => ThinsIn n.host c d ∧ c.role? = some role) (n.field? role)
      (m.field? role) := by
  refine rel_imp (h.drops.find?_rel (fun c d hc => ?_) fun c hc => ?_) fun c d hc => ?_
  · rw [hc.role?]
  · simp [hc.2]
  · exact ⟨hc.1, by simpa using hc.2⟩

/-- The child in a role. -/
theorem field? (h : n.Thins m) (role : Field) :
    Option.Rel Thins (n.field? role) (m.field? role) :=
  rel_imp (h.field?_in role) fun _ _ hc => hc.1.toThins

/-- The child in a role, where its text is read. -/
theorem field?_shown (h : n.Thins m) {role : Field} (hshown : n.host.shows (some role) = true) :
    Option.Rel (fun c d => c.Thins d ∧ d.text = c.text) (n.field? role) (m.field? role) := by
  refine rel_imp (h.field?_in role) fun c d hc => ?_
  obtain ⟨hin, hrole⟩ := hc
  exact ⟨hin.toThins, hin.shown (by rw [hrole, hshown])⟩

/-- Where lookups read the text of a role, the texts are the same. -/
theorem text_field? (h : n.Thins m) {role : Field} (hshown : n.host.shows (some role) = true) :
    (n.field? role).map Node.text = (m.field? role).map Node.text :=
  map_eq_of_rel (h.field?_shown hshown) fun _ _ _ hc => hc.2.symm

theorem name? (h : n.Thins m) :
    Option.Rel (fun c d => c.Thins d ∧ d.text = c.text) (n.field? .name) (m.field? .name) :=
  h.field?_shown (Host.shows_name _)

/-- The body lists members. -/
theorem body? (h : n.Thins m) :
    Option.Rel (fun c d => c.Thins d ∧ c.host.lists = true) (n.field? .body) (m.field? .body) := by
  refine rel_imp (h.field?_in .body) fun c d hc => ?_
  obtain ⟨hin, hrole⟩ := hc
  exact ⟨hin.toThins, by simp [Host.lists, Node.host, hrole]⟩

/-- The child that a node stands for is the same one, thinned. -/
theorem head?_named (h : n.Thins m) (hn : n.host.wraps = true) :
    Option.Rel (ThinsIn n.host) n.named.head? m.named.head? :=
  h.children.head?_named hn rfl

theorem any_children_eq (h : n.Thins m) {kind : Kind} (hkind : kind ≠ .comment) :
    (n.children.any fun c => c.is kind) = m.children.any fun c => c.is kind := by
  refine h.drops.any_eq (fun c d hc => hc.toThins.is_eq kind) fun c hc => ?_
  rw [Node.is, hc.1, beq_eq_false_iff_ne]
  exact hkind.symm

/-- The children with the siblings before them. -/
theorem placed (h : n.Thins m) (hn : n.host.lists = true) :
    Drops (fun x y => ThinsAll x.1 y.1 ∧ Thins x.2 y.2) (fun x => x.2.isPlain = true) n.placed
      m.placed :=
  (h.thinsAll_named hn).withBefore .nil

end Node.Thins

/-! ### All plain comments left out -/

mutual

/-- The tree without the comments that document nothing, wherever declarations or members are
listed. -/
def withoutPlain : Node → Node
  | .mk kind role? text cs => .mk kind role? text (withoutPlainAll ⟨kind, role?⟩ cs)

/-- The children without the comments that document nothing, if the parent lists them. -/
def withoutPlainAll (host : Host) : List Node → List Node
  | [] => []
  | n :: ns =>
    if host.lists && !host.wraps && n.isPlain && n.role?.isNone then withoutPlainAll host ns
    else withoutPlain n :: withoutPlainAll host ns

end

mutual

/-- Leaving out all comments that document nothing thins a tree. -/
theorem thinsIn_withoutPlain (host : Host) (n : Node) : n.ThinsIn host (withoutPlain n) := by
  obtain ⟨kind, role?, text, cs⟩ := n
  exact Thinned.thinsIn (thinned_withoutPlainAll ⟨kind, role?⟩ false cs) fun _ => rfl

theorem thinned_withoutPlainAll (host : Host) (led : Bool) (ns : List Node) :
    Thinned host led ns (withoutPlainAll host ns) := by
  match ns with
  | [] => exact .nil
  | n :: ns =>
    rw [withoutPlainAll]
    split
    · next hdrop =>
      simp only [Bool.and_eq_true, Bool.not_eq_true', Option.isNone_iff_eq_none] at hdrop
      obtain ⟨⟨⟨-, hwraps⟩, hplain⟩, hrole⟩ := hdrop
      refine .drop ⟨Node.kind_of_isPlain hplain, hrole, fun h => ?_, fun _ => hplain⟩
        (thinned_withoutPlainAll host true ns)
      rw [hwraps] at h
      cases h
    · exact .cons (thinsIn_withoutPlain host n) (thinned_withoutPlainAll host _ ns)

end

/-! ### Two given trees -/

instance (host : Host) (led : Bool) (n : Node) : Decidable (n.IsSpare host led) :=
  decidable_of_iff (n.kind = .comment ∧ n.role? = none ∧ (host.wraps = true → led = true) ∧
      (host.lists = true → n.isPlain = true))
    ⟨fun ⟨h₁, h₂, h₃, h₄⟩ => ⟨h₁, h₂, h₃, h₄⟩, fun ⟨h₁, h₂, h₃, h₄⟩ => ⟨h₁, h₂, h₃, h₄⟩⟩

mutual

/-- Is the second tree the first one without some spare comments? -/
def thins : Node → Node → Bool
  | .mk kind role? text cs, m =>
    m.kind == kind && m.role? == role? && (!kind.isRead || m.text == text) &&
      thinsAll ⟨kind, role?⟩ false cs m.children

/-- Are the second children the first ones without some spare comments? -/
def thinsAll (host : Host) (led : Bool) : List Node → List Node → Bool
  | [], ms => ms.isEmpty
  | n :: ns, ms =>
    -- a comment that both trees have stays, so one is left out only where the trees differ
    (match ms with
      | [] => false
      | m :: ms => (!host.shows n.role? || m.text == n.text) && thins n m &&
          thinsAll host (led || n.isNamed) ns ms) ||
      (decide (n.IsSpare host led) && thinsAll host true ns ms)

end

mutual

/-- The check of two trees is right. -/
theorem thins_of_thins {n m : Node} (h : thins n m = true) : n.Thins m := by
  obtain ⟨kind, role?, text, cs⟩ := n
  simp only [thins, Bool.and_eq_true, beq_iff_eq, Bool.or_eq_true, Bool.not_eq_true'] at h
  obtain ⟨⟨⟨hkind, hrole⟩, htext⟩, hchildren⟩ := h
  refine ⟨hkind, hrole, fun hread => htext.resolve_left ?_, thinned_of_thinsAll hchildren⟩
  simpa using hread

theorem thinned_of_thinsAll {host : Host} {led : Bool} {ns ms : List Node}
    (h : thinsAll host led ns ms = true) : Thinned host led ns ms := by
  match ns, ms with
  | [], [] => exact .nil
  | [], _ :: _ => simp [thinsAll] at h
  | n :: ns, [] =>
    obtain ⟨hspare, hrest⟩ : n.IsSpare host led ∧ thinsAll host true ns [] = true := by
      simpa [thinsAll] using h
    exact .drop hspare (thinned_of_thinsAll hrest)
  | n :: ns, m :: ms =>
    simp only [thinsAll, Bool.or_eq_true, Bool.and_eq_true, decide_eq_true_eq, beq_iff_eq,
      Bool.not_eq_true'] at h
    -- the check keeps both heads or drops the first one
    rcases h with ⟨⟨htext, hn⟩, hrest⟩ | ⟨hspare, hrest⟩
    · have hshown : host.shows n.role? = true → m.text = n.text := by
        intro hshows
        exact htext.resolve_left (by simp [hshows])
      exact .cons ⟨thins_of_thins hn, hshown⟩ (thinned_of_thinsAll hrest)
    · exact .drop hspare (thinned_of_thinsAll hrest)

end

end RefPages.Syntax
