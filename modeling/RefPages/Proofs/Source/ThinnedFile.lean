import RefPages.Proofs.Source.Thinned

/-!
# Files with fewer comments

A file declares the same names when spare comments are left out, each of them in the same shape and
by the same node, with fewer comments in it and before it (`Declaration.Thins`). So names keep their
meaning, and every run of the resolution can be followed in the other file (`Resolves.thins`). The
parts of an intersection are the only place where a run meets comments, and they give nothing there.
-/

namespace RefPages.Source

open Syntax

/-! ### Declarations -/

/-- The same declaration in a file with fewer comments. -/
structure Declaration.Thins (d e : Declaration) : Prop where
  name : e.name = d.name
  shape : e.shape = d.shape
  before : Node.ThinsAll d.before e.before
  node : d.node.Thins e.node

theorem Declaration.Like.thins {d e : Declaration}
    (h : Declaration.Like Node.Thins (fun n => n.isPlain = true) d e) : d.Thins e :=
  ⟨h.name, h.shape, h.before, h.node⟩

variable {ds es : List Declaration}

/-- The same declaration is found, with fewer comments. -/
theorem find?_thins (h : List.Forall₂ Declaration.Thins ds es) (name : String)
    (accepts : Shape → Bool) :
    Option.Rel Declaration.Thins (find? ds name accepts) (find? es name accepts) :=
  rel_imp (find?_rel h (fun hde => hde.name) (fun hde => hde.shape) name accepts)
    fun _ _ hde => hde.1

/-! ### Resolution -/

/-- The same meaning in a file with fewer comments. -/
inductive Meaning.Thins : Meaning → Meaning → Prop
  | interface {d e} (h : d.Thins e) : Meaning.Thins (.interface d) (.interface e)
  | typeAlias {t u} (h : t.Thins u) : Meaning.Thins (.typeAlias t) (.typeAlias u)
  | nothing : Meaning.Thins .nothing .nothing

/-- A name has the same meaning, with fewer comments. -/
theorem meaning_thins (h : List.Forall₂ Declaration.Thins ds es) (name : String) :
    (meaning ds name).Thins (meaning es name) := by
  unfold meaning findType?
  rcases none_or_some_of_rel (find?_thins h name Shape.isType) with ⟨hd, he⟩ | ⟨d, e, hd, he, hde⟩
  · rw [hd, he]
    exact .nothing
  · rw [hd, he]
    dsimp only
    rw [hde.shape]
    -- the shape tells an interface from an alias
    split
    · exact .interface hde
    · rcases none_or_some_of_rel (hde.node.field? .value) with ⟨hn, hm⟩ | ⟨t, u, hn, hm, htu⟩
      · rw [hn, hm]
        exact .nothing
      · rw [hn, hm]
        exact .typeAlias htu

theorem meaning_of_nothing (h : List.Forall₂ Declaration.Thins ds es) {name : String}
    (hmeaning : meaning ds name = .nothing) : meaning es name = .nothing := by
  have hm := meaning_thins h name
  rw [hmeaning] at hm
  generalize meaning es name = m at hm
  cases hm
  rfl

theorem meaning_of_interface (h : List.Forall₂ Declaration.Thins ds es) {name : String}
    {d : Declaration} (hmeaning : meaning ds name = .interface d) :
    ∃ e, meaning es name = .interface e ∧ d.Thins e := by
  have hm := meaning_thins h name
  rw [hmeaning] at hm
  generalize meaning es name = m at hm
  cases hm with
  | interface hde => exact ⟨_, rfl, hde⟩

theorem meaning_of_typeAlias (h : List.Forall₂ Declaration.Thins ds es) {name : String}
    {t : Node} (hmeaning : meaning ds name = .typeAlias t) :
    ∃ u, meaning es name = .typeAlias u ∧ t.Thins u := by
  have hm := meaning_thins h name
  rw [hmeaning] at hm
  generalize meaning es name = m at hm
  cases hm with
  | typeAlias htu => exact ⟨_, rfl, htu⟩

theorem ownMembers_thins {d e : Declaration} (h : d.Thins e) : ownMembers d = ownMembers e := by
  unfold ownMembers
  rw [map_eq_of_rel h.node.body? fun c _ c' hc => members_thins hc.1 hc.2]

/-- The same name, or the same type with fewer comments. -/
inductive Item.Thins : Item → Item → Prop
  | name (n : String) : Item.Thins (.name n) (.name n)
  | type {t u : Node} (h : t.Thins u) : Item.Thins (.type t) (.type u)

def Item.IsComment : Item → Prop
  | .name _ => False
  | .type t => t.kind = .comment

/-- The same task in a file with fewer comments. -/
inductive Task.Thins : Task → Task → Prop
  | item {i j} (h : i.Thins j) : Task.Thins (.item i) (.item j)
  | first (names : List String) : Task.Thins (.first names) (.first names)
  | all {given items items'} (h : Drops Item.Thins Item.IsComment items items') :
      Task.Thins (.all given items) (.all given items')

theorem Task.Thins.of_name {name : String} {task : Task}
    (h : Task.Thins (.item (.name name)) task) : task = .item (.name name) := by
  cases h with
  | item hi =>
    cases hi
    rfl

theorem Task.Thins.of_type {t : Node} {task : Task} (h : Task.Thins (.item (.type t)) task) :
    ∃ u, task = .item (.type u) ∧ t.Thins u := by
  cases h with
  | item hi =>
    cases hi with
    | type htu => exact ⟨_, rfl, htu⟩

theorem drops_names (names : List String) :
    Drops Item.Thins Item.IsComment (names.map .name) (names.map .name) := by
  induction names with
  | nil => exact .nil
  | cons name names ih => exact .keep (.name name) ih

theorem isReference_thins {t u : Node} (h : t.Thins u) : isReference t = isReference u := by
  rw [isReference, isReference, h.is_eq, h.is_eq, h.is_eq]

/-- A comment among the parts of a type gives nothing. -/
theorem Resolves.of_comment {i : Item} {entered after : List String}
    {found : Option (List Member)} (hi : i.IsComment)
    (h : Resolves ds (.item i) entered found after) : found = none ∧ after = entered := by
  -- a comment has none of the kinds that resolve to something
  cases h with
  | foreign => exact ⟨rfl, rfl⟩
  | known | nothing | interface | typeAlias => exact hi.elim
  | hollow => exact ⟨rfl, rfl⟩
  | object hkind | inner hkind | intersection hkind =>
    rw [Item.IsComment, hkind] at hi
    cases hi
  | @reference t _ _ _ hkind =>
    have ht : t.kind = .comment := hi
    rw [isReference, Node.is, Node.is, Node.is, ht] at hkind
    cases hkind

/-- Every run of the resolution is also one in the file with fewer comments. -/
theorem Resolves.thins (hds : List.Forall₂ Declaration.Thins ds es) {task task' : Task}
    {entered after : List String} {found : Option (List Member)}
    (h : Resolves ds task entered found after) (ht : task.Thins task') :
    Resolves es task' entered found after := by
  -- the task of the other file takes the same step, with the nodes that are there related to these
  induction h generalizing task' with
  | known hname =>
    obtain rfl := ht.of_name
    exact .known hname
  | nothing hname hmeaning =>
    obtain rfl := ht.of_name
    exact .nothing hname (meaning_of_nothing hds hmeaning)
  | @interface name entered d inherited after hname hmeaning _ ih =>
    obtain rfl := ht.of_name
    obtain ⟨e, hmeaning', hde⟩ := meaning_of_interface hds hmeaning
    rw [ownMembers_thins hde]
    refine .interface hname hmeaning' (ih ?_)
    rw [baseNames_thins hde.node]
    exact .all (drops_names _)
  | typeAlias hname hmeaning _ ih =>
    obtain rfl := ht.of_name
    obtain ⟨u, hmeaning', htu⟩ := meaning_of_typeAlias hds hmeaning
    exact .typeAlias hname hmeaning' (ih (.item (.type htu)))
  | @object type entered hkind =>
    obtain ⟨u, rfl, htu⟩ := ht.of_type
    rw [members_thins htu (by simp [Host.lists, Node.host, hkind])]
    exact .object (htu.kind.trans hkind)
  | @inner type inner entered found after hkind hinner _ ih =>
    obtain ⟨u, rfl, htu⟩ := ht.of_type
    have hhead := htu.head?_named (by simp [Host.wraps, Node.host, hkind])
    rw [hinner] at hhead
    rcases none_or_some_of_rel hhead with ⟨hnone, -⟩ | ⟨c, c', hc, hc', hcc⟩
    · cases hnone
    · cases hc
      exact .inner (htu.kind.trans hkind) hc' (ih (.item (.type hcc.toThins)))
  | @hollow type entered hkind hinner =>
    obtain ⟨u, rfl, htu⟩ := ht.of_type
    have hhead := htu.head?_named (by simp [Host.wraps, Node.host, hkind])
    rw [hinner] at hhead
    rcases none_or_some_of_rel hhead with ⟨-, hnone⟩ | ⟨c, c', hc, -, -⟩
    · exact .hollow (htu.kind.trans hkind) hnone
    · cases hc
  | intersection hkind _ ih =>
    obtain ⟨u, rfl, htu⟩ := ht.of_type
    refine .intersection (htu.kind.trans hkind) (ih (.all ?_))
    exact htu.named.map (fun _ _ => .type) fun _ hc => hc
  | reference hkind _ ih =>
    obtain ⟨u, rfl, htu⟩ := ht.of_type
    rw [candidates_thins htu] at ih
    exact .reference (isReference_thins htu ▸ hkind) (ih (.first _))
  | foreign hobject hinner hparts hreference =>
    obtain ⟨u, rfl, htu⟩ := ht.of_type
    rw [← htu.kind] at hobject hinner hparts
    exact .foreign hobject hinner hparts (isReference_thins htu ▸ hreference)
  | exhausted =>
    cases ht
    exact .exhausted
  | found _ ih =>
    cases ht
    exact .found (ih (.item (.name _)))
  | next _ _ ih ih' =>
    cases ht
    exact .next (ih (.item (.name _))) (ih' (.first _))
  | nil =>
    cases ht with
    | all hitems =>
      cases hitems
      exact .nil
  | cons hitem _ ih ih' =>
    cases ht with
    | all hitems =>
      cases hitems with
      | keep hij hrest => exact .cons (ih (.item hij)) (ih' (.all hrest))
      | drop hi hrest =>
        -- only the parts of an intersection have comments among them, and these give nothing
        obtain ⟨rfl, rfl⟩ := hitem.of_comment hi
        exact ih' (.all hrest)

/-- Files that differ in comments have the same interfaces. -/
theorem interface?_thins (hds : List.Forall₂ Declaration.Thins ds es) (name : String) :
    interface? ds name = interface? es name := by
  have hrun := (@resolves_ofName ds [] name).thins hds (.item (.name name))
  rw [interface?, interface?, (hrun.deterministic (resolves_ofName [] name)).1]

/-- A type describes the same properties. -/
theorem definition?_thins (hds : List.Forall₂ Declaration.Thins ds es) {t u : Node}
    (h : t.Thins u) (htext : u.text = t.text) : definition? ds t = definition? es u := by
  have hrun := (@resolves_ofType ds [] t).thins hds (.item (.type h))
  have hfirst : interface? ds = interface? es := funext (interface?_thins hds)
  rw [definition?, definition?, candidates_thins h, hfirst, htext,
    (hrun.deterministic (resolves_ofType [] u)).1]

end RefPages.Source

namespace RefPages.SourceFile

open Source Syntax

/-- A file in which some spare comments of another one are left out. -/
structure Thins (f g : SourceFile) : Prop where
  program : f.root.kind = .program
  root : f.root.Thins g.root

/-- The file without any comment that documents nothing, wherever declarations or members are
listed. -/
def bare (f : SourceFile) : SourceFile := ⟨f.path, f.text, withoutPlain f.root⟩

/-- Leaving out all comments that document nothing is such a difference. -/
theorem thins_bare {f : SourceFile} (h : f.root.kind = .program) : f.Thins f.bare where
  program := h
  root := (thinsIn_withoutPlain f.root.host f.root).toThins

variable {f g : SourceFile}

/-- Such files declare the same names. -/
theorem declarations_thins (h : f.Thins g) :
    List.Forall₂ Declaration.Thins f.declarations g.declarations :=
  (isLikeness_thins.declarations_rel h.root h.program).imp fun _ _ hde => hde.thins

/-- The same declaration is found for a subject, with fewer comments. -/
theorem subject?_thins (h : f.Thins g) (s : Subject) :
    Option.Rel Declaration.Thins (f.subject? s) (g.subject? s) :=
  find?_thins (declarations_thins h) s.name (fits s.kind)

theorem class?_thins (h : f.Thins g) (name : String) :
    Option.Rel Declaration.Thins (f.class? name) (g.class? name) :=
  find?_thins (declarations_thins h) name (· == .classShape)

theorem declares_thins (h : f.Thins g) (s : Subject) : f.declares s = g.declares s :=
  isSome_eq_of_rel (subject?_thins h s)

/-- The first argument's interface. -/
theorem argument?_thins (h : f.Thins g) (s : Subject) : f.argument? s = g.argument? s := by
  rw [argument?_eq, argument?_eq]
  have hfunction : Option.Rel Node.Thins ((f.subject? s).bind configured?)
      ((g.subject? s).bind configured?) :=
    rel_bind (subject?_thins h s) fun _ _ _ hde =>
      isLikeness_thins.configured?_rel hde.shape hde.node
  have hparameter := rel_bind hfunction fun a _ b hab => rel_head? (parameterNodes_thins hab)
  have htype : Option.Rel (fun t u => t.Thins u ∧ u.text = t.text) (f.argumentType? s)
      (g.argumentType? s) :=
    rel_bind hparameter fun a _ b hab => annotated?_thins hab (.inl rfl)
  exact bind_eq_of_rel htype fun t u htu => definition?_thins (declarations_thins h) htu.1 htu.2

/-- A check that reads two files first shows that they can be read, that the second one has fewer
comments, and what it checks of them. -/
theorem exists_thins_of_parse [ErrorPlaces] {path text text' : String}
    {P : SourceFile → SourceFile → Prop}
    [∀ f g, Decidable (P f g)]
    (h : (parse path text).toOption.any (fun f => (parse path text').toOption.any fun g =>
      f.root.kind == .program && thins f.root g.root && decide (P f g)) = true) :
    ∃ f g, parse path text = .ok f ∧ parse path text' = .ok g ∧ f.Thins g ∧ P f g := by
  obtain ⟨f, g, hf, hg, hchecked⟩ := exists_of_parse_both h
  obtain ⟨⟨hprogram, hroot⟩, hP⟩ :
      (f.root.kind = .program ∧ thins f.root g.root = true) ∧ P f g := by simpa using hchecked
  exact ⟨f, g, hf, hg, ⟨hprogram, thins_of_thins hroot⟩, hP⟩

end RefPages.SourceFile
