import RefPages.Proofs.Source.Live

/-!
# One property for every name

A body may list a name several times, for instance the signatures of an overloaded method. Where
properties are merged, as those of an interface and of an intersection are, the last one of a name
is left. The members of an object type are taken as they are listed:

    interface N { on(): void; on(name: string): void }       N  ──▶  on
    type N = { on(): void; on(name: string): void }          N  ──▶  on, on

So a type has one property for every name, unless it comes down to an object type through
parentheses, references and aliases only (`ComesTo`), and this lists a name twice.
-/

namespace RefPages.Source

open Syntax

variable {ds : List Declaration}

/-! ### What a type comes down to -/

/-- A name or a type comes down to an object type, and nothing is merged on the way. -/
inductive ComesTo (ds : List Declaration) : Item → Node → Prop
  | object {type} (hkind : type.kind = .objectType) : ComesTo ds (.type type) type
  | inner {type inner body} (hkind : type.kind = .parenthesizedType)
      (hinner : type.named.head? = some inner) (hbody : ComesTo ds (.type inner) body) :
      ComesTo ds (.type type) body
  | candidate {type name body} (hname : name ∈ candidates type)
      (hbody : ComesTo ds (.name name) body) : ComesTo ds (.type type) body
  | typeAlias {name type body} (hmeaning : meaning ds name = .typeAlias type)
      (hbody : ComesTo ds (.type type) body) : ComesTo ds (.name name) body

def Task.ComesTo (ds : List Declaration) : Task → Node → Prop
  | .item i, body => Source.ComesTo ds i body
  | .first names, body => ∃ name ∈ names, Source.ComesTo ds (.name name) body
  | .all _ _, _ => False

/-- The properties that a task starts with. -/
def Task.given : Task → List Member
  | .all given _ => given
  | _ => []

/-- The names of properties are apart, or the properties are what one object type lists, and the
task comes down to this. -/
def Task.Yields (ds : List Declaration) (task : Task) (ps : List Member) : Prop :=
  (names ps).Nodup ∨ ∃ body, task.ComesTo ds body ∧ ps = members body

/-- A task yields what a task inside it yields, if it comes down to the same object type. -/
theorem Task.Yields.imp {inner outer : Task} {ps : List Member} (h : inner.Yields ds ps)
    (hcomes : ∀ body, inner.ComesTo ds body → outer.ComesTo ds body) : outer.Yields ds ps := by
  refine Or.imp_right ?_ h
  rintro ⟨body, hbody, hps⟩
  exact ⟨body, hcomes body hbody, hps⟩

/-- What is merged comes down to no object type. -/
theorem Task.Yields.nodup {given : List Member} {items : List Item} {ps : List Member}
    (h : (Task.all given items).Yields ds ps) : (names ps).Nodup := by
  obtain hnodup | ⟨_, hfalse, -⟩ := h
  · exact hnodup
  · cases hfalse

/-- By induction on the derivation: whatever merges keeps names apart, and only an object type on
its own lists its members as they are. -/
theorem Resolves.yields {task : Task} {entered after : List String} {found : Option (List Member)}
    (h : Resolves ds task entered found after) (hgiven : (names task.given).Nodup) :
    ∀ ps ∈ found, task.Yields ds ps := by
  induction h with
  | known | nothing | hollow | foreign | exhausted => simp
  -- an interface merges, so its names are apart
  | interface _ _ _ ih =>
    rintro _ ⟨⟩
    exact .inl (nodup_names_merge (ih List.nodup_nil _ rfl).nodup)
  | typeAlias _ hmeaning _ ih =>
    intro ps hps
    exact (ih hgiven ps hps).imp fun _ => .typeAlias hmeaning
  -- an object type on its own does not
  | object hkind =>
    rintro _ ⟨⟩
    exact .inr ⟨_, .object hkind, rfl⟩
  | inner hkind hinner _ ih =>
    intro ps hps
    exact (ih hgiven ps hps).imp fun _ => .inner hkind hinner
  | intersection _ _ ih =>
    intro ps hps
    exact .inl (ih List.nodup_nil ps hps).nodup
  | reference _ _ ih =>
    intro ps hps
    exact (ih hgiven ps hps).imp fun _ ⟨_, hname, hbody⟩ => .candidate hname hbody
  | found _ ih =>
    intro ps hps
    exact (ih hgiven ps hps).imp fun _ hbody => ⟨_, List.mem_cons_self, hbody⟩
  | next _ _ _ ih =>
    intro ps hps
    exact (ih hgiven ps hps).imp fun _ ⟨name, hname, hbody⟩ =>
      ⟨name, List.mem_cons_of_mem _ hname, hbody⟩
  | nil =>
    rintro _ ⟨⟩
    exact .inl hgiven
  | cons _ _ _ ih =>
    intro ps hps
    exact .inl (ih (nodup_names_merge hgiven) ps hps).nodup

/-- The properties of a type have distinct names, unless the type comes down to an object type. -/
theorem definition?_yields {type : Node} {i : Interface} (h : definition? ds type = some i) :
    (Task.item (.type type)).Yields ds i.properties := by
  unfold definition? at h
  split at h
  · next i' hfirst =>
    cases h
    obtain ⟨name, hname, hi⟩ := List.exists_of_findSome?_eq_some hfirst
    obtain ⟨properties, hvalue, rfl⟩ := Option.map_eq_some_iff.1 hi
    exact ((resolves_ofName [] name).yields List.nodup_nil properties hvalue).imp fun _ =>
      .candidate hname
  · obtain ⟨properties, hvalue, rfl⟩ := Option.map_eq_some_iff.1 h
    exact (resolves_ofType [] type).yields List.nodup_nil properties hvalue

/-! ### One body, declared in two ways -/

/-- The body of an interface that extends nothing. -/
def Meaning.plainBody? : Meaning → Option Node
  | .interface d => if baseNames d.node = [] then d.node.field? .body else none
  | _ => none

/-- The object type that an alias is a name for. -/
def Meaning.objectType? : Meaning → Option Node
  | .typeAlias type => if type.is .objectType then some type else none
  | _ => none

/-- An interface that extends nothing merges its own members. -/
theorem interface?_of_plainBody {name : String} {body : Node}
    (h : (meaning ds name).plainBody? = some body) :
    interface? ds name = some ⟨name, merge [] (members body)⟩ := by
  cases hmeaning : meaning ds name with
  | interface d =>
    simp only [hmeaning, Meaning.plainBody?, Option.ite_none_right_eq_some] at h
    obtain ⟨hbases, hbody⟩ := h
    have hrun : Resolves ds (.all [] ((baseNames d.node).map .name)) [name] (some []) [name] := by
      rw [hbases]
      exact .nil
    have hown : ownMembers d = members body := by
      rw [ownMembers, hbody]
      rfl
    rw [← hown]
    exact interface?_of_resolves (.interface List.not_mem_nil hmeaning hrun)
  | typeAlias type => simp [hmeaning, Meaning.plainBody?] at h
  | nothing => simp [hmeaning, Meaning.plainBody?] at h

/-- A name for an object type has the members as they are listed. -/
theorem interface?_of_objectType {name : String} {type : Node}
    (h : (meaning ds name).objectType? = some type) :
    interface? ds name = some ⟨name, members type⟩ := by
  cases hmeaning : meaning ds name with
  | typeAlias value =>
    simp only [hmeaning, Meaning.objectType?, Option.ite_none_right_eq_some] at h
    obtain ⟨hkind, rfl⟩ : value.is .objectType = true ∧ value = type := by simpa using h
    have hobject : value.kind = .objectType := by simpa [Node.is] using hkind
    exact interface?_of_resolves (.typeAlias List.not_mem_nil hmeaning (.object hobject))
  | interface d => simp [hmeaning, Meaning.objectType?] at h
  | nothing => simp [hmeaning, Meaning.objectType?] at h

end RefPages.Source

namespace RefPages.SourceFile

open Source Syntax

def argumentType? (f : SourceFile) (s : Subject) : Option Node :=
  (((f.subject? s).bind configured?).bind fun function => (parameterNodes function).head?).bind
    fun parameter => (parameter.field? .type).bind annotated?

theorem argument?_eq (f : SourceFile) (s : Subject) :
    f.argument? s = (f.argumentType? s).bind (definition? f.declarations) := by
  unfold argument? argumentType?
  cases (f.subject? s).bind configured? with
  | none => rfl
  | some function =>
    cases hparameter : (parameterNodes function).head? <;> simp [hparameter]

/-- **No property is documented twice, unless an object type lists it twice.** The properties of a
subject's argument have different names, or they are what the object type lists that the argument's
type comes down to. So a body that is declared as an interface and as an object type has the same
properties if and only if it lists no name twice. -/
theorem argument?_distinct (f : SourceFile) :
    (∀ s i, f.argument? s = some i → (names i.properties).Nodup ∨
      ∃ type body, f.argumentType? s = some type ∧ ComesTo f.declarations (.type type) body ∧
        i.properties = members body) ∧
    ∀ (g : SourceFile) (m n : String) (body type : Node),
      (meaning f.declarations m).plainBody? = some body →
      (meaning g.declarations n).objectType? = some type → members type = members body →
      ((f.interface? m).map Interface.properties = (g.interface? n).map Interface.properties ↔
        (names (members body)).Nodup) := by
  constructor
  · intro s i h
    rw [argument?_eq] at h
    obtain ⟨type, htype, hi⟩ := Option.bind_eq_some_iff.1 h
    refine Or.imp_right ?_ (definition?_yields hi)
    rintro ⟨body, hbody, hproperties⟩
    exact ⟨type, body, htype, hbody, hproperties⟩
  · intro g m n body type hbody htype hsame
    rw [interface?, interface?, interface?_of_plainBody hbody, interface?_of_objectType htype,
      hsame, ← merge_nil_eq_self_iff]
    simp

/-! ### The signatures of an overloaded method -/

/-- An argument whose type has one candidate gets the interface with this name. -/
theorem argument?_of_candidates {f : SourceFile} {s : Subject} {name : String} {i : Interface}
    (htype : (f.argumentType? s).map candidates = some [name]) (hi : f.interface? name = some i) :
    f.argument? s = some i := by
  obtain ⟨type, htype, hcandidates⟩ := Option.map_eq_some_iff.1 htype
  have hfirst : (candidates type).findSome? (Source.interface? f.declarations) = some i := by
    rw [hcandidates, List.findSome?_singleton]
    exact hi
  rw [argument?_eq, htype, Option.bind_some, definition?, hfirst]

namespace TwoWays

/-- A body that is declared as an interface and as an object type, and a function with options of
the object type. -/
def source (body : String) : String :=
  "interface M \x7b" ++ body ++ "\x7d
type N = \x7b" ++ body ++ "\x7d
function use(options: N) \x7b\x7d"

def subject : Subject := ⟨.hook, "use"⟩

/-- The names that the body lists, if both declarations list the same. -/
def listed? (f : SourceFile) : Option (List String) :=
  match (meaning f.declarations "M").plainBody?, (meaning f.declarations "N").objectType? with
  | some body, some type =>
    if members type = members body then some (names (members body)) else none
  | _, _ => none

/-- Both declarations list the body, and the object type is the type of the function's argument. -/
structure Declares (f : SourceFile) (body type : Node) : Prop where
  plainBody : (meaning f.declarations "M").plainBody? = some body
  objectType : (meaning f.declarations "N").objectType? = some type
  members_eq : members type = members body
  argument : f.argument? subject = some ⟨"N", members type⟩

/-- The check of a file is right: where it succeeds, both declarations list the body. -/
theorem declares_of_listed? {f : SourceFile} {ps : List String} (h : listed? f = some ps)
    (htype : (f.argumentType? subject).map candidates = some ["N"]) :
    ∃ body type, Declares f body type ∧ names (members body) = ps := by
  unfold listed? at h
  split at h
  · next body type hbody hobject =>
    obtain ⟨hsame, hnames⟩ := Option.ite_none_right_eq_some.1 h
    have hargument := argument?_of_candidates htype (interface?_of_objectType hobject)
    exact ⟨body, type, ⟨hbody, hobject, hsame, hargument⟩, Option.some.inj hnames⟩
  · cases h

theorem exists_declares [ErrorPlaces] {body : String} {ps : List String}
    (h : (SourceFile.parse "a.ts" (source body)).toOption.any (fun f : SourceFile => decide (
      listed? f = some ps ∧ (f.argumentType? subject).map candidates = some ["N"])) = true) :
    ∃ f b t, SourceFile.parse "a.ts" (source body) = .ok f ∧ Declares f b t ∧
      names (members b) = ps := by
  obtain ⟨f, hf, hlisted, htype⟩ := exists_of_parse h
  obtain ⟨b, t, hdeclares, hnames⟩ := declares_of_listed? hlisted htype
  exact ⟨f, b, t, hf, hdeclares, hnames⟩

end TwoWays

open TwoWays

theorem argument?_distinct_plain :
    ∃ f body type i, SourceFile.parse "a.ts" (source "on(): void; off: 1") = .ok f ∧
      Declares f body type ∧ f.argument? subject = some i ∧
      ((names i.properties).Nodup ∨
        ∃ type body, f.argumentType? subject = some type ∧
          ComesTo f.declarations (.type type) body ∧ i.properties = members body) ∧
      (f.interface? "M").map Interface.properties =
        (f.interface? "N").map Interface.properties := by
  obtain ⟨f, body, type, hf, hdeclares, hnames⟩ :
      ∃ f b t, SourceFile.parse "a.ts" (source "on(): void; off: 1") = .ok f ∧ Declares f b t ∧
        names (members b) = ["on", "off"] := exists_declares (by decide +kernel)
  refine ⟨f, body, type, _, hf, hdeclares, hdeclares.argument,
    (argument?_distinct f).1 _ _ hdeclares.argument, ?_⟩
  refine ((argument?_distinct f).2 f "M" "N" body type hdeclares.plainBody hdeclares.objectType
    hdeclares.members_eq).2 ?_
  rw [hnames]
  decide

theorem argument?_repeated :
    ∃ f body type i, SourceFile.parse "a.ts" (source "on(): void; on(n: 1): void") = .ok f ∧
      Declares f body type ∧ f.argument? subject = some i ∧ names i.properties = ["on", "on"] ∧
      (f.interface? "M").map Interface.properties ≠
        (f.interface? "N").map Interface.properties := by
  obtain ⟨f, body, type, hf, hdeclares, hnames⟩ :
      ∃ f b t, SourceFile.parse "a.ts" (source "on(): void; on(n: 1): void") = .ok f ∧
        Declares f b t ∧ names (members b) = ["on", "on"] := exists_declares (by decide +kernel)
  refine ⟨f, body, type, _, hf, hdeclares, hdeclares.argument, ?_, ?_⟩
  · rw [hdeclares.members_eq, hnames]
  · rw [interface?, interface?, interface?_of_plainBody hdeclares.plainBody,
      interface?_of_objectType hdeclares.objectType, hdeclares.members_eq]
    intro hsame
    have hnodup : (names (members body)).Nodup := merge_nil_eq_self_iff.1 (by simpa using hsame)
    rw [hnames] at hnodup
    exact absurd hnodup (by decide)

end RefPages.SourceFile
