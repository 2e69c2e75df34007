import RefPages.Proofs.Comment.Word
import RefPages.Proofs.Page.Tags
import RefPages.Proofs.Source.Distinct
import RefPages.Proofs.Source.Origin

/-!
# Deprecated properties

The properties of an interface are shown in their order, each in one block, but for those that are
deprecated. The marker of these is looked for in the comment that the page would show, from which
the default value has been taken away:

    /** Old. @deprecated */  a?: number          no block
    /** @default 1 (@deprecated) */  a?: number  a block, with the default "1 (@deprecated)"

So a property whose comment has the marker is shown all the same, just if the marker stands in the
tags of default values only.
-/

namespace RefPages.Source

open Syntax
open Relation (ReflTransGen)

variable {ds : List Declaration}

/-! ### Where the members of a type stand -/

/-- A node stands somewhere in another one, or is it. -/
def Within (outer inner : Node) : Prop := ReflTransGen (fun n m => m ∈ n.children) outer inner

theorem Within.of_named {outer child inner : Node} (hchild : child ∈ outer.named)
    (h : Within child inner) : Within outer inner :=
  .head (List.mem_filter.1 hchild).1 h

theorem Within.of_field? {outer child : Node} {role : Field} (h : outer.field? role = some child) :
    Within outer child :=
  .single (List.mem_of_find?_eq_some h)

theorem within_of_mem_parts {type part : Node} (h : part ∈ parts type) : Within type part := by
  by_cases hinner : type.kind = .parenthesizedType
  · cases hhead : type.named.head? with
    | none =>
      obtain ⟨kind, role?, text, children⟩ := type
      obtain rfl : kind = .parenthesizedType := hinner
      have hnone : (children.filter Node.isNamed).head? = none := hhead
      simp [parts, partsOfFirst_eq, hnone] at h
    | some inner =>
      have hmem := List.mem_of_head? hhead
      have hsmaller := Node.sizeOf_lt_of_mem_named hmem
      rw [parts_of_parenthesized hinner hhead] at h
      exact .of_named hmem (within_of_mem_parts h)
  · by_cases hparts : type.kind = .intersectionType
    · rw [parts_of_intersection hparts] at h
      obtain ⟨child, hchild, hpart⟩ := List.mem_flatMap.1 h
      have hsmaller := Node.sizeOf_lt_of_mem_named hchild
      exact .of_named hchild (within_of_mem_parts hpart)
    · rw [parts_self hinner hparts] at h
      obtain rfl := List.mem_singleton.1 h
      exact .refl
termination_by sizeOf type

/-- A property that a type or a declaration of the file lists stands in a body there. -/
theorem exists_body_of_mem_listed {type : Node} {p : Member} (h : p ∈ listed type) :
    ∃ body, Within type body ∧ p ∈ members body := by
  obtain ⟨part, hpart, hp⟩ := List.mem_flatMap.1 h
  split at hp
  · exact ⟨part, within_of_mem_parts hpart, hp⟩
  · cases hp

/-- What a declaration lists is a member of a body in it. -/
theorem exists_body_of_mem_properties {name : String} {p : Member}
    (h : p ∈ (meaning ds name).properties) :
    ∃ d ∈ ds, ∃ body, Within d.node body ∧ p ∈ members body := by
  -- an interface lists its own body; an alias lists the object type it stands for
  unfold meaning at h
  split at h
  · cases h
  · next d hd =>
    have hmem : d ∈ ds := (findType?_name hd).1
    split at h
    · cases hbody : d.node.field? .body with
      | none => simp [Meaning.properties, ownMembers, hbody] at h
      | some body =>
        have hp : p ∈ members body := by simpa [Meaning.properties, ownMembers, hbody] using h
        exact ⟨d, hmem, body, .of_field? hbody, hp⟩
    · split at h
      · cases h
      · next type htype =>
        obtain ⟨body, hwithin, hp⟩ := exists_body_of_mem_listed h
        exact ⟨d, hmem, body, (Within.of_field? htype).trans hwithin, hp⟩

/-- Whatever the resolution gives was given before, or is a member of a body that stands in some
declaration. -/
theorem Resolves.exists_body {task : Task} {entered after : List String} {ps : List Member}
    (h : Resolves ds task entered (some ps) after) {p : Member} (hp : p ∈ ps) :
    p ∈ task.own ∨ ∃ d ∈ ds, ∃ body, Within d.node body ∧ p ∈ members body := by
  rcases h.originates guides_all trivial p hp with hown | ⟨-, -, owner, -, hlisted⟩
  · exact .inl hown
  · exact .inr (exists_body_of_mem_properties hlisted)

/-- The properties of a type are members of bodies in the type or in declarations. -/
theorem definition?_exists_body {type : Node} {i : Interface} (h : definition? ds type = some i)
    {p : Member} (hp : p ∈ i.properties) :
    (∃ body, Within type body ∧ p ∈ members body) ∨
      ∃ d ∈ ds, ∃ body, Within d.node body ∧ p ∈ members body := by
  -- the type names an interface, or it is resolved in place
  unfold definition? at h
  split at h
  · next i' hfirst =>
    cases h
    obtain ⟨name, -, hi⟩ := List.exists_of_findSome?_eq_some hfirst
    obtain ⟨properties, hvalue, rfl⟩ := Option.map_eq_some_iff.1 hi
    have hrun := @resolves_ofName ds [] name
    rw [hvalue] at hrun
    exact (hrun.exists_body hp).imp_left fun hown => by cases hown
  · obtain ⟨properties, hvalue, rfl⟩ := Option.map_eq_some_iff.1 h
    have hrun := @resolves_ofType ds [] type
    rw [hvalue] at hrun
    exact (hrun.exists_body hp).imp_left exists_body_of_mem_listed

/-! ### The comment of a member -/

/-- The documentation comment before a member, which says nothing if there is none. -/
def documentation (before : List Node) : Comment := (leadingComment? before).getD Comment.empty

theorem leadingComment?_eq_some {before : List Node} {c : Comment}
    (h : leadingComment? before = some c) : ∃ raw, c = Comment.parse raw := by
  induction before with
  | nil => cases h
  | cons n before ih =>
    unfold leadingComment? at h
    split at h
    · dsimp only at h
      split at h
      · cases h
        exact ⟨_, rfl⟩
      · exact ih h
    · exact ih h
    · cases h

/-- The documentation of a member is some parsed comment. -/
theorem documentation_eq_parse (before : List Node) :
    ∃ raw, documentation before = Comment.parse raw := by
  cases h : leadingComment? before with
  | none => exact ⟨[], by rw [documentation, h]; rfl⟩
  | some c =>
    obtain ⟨raw, rfl⟩ := leadingComment?_eq_some h
    exact ⟨raw, by rw [documentation, h]; rfl⟩

/-- A member shows its documentation without the default. -/
theorem comment_of_member? {before : List Node} {n : Node} {p : Member}
    (h : member? before n = some p) : p.comment = (documentation before).propertyText := by
  unfold member? at h
  split at h
  · cases h
    rfl
  · cases h

theorem isWord_deprecatedMarker : Comment.IsWord Comment.deprecatedMarker where
  ne_nil := by decide
  blank := by
    have hall : Comment.deprecatedMarker.all (fun c => !Text.isBlank c) = true := by decide
    simpa using hall

/-- A member is taken as deprecated exactly if the marker stands outside of its default tags. -/
theorem isDeprecated_iff {before : List Node} {n : Node} {p : Member}
    (h : member? before n = some p) :
    p.isDeprecated = true ↔
      (documentation before).HoldsOutside Comment.deprecatedMarker Comment.defaultTags := by
  rw [Member.isDeprecated, Comment.contains_iff, comment_of_member? h, Comment.propertyText,
    isWord_deprecatedMarker.infix_textWithout_iff]

end RefPages.Source

namespace RefPages.SourceFile

open Source Syntax

/-- A node stands, with the siblings before it, in a body of the file: in a declaration, or in the
type of a subject's argument. -/
def HasMember (f : SourceFile) (s : Subject) (before : List Node) (n : Node) : Prop :=
  ∃ outer body, (f.argumentType? s = some outer ∨ ∃ d ∈ f.declarations, d.node = outer) ∧
    Within outer body ∧ (before, n) ∈ body.placed

/-- Every property of the interface for a subject is a member in the file. -/
theorem exists_member_of_mem {f : SourceFile} {s : Subject} {i : Interface}
    (h : f.argument? s = some i) {p : Member} (hp : p ∈ i.properties) :
    ∃ before n, f.HasMember s before n ∧ member? before n = some p := by
  rw [argument?_eq] at h
  obtain ⟨type, htype, hi⟩ := Option.bind_eq_some_iff.1 h
  -- the body stands in the annotation itself or in a declaration of the file
  obtain ⟨outer, body, houter, hbody, hmem⟩ : ∃ outer body,
      (f.argumentType? s = some outer ∨ ∃ d ∈ f.declarations, d.node = outer) ∧
        Within outer body ∧ p ∈ members body := by
    rcases definition?_exists_body hi hp with ⟨body, hbody, hmem⟩ | ⟨d, hd, body, hbody, hmem⟩
    · exact ⟨type, body, .inl htype, hbody, hmem⟩
    · exact ⟨d.node, body, .inr ⟨d, hd, rfl⟩, hbody, hmem⟩
  obtain ⟨⟨before, n⟩, hplaced, hmember⟩ := List.mem_filterMap.1 hmem
  exact ⟨before, n, ⟨outer, body, houter, hbody, hplaced⟩, hmember⟩

end RefPages.SourceFile

namespace RefPages.Project

open Comment Page Source

theorem resolve_eq_ofInterface {argument? : Option Interface} {constructor? : Option Method}
    {i : Interface} (h : Parameters.resolve argument? constructor? = .ofInterface i) :
    argument? = some i := by
  cases argument? with
  | some j =>
    cases h
    rfl
  | none => cases constructor? <;> cases h

/-- The interface whose properties a page shows is the one of the subject's argument. -/
theorem argument?_of_referenceIn {o : Options} {e : Entry} {f : SourceFile} {r : Reference}
    {i : Interface} (hr : referenceIn o e f = .ok (some r)) (hi : r.parameters = .ofInterface i) :
    f.argument? e.subject = some i := by
  unfold referenceIn at hr
  split at hr
  · split at hr
    · cases hr
    · next comment _ =>
      obtain ⟨-, rfl⟩ : comment.isEmpty ≠ true ∧ referenceOf o e.subject f comment = r := by
        simpa using hr
      unfold referenceOf at hi
      dsimp only at hi
      split at hi <;> exact resolve_eq_ofInterface hi
  · cases hr

/-- **A property is hidden for what its comment says outside of default values.** A page has one
block for each property of an interface that is not deprecated, in their order, and then the blocks
of the methods. Every property is listed somewhere in the file, and wherever it is listed, it counts
as deprecated if and only if the comment there has the marker outside of default tags. The whole
text of the comment has it outside or inside of them. -/
theorem page_deprecated {o : Options} {e : Entry} {f : SourceFile} {r : Reference} {i : Interface}
    (hr : referenceIn o e f = .ok (some r)) (hi : r.parameters = .ofInterface i) :
    render e r o = Piece.joined (pieces e r o) ∧
    Piece.openings (pieces e r o) =
      (i.properties.filter fun p => !p.isDeprecated).map .ofMember ++
        r.methods.flatMap (fun m => .ofMethod m :: m.parameters.map .ofMember) ∧
    ∀ p ∈ i.properties,
      (∃ before n, f.HasMember e.subject before n ∧ member? before n = some p) ∧
      ∀ before n, member? before n = some p →
        (p.isDeprecated = true ↔
          (documentation before).HoldsOutside deprecatedMarker defaultTags) ∧
        (deprecatedMarker <:+: (documentation before).text.toList ↔
          (documentation before).HoldsOutside deprecatedMarker defaultTags ∨
          (documentation before).HoldsInside deprecatedMarker defaultTags) := by
  refine ⟨render_eq_joined e r o, ?_, fun p hp => ⟨?_, fun before n hmember => ⟨?_, ?_⟩⟩⟩
  · rw [openings_pieces, blocks, hi]
    rfl
  · exact SourceFile.exists_member_of_mem (argument?_of_referenceIn hr hi) hp
  · exact isDeprecated_iff hmember
  -- the equivalence holds of comments as they are read, which documentation is
  · obtain ⟨raw, hraw⟩ := documentation_eq_parse before
    rw [hraw]
    exact isWord_deprecatedMarker.infix_text_iff defaultTags raw

/-! ### Markers outside and inside of default values -/

namespace Marked

def source (comment : String) : String :=
  "interface O \x7b /** " ++ comment ++ " */ a?: 1; b?: 2 \x7d
/** Uses. */
function use(o: O) \x7b\x7d"

def entry : Entry := ⟨"a.ts", "a.md", ⟨.hook, "use"⟩, none⟩

/-- The options that the interface lists, if the page of the function shows them. -/
def options? (f : SourceFile) : Option (List Member) :=
  if f.declares entry.subject ∧ (f.comment? entry.subject).map Comment.isEmpty = some false ∧
      (f.argumentType? entry.subject).map candidates = some ["O"] then
    (meaning f.declarations "O").plainBody?.map members
  else none

theorem exists_reference {f : SourceFile} {ps : List Member} (h : options? f = some ps) :
    ∃ r, referenceIn {} entry f = .ok (some r) ∧
      r.parameters = .ofInterface ⟨"O", merge [] ps⟩ ∧ r.methods = [] := by
  obtain ⟨⟨hdeclares, hcomment, htype⟩, hbody⟩ := Option.ite_none_right_eq_some.1 h
  obtain ⟨body, hplain, rfl⟩ := Option.map_eq_some_iff.1 hbody
  obtain ⟨comment, hcomment, hempty⟩ := Option.map_eq_some_iff.1 hcomment
  have hargument : f.argument? entry.subject = some ⟨"O", merge [] (members body)⟩ :=
    SourceFile.argument?_of_candidates htype (interface?_of_plainBody hplain)
  refine ⟨referenceOf {} entry.subject f comment, ?_, ?_, rfl⟩
  · simp [referenceIn, hdeclares, hcomment, hempty]
  · show Parameters.resolve (f.argument? entry.subject) none = _
    rw [hargument]
    rfl

end Marked

open Marked

/-- With the marker as a tag of its own. -/
theorem page_deprecated_tag :
    ∃ f r, SourceFile.parse "a.ts" (source "@deprecated use b") = .ok f ∧
      referenceIn {} entry f = .ok (some r) ∧
      Piece.openings (pieces entry r {}) = [⟨"b", "2", false, none⟩] := by
  obtain ⟨f, hf, hoptions⟩ : ∃ f,
      SourceFile.parse "a.ts" (source "@deprecated use b") = .ok f ∧ options? f = some [
        ⟨"a", ⟨"1"⟩, "@deprecated use b", false, none⟩,
        ⟨"b", ⟨"2"⟩, "", false, none⟩] :=
    SourceFile.exists_of_parse (by decide +kernel)
  obtain ⟨r, hr, hi, hmethods⟩ := exists_reference hoptions
  obtain ⟨-, hopenings, -⟩ := page_deprecated hr hi
  refine ⟨f, r, hf, hr, ?_⟩
  rw [hopenings, hmethods]
  decide +kernel

/-- With the marker in the default value of the same property. -/
theorem page_deprecated_default :
    ∃ f r, SourceFile.parse "a.ts" (source "@default 1 (@deprecated)") = .ok f ∧
      referenceIn {} entry f = .ok (some r) ∧
      Piece.openings (pieces entry r {}) = [⟨"a", "1", false, some "1 (@deprecated)"⟩,
        ⟨"b", "2", false, none⟩] ∧
      ∃ d ∈ f.declarations, ∃ body ∈ d.node.field? .body, ∃ place ∈ body.placed,
        (member? place.1 place.2).map Attributes.ofMember =
          some ⟨"a", "1", false, some "1 (@deprecated)"⟩ ∧
        deprecatedMarker <:+: (documentation place.1).text.toList := by
  obtain ⟨f, hf, hoptions, hmember⟩ : ∃ f,
      SourceFile.parse "a.ts" (source "@default 1 (@deprecated)") = .ok f ∧ options? f = some [
        ⟨"a", ⟨"1"⟩, "", false, some "1 (@deprecated)"⟩,
        ⟨"b", ⟨"2"⟩, "", false, none⟩] ∧
      ∃ d ∈ f.declarations, ∃ body ∈ d.node.field? .body, ∃ place ∈ body.placed,
        (member? place.1 place.2).map Attributes.ofMember =
          some ⟨"a", "1", false, some "1 (@deprecated)"⟩ ∧
        deprecatedMarker <:+: (documentation place.1).text.toList :=
    SourceFile.exists_of_parse (by decide +kernel)
  obtain ⟨r, hr, hi, hmethods⟩ := exists_reference hoptions
  refine ⟨f, r, hf, hr, ?_, hmember⟩
  rw [openings_pieces, blocks, hi, hmethods]
  decide +kernel

end RefPages.Project
