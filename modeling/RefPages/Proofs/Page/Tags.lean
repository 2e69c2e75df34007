import RefPages.Project.Extract
import RefPages.Proofs.Path

/-!
# Tags that can be read back

The opening tag of a block is read by cutting it at its double quotes. The attributes are then every
second piece:

    <PropertyReference name=" | a | " type=" | string | " required default=" | 'x' | ">

Types and defaults have their double quotes rewritten before they go into a tag, so they never cut
it. Names go in as they stand: a tag is read back if and only if its name has no double quote, and
computed keys are names that can have one.
-/

namespace RefPages.Page

/-! ### Rewritten values -/

/-- No double quote is left in a value that was rewritten. -/
theorem quote_not_mem_attributeValue (s : String) : '"' ∉ (attributeValue s).toList := by
  rw [attributeValue, String.toList_ofList, List.mem_map]
  rintro ⟨c, -, hc⟩
  split at hc
  · exact absurd hc (by decide)
  · next hne => exact hne hc

theorem attributeValue_of_quote_not_mem {s : String} (h : '"' ∉ s.toList) :
    attributeValue s = s := by
  have hmap : (s.toList.map fun c => if c = '"' then '\'' else c) = s.toList := by
    refine (List.map_congr_left fun c hc => if_neg ?_).trans (List.map_id' _)
    rintro rfl
    exact h hc
  rw [attributeValue, hmap, String.ofList_toList]

theorem attributeValue_attributeValue (s : String) :
    attributeValue (attributeValue s) = attributeValue s :=
  attributeValue_of_quote_not_mem (quote_not_mem_attributeValue s)

/-! ### Attributes and how they are read -/

/-- What the opening tag of a block says. -/
structure Attributes where
  name : String
  type : String
  required : Bool
  default? : Option String
deriving DecidableEq, Repr

namespace Attributes

/-- The tag with these attributes. -/
def tag (a : Attributes) : String := openTag a.name a.type a.required a.default?

def ofMember (m : Member) : Attributes :=
  ⟨m.name, attributeValue m.type.text, m.required, m.default?.map attributeValue⟩

def ofMethod (m : Method) : Attributes := ⟨m.name, attributeValue m.arguments, false, none⟩

/-- Read the pieces of a tag between its double quotes. -/
def ofPieces? : List String → Option Attributes
  | ["<PropertyReference name=", name, " type=", type, ">"] => some ⟨name, type, false, none⟩
  | ["<PropertyReference name=", name, " type=", type, " required>"] =>
    some ⟨name, type, true, none⟩
  | ["<PropertyReference name=", name, " type=", type, " default=", value, ">"] =>
    some ⟨name, type, false, some value⟩
  | ["<PropertyReference name=", name, " type=", type, " required default=", value, ">"] =>
    some ⟨name, type, true, some value⟩
  | _ => none

/-- Read a tag by cutting it at its double quotes. -/
def read? (tag : String) : Option Attributes :=
  ofPieces? ((Text.splitOn '"' tag.toList).map String.ofList)

def pieces (a : Attributes) : List String :=
  let flag := if a.required then " required" else ""
  "<PropertyReference name=" :: a.name :: " type=" :: a.type ::
    match a.default? with
    | none => [flag ++ ">"]
    | some value => [flag ++ " default=", value, ">"]

/-- Attributes are read back from the pieces that their tag should fall into. -/
theorem ofPieces?_pieces (a : Attributes) : ofPieces? a.pieces = some a := by
  obtain ⟨name, type, required, default?⟩ := a
  cases required <;> cases default? <;> rfl

theorem mem_of_ofPieces? {ps : List String} {a : Attributes} (h : ofPieces? ps = some a) :
    a.name ∈ ps ∧ a.type ∈ ps ∧ ∀ value, a.default? = some value → value ∈ ps := by
  unfold ofPieces? at h
  split at h <;> simp at h <;> subst h <;> simp

/-- No value that a tag is read as has a double quote. -/
theorem quote_not_mem_of_read? {tag : String} {a : Attributes} (h : read? tag = some a) :
    '"' ∉ a.name.toList := by
  obtain ⟨hname, -, -⟩ := mem_of_ofPieces? h
  obtain ⟨piece, hpiece, heq⟩ := List.mem_map.1 hname
  rw [← heq, String.toList_ofList]
  exact Text.not_mem_of_mem_splitOn piece hpiece

/-- Attributes with a type and a default that stand in a tag as they are. -/
structure Rewritten (a : Attributes) : Prop where
  type : '"' ∉ a.type.toList
  default? : ∀ value, a.default? = some value → '"' ∉ value.toList

theorem rewritten_ofMember (m : Member) : (ofMember m).Rewritten where
  type := quote_not_mem_attributeValue m.type.text
  default? := by
    intro value h
    obtain ⟨written, -, rfl⟩ := Option.map_eq_some_iff.1 h
    exact quote_not_mem_attributeValue written

theorem rewritten_ofMethod (m : Method) : (ofMethod m).Rewritten where
  type := quote_not_mem_attributeValue m.arguments
  default? := by
    intro value h
    cases h

/-- A tag is its pieces with double quotes between them. -/
theorem toList_tag {a : Attributes} (h : a.Rewritten) :
    a.tag.toList = ['"'].intercalate (a.pieces.map String.toList) := by
  obtain ⟨name, type, required, default?⟩ := a
  unfold tag openTag pieces
  cases default? with
  | none => cases required <;> simp
  | some value =>
    have hvalue : attributeValue value = value :=
      attributeValue_of_quote_not_mem (h.default? value rfl)
    cases required <;> simp [hvalue]

/-- If no double quote is in the name, none is in any piece. -/
theorem quote_not_mem_pieces {a : Attributes} (h : a.Rewritten) (hname : '"' ∉ a.name.toList) :
    ∀ piece ∈ a.pieces, '"' ∉ piece.toList := by
  obtain ⟨name, type, required, default?⟩ := a
  have htype : '"' ∉ type.toList := h.type
  cases default? with
  | none => cases required <;> simpa [pieces] using ⟨hname, htype⟩
  | some value =>
    have hvalue : '"' ∉ value.toList := h.default? value rfl
    cases required <;> simpa [pieces] using ⟨hname, htype, hvalue⟩

/-- A tag with a rewritten type and default is read back just if its name has no double quote. -/
theorem read?_tag_iff {a : Attributes} (h : a.Rewritten) :
    read? a.tag = some a ↔ '"' ∉ a.name.toList := by
  refine ⟨quote_not_mem_of_read?, fun hname => ?_⟩
  have hsplit : Text.splitOn '"' a.tag.toList = a.pieces.map String.toList := by
    rw [toList_tag h, Text.splitOn_eq]
    refine List.splitOn_intercalate '"' ?_ (by simp [pieces])
    simpa using quote_not_mem_pieces h hname
  rw [read?, hsplit, List.map_map]
  simpa [Function.comp_def] using ofPieces?_pieces a

end Attributes

/-- A default that was rewritten may be rewritten once more. -/
theorem openTag_map_attributeValue (name type : String) (required : Bool)
    (default? : Option String) :
    openTag name type required (default?.map attributeValue) =
      openTag name type required default? := by
  cases default? with
  | none => rfl
  | some value =>
    unfold openTag
    simp only [Option.map_some, attributeValue_attributeValue]

theorem memberTag_eq (m : Member) : memberTag m = (Attributes.ofMember m).tag :=
  (openTag_map_attributeValue m.name (attributeValue m.type.text) m.required m.default?).symm

/-! ### The tags of a page -/

/-- A page is made of opening tags and of the text between them. -/
inductive Piece where
  | text (s : String)
  | opening (a : Attributes)
deriving DecidableEq, Repr

namespace Piece

def written : Piece → String
  | .text s => s
  | .opening a => a.tag

def joined (ps : List Piece) : String := String.join (ps.map written)

/-- The attributes of the tags among several pieces. -/
def openings (ps : List Piece) : List Attributes :=
  ps.filterMap fun
    | .text _ => none
    | .opening a => some a

@[simp] theorem joined_nil : joined [] = "" := by simp [joined]

@[simp] theorem joined_text (s : String) (ps : List Piece) :
    joined (.text s :: ps) = s ++ joined ps := by simp [joined, written]

@[simp] theorem joined_opening (a : Attributes) (ps : List Piece) :
    joined (.opening a :: ps) = a.tag ++ joined ps := by simp [joined, written]

@[simp] theorem joined_append (ps qs : List Piece) :
    joined (ps ++ qs) = joined ps ++ joined qs := by simp [joined]

theorem joined_flatMap {α : Type} {block : α → String} {f : α → List Piece} (l : List α)
    (h : ∀ x, joined (f x) = block x) : joined (l.flatMap f) = String.join (l.map block) := by
  induction l with
  | nil => rfl
  | cons x l ih => rw [List.flatMap_cons, joined_append, h, ih, List.map_cons, String.join_cons]

@[simp] theorem openings_nil : openings [] = [] := rfl

@[simp] theorem openings_text (s : String) (ps : List Piece) :
    openings (.text s :: ps) = openings ps := rfl

@[simp] theorem openings_opening (a : Attributes) (ps : List Piece) :
    openings (.opening a :: ps) = a :: openings ps := rfl

@[simp] theorem openings_append (ps qs : List Piece) :
    openings (ps ++ qs) = openings ps ++ openings qs := List.filterMap_append

theorem openings_flatMap {α : Type} {f : α → List Piece} {g : α → List Attributes} (l : List α)
    (h : ∀ x, openings (f x) = g x) : openings (l.flatMap f) = l.flatMap g := by
  induction l with
  | nil => rfl
  | cons x l ih => rw [List.flatMap_cons, openings_append, h, ih, List.flatMap_cons]

end Piece

def propertyPieces (m : Member) : List Piece :=
  [.opening (.ofMember m), .text ("\n" ++ m.comment ++ "\n" ++ closeTag ++ "\n\n")]

def parameterPieces (indent : String) (m : Member) : List Piece :=
  [.text indent, .opening (.ofMember m),
    .text ("\n" ++ indentLines indent m.comment ++ "\n" ++ indent ++ closeTag ++ "\n\n")]

def methodPieces (m : Method) : List Piece :=
  .opening (.ofMethod m) :: .text ("\n" ++ m.comment ++ "\n\n") ::
    (m.parameters.flatMap (parameterPieces nestedIndent) ++ [.text (closeTag ++ "\n\n")])

def parametersPieces : Parameters → List Piece
  | .ofInterface i => (i.properties.filter fun p => !p.isDeprecated).flatMap propertyPieces
  | .ofConstructor c =>
    .text ("## " ++ c.signature ++ "\n\n" ++ c.comment ++ "\n\n") ::
      c.parameters.flatMap (parameterPieces "")
  | .none => []

def pieces (e : Entry) (r : Reference) (o : Options) : List Piece :=
  .text (FrontMatter.render e ++ banner o.bannerPrefix e.sourcePath ++ r.comment ++ "\n\n" ++
    "## " ++ e.subject.kind.heading ++ "\n\n") ::
    (parametersPieces r.parameters ++ r.methods.flatMap methodPieces)

theorem joined_propertyPieces (m : Member) : Piece.joined (propertyPieces m) = propertyBlock m := by
  simp [propertyPieces, propertyBlock, memberTag_eq, String.append_assoc]

theorem joined_parameterPieces (indent : String) (m : Member) :
    Piece.joined (parameterPieces indent m) = parameterBlock indent m := by
  simp [parameterPieces, parameterBlock, memberTag_eq, String.append_assoc]

theorem joined_methodPieces (m : Method) : Piece.joined (methodPieces m) = methodBlock m := by
  simp [methodPieces, methodBlock, Attributes.ofMethod, Attributes.tag, String.append_assoc,
    Piece.joined_flatMap m.parameters (joined_parameterPieces nestedIndent)]

theorem joined_parametersPieces (p : Parameters) :
    Piece.joined (parametersPieces p) = parametersSection p := by
  cases p with
  | ofInterface i => exact Piece.joined_flatMap _ joined_propertyPieces
  | ofConstructor c =>
    rw [parametersPieces, Piece.joined_text, parametersSection,
      Piece.joined_flatMap _ (joined_parameterPieces "")]
  | none => rfl

/-- A page is what its pieces are joined to. -/
theorem render_eq_joined (e : Entry) (r : Reference) (o : Options) :
    render e r o = Piece.joined (pieces e r o) := by
  simp [render, pieces, joined_parametersPieces, String.append_assoc,
    Piece.joined_flatMap r.methods joined_methodPieces]

/-- The members in a section of parameters. -/
def listed : Parameters → List Member
  | .ofInterface i => i.properties.filter fun p => !p.isDeprecated
  | .ofConstructor c => c.parameters
  | .none => []

/-- What a page has blocks for: the properties or parameters of its subject, and each method before
its own parameters. -/
def blocks (r : Reference) : List Attributes :=
  (listed r.parameters).map .ofMember ++
    r.methods.flatMap fun m => .ofMethod m :: m.parameters.map .ofMember

theorem openings_memberPieces {f : Member → List Piece}
    (h : ∀ m, Piece.openings (f m) = [.ofMember m]) (ms : List Member) :
    Piece.openings (ms.flatMap f) = ms.map .ofMember := by
  rw [Piece.openings_flatMap ms h, ← List.map_eq_flatMap]

theorem openings_parameterPieces (indent : String) (m : Member) :
    Piece.openings (parameterPieces indent m) = [.ofMember m] := rfl

theorem openings_methodPieces (m : Method) :
    Piece.openings (methodPieces m) = .ofMethod m :: m.parameters.map .ofMember := by
  simp [methodPieces, openings_memberPieces (openings_parameterPieces nestedIndent)]

theorem openings_parametersPieces (p : Parameters) :
    Piece.openings (parametersPieces p) = (listed p).map .ofMember := by
  cases p with
  | ofInterface i => exact openings_memberPieces (fun m => rfl) _
  | ofConstructor c => exact openings_memberPieces (openings_parameterPieces "") c.parameters
  | none => rfl

/-- The opening tags among the pieces of a page are those of its blocks, in order. -/
theorem openings_pieces (e : Entry) (r : Reference) (o : Options) :
    Piece.openings (pieces e r o) = blocks r := by
  rw [pieces, Piece.openings_text, Piece.openings_append, openings_parametersPieces,
    Piece.openings_flatMap r.methods openings_methodPieces, blocks]

/-- The types and defaults of all blocks are rewritten. -/
theorem rewritten_of_mem_blocks {r : Reference} {a : Attributes} (h : a ∈ blocks r) :
    a.Rewritten := by
  simp only [blocks, List.mem_append, List.mem_flatMap, List.mem_cons, List.mem_map] at h
  rcases h with ⟨m, -, rfl⟩ | ⟨m, -, rfl | ⟨p, -, rfl⟩⟩
  · exact Attributes.rewritten_ofMember m
  · exact Attributes.rewritten_ofMethod m
  · exact Attributes.rewritten_ofMember p

end RefPages.Page

namespace RefPages.Project

open Page

/-- A page is made of the blocks of all that it shows. The types and defaults in their tags are
rewritten, and a tag says what it was made from if and only if its name has no double quote. -/
theorem page_tags [SourceFile.ErrorPlaces] {d : Disk} {o : Options} {e : Entry} {text : String}
    (h : page d o e = .ok (some text)) :
    ∃ r, extract d o e = .ok (some r) ∧ text = Piece.joined (pieces e r o) ∧
      Piece.openings (pieces e r o) = blocks r ∧
      ∀ a ∈ blocks r, a.Rewritten ∧ (Attributes.read? a.tag = some a ↔ '"' ∉ a.name.toList) := by
  cases hr : extract d o e with
  | error failure => simp [page, pageOf, hr] at h
  | ok r? =>
    cases r? with
    | none => simp [page, pageOf, hr] at h
    | some r =>
      have htext : render e r o = text := by simpa [page, pageOf, hr] using h
      refine ⟨r, rfl, ?_, openings_pieces e r o, fun a ha => ?_⟩
      · rw [← htext, render_eq_joined]
      · have hrewritten := rewritten_of_mem_blocks ha
        exact ⟨hrewritten, Attributes.read?_tag_iff hrewritten⟩

/-! ### Names with and without quotes -/

namespace Quotes

def disk (source : String) : Disk where
  items := [(["project"], .folder), (["project", "a.ts"], .file source.toUTF8)]
  cwd := ["project"]

def entry : Entry := ⟨"a.ts", "page.md", ⟨.classKind, "Shape"⟩, none⟩

/-- Quotes in a type and in a default. -/
def plain : String :=
  "/** Shapes. */
class Shape \x7b
  constructor(kind = \"flat\", other: \"round\" | \"flat\") \x7b\x7d
  resize(by: number) \x7b\x7d
\x7d
"

/-- Quotes in the names of a parameter, a method and one of its own parameters. -/
def quoted : String :=
  "/** Shapes. */
class Shape \x7b
  constructor(\x7b kind = \"flat\" \x7d) \x7b\x7d
  [\"resize\"](\x7b by = \"1\" \x7d) \x7b\x7d
\x7d
"

/-- The blocks on the page of the class. -/
def shown (source : String) : Option (List Attributes) :=
  (extract (disk source) {} entry).toOption.join.map blocks

/-- The blocks that a class shows are those of the page of its entry. -/
theorem extract_of_shown {source : String} {as : List Attributes} (h : shown source = some as) :
    ∃ r, extract (disk source) {} entry = .ok (some r) ∧ blocks r = as := by
  obtain ⟨r, hr, hblocks⟩ := Option.map_eq_some_iff.1 h
  refine ⟨r, ?_, hblocks⟩
  cases hx : extract (disk source) {} entry with
  | error failure => simp [hx, Except.toOption] at hr
  | ok r? => simpa [hx, Except.toOption] using hr

end Quotes

theorem page_tags_plain :
    ∃ text r, page (Quotes.disk Quotes.plain) {} Quotes.entry = .ok (some text) ∧
      extract (Quotes.disk Quotes.plain) {} Quotes.entry = .ok (some r) ∧
      blocks r = [⟨"kind", "any", false, some "'flat'"⟩,
        ⟨"other", "'round' | 'flat'", true, none⟩,
        ⟨"resize", "by: number", false, none⟩, ⟨"by", "number", true, none⟩] ∧
      ∀ a ∈ blocks r, Attributes.read? a.tag = some a := by
  have hshown : Quotes.shown Quotes.plain = some [⟨"kind", "any", false, some "'flat'"⟩,
      ⟨"other", "'round' | 'flat'", true, none⟩,
      ⟨"resize", "by: number", false, none⟩, ⟨"by", "number", true, none⟩] := by
    decide +kernel
  obtain ⟨r, hextract, hblocks⟩ := Quotes.extract_of_shown hshown
  have hpage : page (Quotes.disk Quotes.plain) {} Quotes.entry =
      .ok (some (render Quotes.entry r {})) := by
    rw [page, hextract]
    rfl
  obtain ⟨r', hr', -, -, htags⟩ := page_tags hpage
  obtain rfl : r' = r := by simpa [hextract] using hr'.symm
  refine ⟨_, r', hpage, hextract, hblocks, fun a ha => (htags a ha).2.2 ?_⟩
  rw [hblocks] at ha
  revert a
  decide +kernel

/-- None of the tags on this page can be read. -/
theorem page_tags_quoted :
    ∃ r, extract (Quotes.disk Quotes.quoted) {} Quotes.entry = .ok (some r) ∧
      blocks r = [⟨"\x7b kind = \"flat\" \x7d", "any", true, none⟩,
        ⟨"[\"resize\"]", "\x7b by = '1' \x7d: any", false, none⟩,
        ⟨"\x7b by = \"1\" \x7d", "any", true, none⟩] ∧
      ∀ a ∈ blocks r, Attributes.read? a.tag = none := by
  have hshown : Quotes.shown Quotes.quoted = some [
      ⟨"\x7b kind = \"flat\" \x7d", "any", true, none⟩,
      ⟨"[\"resize\"]", "\x7b by = '1' \x7d: any", false, none⟩,
      ⟨"\x7b by = \"1\" \x7d", "any", true, none⟩] := by
    decide +kernel
  obtain ⟨r, hextract, hblocks⟩ := Quotes.extract_of_shown hshown
  refine ⟨r, hextract, hblocks, ?_⟩
  rw [hblocks]
  decide +kernel

end RefPages.Project
