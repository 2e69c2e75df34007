import RefPages.Proofs.Source.ThinnedFile

/-!
# Comments inside annotations and parentheses

An annotation, a type in parentheses and an expression in parentheses or with a cast stand for their
first child. Comments behind that child are passed over, wherever they stand. A comment before it is
taken for the child itself:

    a?: string /* text */            string
    a?: /* text */ string            /* text */
    ((o: Options) => 1 /* one */)    the function
    (/* one */ (o: Options) => 1)    no function
-/

namespace RefPages.Source

open Syntax

variable {ds : List Declaration} {n c : Node}

/-! ### Comments that stand first -/

/-- Behind a comment no function is found in parentheses. -/
theorem functionIn?_of_comment_first (hn : n.kind = .parenthesizedExpression ∨
    n.kind = .asExpression ∨ n.kind = .satisfiesExpression) (hfirst : n.named.head? = some c)
    (hc : c.kind = .comment) : functionIn? n = none := by
  have hinner : n.named.head?.bind functionIn? = none := by
    rw [hfirst]
    exact functionIn?_of_comment hc
  rw [functionIn?_eq]
  rcases hn with hn | hn | hn <;> rw [hn] <;> exact hinner

theorem ofType_of_comment (hc : c.kind = .comment) (entered : List String) :
    (ofType ds entered c).value = none :=
  (Resolves.of_comment (show Item.IsComment (.type c) from hc) (resolves_ofType entered c)).1

theorem definition?_of_comment (hc : c.kind = .comment) : definition? ds c = none := by
  rw [definition?, candidates_of_comment hc, ofType_of_comment hc]
  rfl

/-- Behind a comment a type in parentheses has no properties. -/
theorem ofType_of_comment_first (hn : n.kind = .parenthesizedType)
    (hfirst : n.named.head? = some c) (hc : c.kind = .comment) (entered : List String) :
    (ofType ds entered n).value = none := by
  have hinner : Resolves ds (.item (.type n)) entered (ofType ds entered c).value
      (ofType ds entered c).entered := .inner hn hfirst (resolves_ofType entered c)
  rw [((resolves_ofType entered n).deterministic hinner).1, ofType_of_comment hc]

end RefPages.Source

namespace RefPages.SourceFile

open Source Syntax

/-- **Comments are passed over behind what they stand in, and hide it before.** Where spare comments
are left out of a file, subjects are declared alike and their arguments have the same properties: a
value has the same function in it, and a parameter and a member have the same type. A comment that
stands first in parentheses or in a cast leaves no function and no properties there, and in an
annotation it is the type.

A comment further inside the type of an annotation, in parentheses or in an object type there, is
none of those that are left out: it is part of the text that is shown of the type. -/
theorem annotations_thinned {f g : SourceFile} (h : f.Thins g) :
    (∀ s, f.declares s = g.declares s ∧ f.argument? s = g.argument? s) ∧
    (∀ n m : Node, n.Thins m → Option.Rel Node.Thins (functionIn? n) (functionIn? m) ∧
      (∀ doc, parameter? doc n = parameter? doc m) ∧ memberType? n = memberType? m) ∧
    ∀ n c : Node, n.named.head? = some c → c.kind = .comment →
      ((n.kind = .parenthesizedExpression ∨ n.kind = .asExpression ∨
        n.kind = .satisfiesExpression) → functionIn? n = none) ∧
      ascribedText (some n) = TypeText.ofSource c.text ∧
      ∀ ds, (annotated? n).bind (definition? ds) = none ∧
        (n.kind = .parenthesizedType → ∀ entered, (ofType ds entered n).value = none) := by
  refine ⟨fun s => ⟨declares_thins h s, argument?_thins h s⟩, fun n m hnm => ⟨?_, ?_, ?_⟩, ?_⟩
  · exact functionIn?_thins hnm
  · exact fun doc => parameter?_thins doc hnm
  · exact memberType?_thins hnm
  -- a comment in front hides what stands behind it
  · intro n c hfirst hc
    have hannotated : annotated? n = some c := hfirst
    refine ⟨fun hn => functionIn?_of_comment_first hn hfirst hc, ?_, fun ds => ⟨?_, ?_⟩⟩
    · rw [ascribedText, Option.bind_some, hannotated]
    · rw [hannotated, Option.bind_some, definition?_of_comment hc]
    · exact fun hn => ofType_of_comment_first hn hfirst hc

/-! ### Comments behind a type and before it -/

namespace Annotated

def source (first behind : String) : String :=
  "interface O \x7b a?: " ++ first ++ "string \x7d
const use = (" ++ first ++ "(o: O) => 1" ++ behind ++ ")"

def subject : Subject := ⟨.hook, "use"⟩

def option (type : String) : Member := ⟨"a", ⟨type⟩, "", false, none⟩

def options? (f : SourceFile) : Option (List Member) :=
  (meaning f.declarations "O").plainBody?.map members

theorem interface?_of_options? {f : SourceFile} {type : String}
    (h : options? f = some [option type]) :
    f.interface? "O" = some ⟨"O", [option type]⟩ := by
  obtain ⟨body, hbody, hmembers⟩ := Option.map_eq_some_iff.1 h
  rw [interface?, interface?_of_plainBody hbody, hmembers]
  rfl

/-- A type with a comment before it. -/
def ascription : Node :=
  .mk .ascription (some .type) ": /* c */ string"
    [.leaf .comment "/* c */", .leaf .other "string"]

end Annotated

open Annotated

/-- With a comment behind the function, and in front of a type. -/
theorem annotations_thinned_behind :
    ∃ f g, SourceFile.parse "a.ts" (source "" " /* c */") = .ok f ∧
      SourceFile.parse "a.ts" (source "" "") = .ok g ∧ f.Thins g ∧
      f.argument? subject = some ⟨"O", [option "string"]⟩ ∧
      ascribedText (some ascription) = ⟨"/* c */"⟩ := by
  obtain ⟨f, g, hf, hg, h, htype, hoptions⟩ : ∃ f g,
      SourceFile.parse "a.ts" (source "" " /* c */") = .ok f ∧
      SourceFile.parse "a.ts" (source "" "") = .ok g ∧ f.Thins g ∧
      (g.argumentType? subject).map candidates = some ["O"] ∧
      options? g = some [option "string"] := exists_thins_of_parse (by decide +kernel)
  obtain ⟨hsubjects, -, hfirst⟩ := annotations_thinned h
  refine ⟨f, g, hf, hg, h, ?_, ?_⟩
  · rw [(hsubjects subject).2]
    exact argument?_of_candidates htype (interface?_of_options? hoptions)
  · obtain ⟨-, htext, -⟩ := hfirst ascription (.leaf .comment "/* c */") rfl rfl
    rw [htext]
    rfl

/-- With a comment before the function and before the type of the option. -/
theorem annotations_hidden :
    (∃ f, SourceFile.parse "a.ts" (source "/* c */ " "") = .ok f ∧
      f.argument? subject = none ∧
      f.interface? "O" = some ⟨"O", [option "/* c */"]⟩) ∧
    ∃ g, SourceFile.parse "a.ts" (source "" "") = .ok g ∧
      g.argument? subject = some ⟨"O", [option "string"]⟩ ∧
      g.interface? "O" = some ⟨"O", [option "string"]⟩ := by
  constructor
  · obtain ⟨f, hf, hargument, hoptions⟩ : ∃ f,
        SourceFile.parse "a.ts" (source "/* c */ " "") = .ok f ∧ f.argument? subject = none ∧
        options? f = some [option "/* c */"] := exists_of_parse (by decide +kernel)
    exact ⟨f, hf, hargument, interface?_of_options? hoptions⟩
  · obtain ⟨g, hg, htype, hoptions⟩ : ∃ g, SourceFile.parse "a.ts" (source "" "") = .ok g ∧
        (g.argumentType? subject).map candidates = some ["O"] ∧
        options? g = some [option "string"] := exists_of_parse (by decide +kernel)
    have hi := interface?_of_options? hoptions
    exact ⟨g, hg, argument?_of_candidates htype hi, hi⟩

end RefPages.SourceFile
