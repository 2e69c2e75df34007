import RefPages.Page.Basic
import RefPages.Proofs.Syntax.Outlook
import RefPages.Source.File

/-!
# No page is a source file

A page starts with its front matter, and read as a source file that is an expression which stops at
a colon:

    ---⏎title: …      ──▶     -- (- title)  and then  :

Nothing that goes on after an expression starts with a colon, and no statement ends before one. So
a page that was written over a source file leaves no source file there.
-/

namespace RefPages.Page

open Syntax Syntax.Form Syntax.Grammar

/-! ### Openings of the front matter -/

def dashes : Opening := ⟨"---\ntitle:".toList, by decide, by decide⟩

def lastDash : Opening := ⟨"-\ntitle:".toList, by decide, by decide⟩

def titleKey : Opening := ⟨"title:".toList, by decide, by decide⟩

def colon : Opening := ⟨":".toList, by decide, by decide⟩

/-- Every page starts with dashes and then the key of its title. -/
theorem faces_render (e : Entry) (r : Reference) (o : Options) :
    dashes.Faces (render e r o).toList := by
  have hfront : ∃ rest, (render e r o).toList =
      "---\n".toList ++ ("title".toList ++ (": \"".toList ++ rest)) := by
    simp only [render, FrontMatter.render, FrontMatter.keyLine, String.toList_append,
      List.append_assoc]
    exact ⟨_, rfl⟩
  obtain ⟨rest, hrest⟩ := hfront
  rw [hrest]
  exact Opening.faces_of_chars ⟨' ' :: '"' :: rest, rfl⟩

/-! ### From the dashes to the colon -/

section Readings

variable {dialect : Dialect} {o o' : Opening}

/-- Does the form fit nowhere where the opening is ahead? The rules of the grammar are opened deep
enough to see the first lexemes of all forms below. -/
def refuses (dialect : Dialect) (o : Opening) (form : Form Rule) : Bool :=
  outlook (grammar dialect) o 40 form == .fails

/-- A form that refuses what is ahead leads to anything. -/
theorem leads_of_refuses {form : Form Rule} {Q : List Char → Prop}
    (h : refuses dialect o form = true) : Leads (grammar dialect) o.Faces form Q :=
  Leads.of_fails (fails_of_outlook 40 (beq_iff_eq.1 h))

theorem leads_of_all_refuse {forms : List (Form Rule)} {Q : List Char → Prop}
    (h : forms.all (refuses dialect o) = true) :
    ∀ form ∈ forms, Leads (grammar dialect) o.Faces form Q := by
  intro form hform
  exact leads_of_refuses (List.all_eq_true.1 h form hform)

/-- One lemma for each rule on the way to a statement: read at the front of a page, it ends before
the colon behind the title's key. -/
theorem leads_valueName : Leads (grammar dialect) titleKey.Faces valueName colon.Faces := by
  apply Leads.leaf
  intro cs n hcs hn
  have hlength : n = 5 := (Opening.eq_nameLength hcs hn).trans (by decide)
  obtain ⟨rest, rfl⟩ := hcs
  rw [hlength]
  exact Opening.faces_of_chars ⟨rest, rfl⟩

/-- The key is no arrow function: no arrow follows it. -/
theorem fails_arrow : Fails (grammar dialect) titleKey.Faces (.rule .arrow) := by
  apply Leads.rule
  apply Leads.choice
  · exact leads_of_refuses (by cases dialect <;> rfl)
  · apply Leads.node
    refine Leads.seq ?_ leads_of_false
    apply Leads.choice
    · refine Leads.seq (Leads.field leads_valueName) ?_
      exact leads_of_refuses (by cases dialect <;> rfl)
    · exact leads_of_refuses (by cases dialect <;> rfl)

theorem leads_primary : Leads (grammar dialect) titleKey.Faces (.rule .primary) colon.Faces := by
  apply Leads.rule
  apply Leads.any
  · rw [List.forall_mem_cons]
    refine ⟨Leads.of_fails fails_arrow, leads_of_all_refuse ?_⟩
    cases dialect <;> rfl
  · exact leads_valueName

theorem leads_operand : Leads (grammar dialect) titleKey.Faces (.rule .operand) colon.Faces := by
  apply Leads.rule
  refine Leads.chain leads_primary ?_
  exact leads_of_refuses (by cases dialect <;> rfl)

theorem leads_unary_titleKey :
    Leads (grammar dialect) titleKey.Faces (.rule .unary) colon.Faces := by
  apply Leads.rule
  refine Leads.any (leads_of_all_refuse ?_) leads_operand
  cases dialect <;> rfl

def signs : Lexeme := .operator ["!", "~", "+", "-", "++", "--"]

/-- A sign whose length is known leads from one opening to the next. -/
theorem leads_sign {n : Nat} (hlength : ∀ rest, signs.length? (o.chars ++ rest) = some n)
    (hnext : ∀ rest, o'.Faces ((o.chars ++ rest).drop n)) :
    Leads (grammar dialect) o.Faces (.token signs) o'.Faces := by
  apply Leads.token
  rintro cs m ⟨rest, rfl⟩ hm
  rw [hlength] at hm
  cases hm
  exact hnext rest

theorem leads_unary_lastDash :
    Leads (grammar dialect) lastDash.Faces (.rule .unary) colon.Faces := by
  apply Leads.rule
  apply Leads.choice
  · apply Leads.node
    -- the line end before the key is passed as a blank
    exact Leads.seq (leads_sign (fun _ => rfl) fun rest => ⟨rest, rfl⟩) leads_unary_titleKey
  · exact leads_of_refuses (by cases dialect <;> rfl)

theorem leads_unary_dashes :
    Leads (grammar dialect) dashes.Faces (.rule .unary) colon.Faces := by
  apply Leads.rule
  apply Leads.choice
  · apply Leads.node
    exact Leads.seq (leads_sign (fun _ => rfl) fun rest => ⟨rest, rfl⟩) leads_unary_lastDash
  · exact leads_of_refuses (by cases dialect <;> rfl)

theorem leads_expressions :
    Leads (grammar dialect) dashes.Faces (.rule .expressions) colon.Faces := by
  have hoperation : Leads (grammar dialect) dashes.Faces (.rule .operation) colon.Faces := by
    apply Leads.rule
    refine Leads.chain leads_unary_dashes ?_
    exact leads_of_refuses (by cases dialect <;> rfl)
  have hexpression : Leads (grammar dialect) dashes.Faces (.rule .expression) colon.Faces := by
    apply Leads.rule
    refine Leads.chain hoperation ?_
    exact leads_of_refuses (by cases dialect <;> rfl)
  apply Leads.rule
  refine Leads.chain hexpression ?_
  exact leads_of_refuses (by cases dialect <;> rfl)

/-- No statement ends before the colon. -/
theorem fails_semicolon (tail : Tail) :
    Fails (grammar dialect) colon.Faces (.semicolon tail) := by
  apply Leads.semicolon
  · intro cs hcs hends
    have hopen : endsHere tail cs = false := by
      apply Opening.endsHere_eq_false hcs
      · rfl
      · intro rest
        rfl
    rw [hopen] at hends
    cases hends
  · exact leads_of_refuses (by cases dialect <;> rfl)

/-- No statement can stand at the front of a page: it would have to end before a colon. -/
theorem fails_statement : Fails (grammar dialect) dashes.Faces (.rule .statement) := by
  apply Leads.rule
  apply Leads.any
  · apply leads_of_all_refuse
    cases dialect <;> rfl
  · apply Leads.node
    refine Leads.seq (Leads.of_looks rfl) ?_
    refine Leads.seq (Leads.of_looks rfl) ?_
    refine Leads.seq leads_expressions ?_
    exact Leads.seq (fails_semicolon .expression) leads_of_false

/-- A page is no source file. -/
theorem fails_program : Fails (grammar dialect) dashes.Faces (.rule .program) := by
  have hhashBang : Leads (grammar dialect) dashes.Faces (opt (.token .hashBang)) dashes.Faces := by
    apply Leads.choice
    · exact leads_of_refuses (by cases dialect <;> rfl)
    · exact Leads.of_looks rfl
  apply Leads.rule
  refine Leads.seq hhashBang ?_
  refine Leads.seq (Leads.many (Leads.of_fails fails_statement)) ?_
  exact Leads.seq Leads.endOfFile leads_of_false

end Readings

/-- **No page is a source file.** Whatever it shows, it cannot be read in any dialect. -/
theorem parse?_render (dialect : Dialect) (e : Entry) (r : Reference) (o : Options) :
    parse? dialect (render e r o) = none := by
  unfold parse? parseBy
  rw [Option.map_eq_none_iff, Option.map_eq_none_iff]
  apply Option.eq_none_iff_forall_ne_some.2
  rintro ⟨xs, d⟩ hrun
  refine fails_program _ _ _ xs d ?_ hrun
  rw [Cursor.rest_start]
  exact faces_render e r o

end RefPages.Page
