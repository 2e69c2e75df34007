import RefPages.Proofs.Syntax.Opening

/-!
# What a form leads to

A triple `Leads grammar P form Q` says what is ahead after a form: where the text ahead has `P` and
the form fits, the text after it has `Q`. There is one rule for each kind of form, and a form that
leads to nothing fails.

At most places most forms fail, and the next lexeme tells. `Form.outlook` computes it from an
opening, by looking at the lexemes that a form can start with:

    outlook (word "if" …)       at "title:"   fails
    outlook (opt (sym "<") …)   at "title:"   goes on behind the option, which takes nothing

and `leads_outlook` makes a triple of it.
-/

namespace RefPages.Syntax

/-! ### Readings -/

namespace Form

variable {ρ : Type} {grammar : ρ → Form ρ} {P Q R : List Char → Prop} {o : Opening}

-- the equations of `run` are derived here, once for all rules
attribute [local simp] run run.steps

/-- Where the text ahead has the first property and the form fits, the text after it has the
second. -/
def Leads (grammar : ρ → Form ρ) (P : List Char → Prop) (form : Form ρ) (Q : List Char → Prop) :
    Prop :=
  ∀ limit context c xs d, P c.rest → run grammar limit context form c = some (xs, d) → Q d.rest

/-- The form fits nowhere where the text ahead has the property. -/
def Fails (grammar : ρ → Form ρ) (P : List Char → Prop) (form : Form ρ) : Prop :=
  Leads grammar P form fun _ => False

/-- Does the form only look at its place? -/
def looks : Form ρ → Bool
  | .empty | .peek _ | .unless _ | .after _ | .ifTypedArrows | .unbroken _ => true
  | _ => false

namespace Leads

variable {form first second : Form ρ}

theorem mono (h : Leads grammar P form Q) (hpost : ∀ cs, Q cs → R cs) :
    Leads grammar P form R := by
  intro limit context c xs d hc hrun
  exact hpost d.rest (h limit context c xs d hc hrun)

/-- A form that fails leads to anything. The rules below follow the constructors of forms. -/
theorem of_fails (h : Fails grammar P form) : Leads grammar P form Q :=
  h.mono fun _ hfalse => hfalse.elim

/-- Without any limit left, nothing is read. -/
theorem of_succ
    (h : ∀ limit context c xs d, P c.rest →
      run grammar (limit + 1) context form c = some (xs, d) → Q d.rest) :
    Leads grammar P form Q := by
  intro limit context c xs d hc hrun
  cases limit with
  | zero => cases hrun
  | succ limit => exact h limit context c xs d hc hrun

/-- A form that only looks at its place takes nothing. -/
theorem of_looks (h : form.looks = true) : Leads grammar P form P := by
  apply of_succ
  intro limit context c xs d hc hrun
  have hd : d = c := by
    cases form <;> cases h
    all_goals
      simp only [run] at hrun
      first | split at hrun | skip
      all_goals cases hrun
      all_goals rfl
  rwa [hd]

/-- A token leads to what holds behind every length that it may have. -/
theorem token {l : Lexeme} (h : ∀ cs n, o.chars <+: cs → l.length? cs = some n → Q (cs.drop n)) :
    Leads grammar o.Faces (.token l) Q := by
  apply of_succ
  intro limit context c xs d hc hrun
  obtain ⟨n, hn, hd⟩ := Option.map_eq_some_iff.1 hrun
  cases hd
  exact h c.skip.2.rest n (Opening.chars_skip hc) hn

theorem leaf {kind : Kind} {l : Lexeme}
    (h : ∀ cs n, o.chars <+: cs → l.length? cs = some n → Q (cs.drop n)) :
    Leads grammar o.Faces (.leaf kind l) Q := by
  apply of_succ
  intro limit context c xs d hc hrun
  obtain ⟨n, hn, hd⟩ := Option.map_eq_some_iff.1 hrun
  cases hd
  exact h c.skip.2.rest n (Opening.chars_skip hc) hn

theorem rule {r : ρ} (h : Leads grammar P (grammar r) Q) : Leads grammar P (.rule r) Q := by
  apply of_succ
  intro limit context c xs d hc hrun
  exact h limit context c xs d hc hrun

/-- Of two forms in a row the second starts from what the first leads to. -/
theorem seq (hfirst : Leads grammar P first Q) (hsecond : Leads grammar Q second R) :
    Leads grammar P (.seq first second) R := by
  apply of_succ
  intro limit context c zs e hc hrun
  rw [run] at hrun
  split at hrun
  · cases hrun
  · next xs d hd =>
    split at hrun
    · cases hrun
    · next ys e' he =>
      cases hrun
      exact hsecond limit context d ys e (hfirst limit context c xs d hc hd) he

/-- A choice leads to what both of its forms lead to. -/
theorem choice (hfirst : Leads grammar P first Q) (hsecond : Leads grammar P second Q) :
    Leads grammar P (.choice first second) Q := by
  apply of_succ
  intro limit context c xs d hc hrun
  rw [run] at hrun
  split at hrun
  · next hd =>
    cases hrun
    exact hfirst limit context c xs d hc hd
  · exact hsecond limit context c xs d hc hrun

theorem any {forms : List (Form ρ)} {last : Form ρ}
    (hforms : ∀ form ∈ forms, Leads grammar P form Q) (hlast : Leads grammar P last Q) :
    Leads grammar P (Form.any forms last) Q := by
  induction forms with
  | nil => exact hlast
  | cons form forms ih =>
    rw [List.forall_mem_cons] at hforms
    exact choice hforms.1 (ih hforms.2)

/-- What one item keeps, many items keep. -/
theorem many (h : Leads grammar P form P) : Leads grammar P (.many form) P := by
  intro limit
  -- the limit is what a repeated form recurses on
  induction limit with
  | zero =>
    intro context c xs d hc hrun
    cases hrun
  | succ limit ih =>
    intro context c zs e hc hrun
    rw [run] at hrun
    split at hrun
    · cases hrun
      exact hc
    · next xs d hd =>
      have hnext : P d.rest := h limit context c xs d hc hd
      split at hrun
      · cases hrun
        exact hnext
      · split at hrun
        · cases hrun
        · next ys e' he =>
          cases hrun
          exact ih context d ys e hnext he

theorem node {kind : Kind} (h : Leads grammar o.Faces form Q) :
    Leads grammar o.Faces (.node kind form) Q := by
  apply of_succ
  intro limit context c ys e hc hrun
  simp only [run] at hrun
  split at hrun
  · cases hrun
  · next xs e' he =>
    cases hrun
    exact h limit context c.skip.2 xs e (Opening.faces_skip hc) he

theorem field {role : Field} (h : Leads grammar P form Q) :
    Leads grammar P (.field role form) Q := by
  apply of_succ
  intro limit context c ys e hc hrun
  rw [run] at hrun
  split at hrun
  · cases hrun
  · next xs e' he =>
    cases hrun
    exact h limit context c xs e hc he

/-- Steps that keep a property keep it however often they are taken. -/
theorem steps {step : Form ρ} (h : Leads grammar Q step Q) {limit : Nat} {context : Context}
    {start c d : Cursor} {left ys : List Node} (hc : Q c.rest)
    (hrun : run.steps grammar limit context step start left c = some (ys, d)) : Q d.rest := by
  induction limit generalizing c left with
  | zero => cases hrun
  | succ limit ih =>
    simp only [run.steps] at hrun
    split at hrun
    · cases hrun
      exact hc
    · next xs e he => exact ih (h limit _ c xs e hc he) hrun

/-- What the head leads to and a step keeps, the chain leads to. -/
theorem chain {head step : Form ρ} (hhead : Leads grammar o.Faces head Q)
    (hstep : Leads grammar Q step Q) : Leads grammar o.Faces (.chain head step) Q := by
  apply of_succ
  intro limit context c ys f hc hrun
  simp only [run] at hrun
  split at hrun
  · cases hrun
  · next xs e he =>
    split at hrun
    · cases hrun
    · next zs f' hf =>
      cases hrun
      -- the head sees the cursor behind the blanks, and each step leads from `Q` to `Q`
      exact steps hstep (hhead limit context c.skip.2 xs e (Opening.faces_skip hc) he) hf

theorem bracketed {inside : Bool} (h : Leads grammar P form Q) :
    Leads grammar P (.bracketed inside form) Q := by
  apply of_succ
  intro limit context c xs d hc hrun
  exact h limit _ c xs d hc hrun

theorem untypedArrows (h : Leads grammar P form Q) :
    Leads grammar P (.untypedArrows form) Q := by
  apply of_succ
  intro limit context c xs d hc hrun
  exact h limit _ c xs d hc hrun

theorem semicolon {tail : Tail} (hhere : ∀ cs, o.Faces cs → endsHere tail cs = true → Q cs)
    (hsign : Leads grammar o.Faces (sym ";") Q) : Leads grammar o.Faces (.semicolon tail) Q := by
  apply of_succ
  intro limit context c xs d hc hrun
  rw [run] at hrun
  split at hrun
  · next r hend =>
    cases hrun
    obtain ⟨hends, rfl⟩ := Opening.eq_of_end? hc hend
    exact hhere d.rest hc hends
  · exact hsign limit context c xs d hc hrun

theorem softEnd : Leads grammar o.Faces .softEnd o.Faces := by
  apply of_succ
  intro limit context c xs d hc hrun
  rw [run] at hrun
  cases hend : c.end? .plain with
  | none =>
    simp only [hend] at hrun
    cases hrun
    exact hc
  | some r =>
    simp only [hend] at hrun
    cases hrun
    have hd : d = c := (Opening.eq_of_end? hc hend).2
    rwa [hd]

/-- Where an opening is faced, the file does not end. -/
theorem endOfFile : Fails grammar o.Faces .endOfFile := by
  apply of_succ
  intro limit context c xs d hc hrun
  simp only [run] at hrun
  split at hrun
  · next hempty =>
    obtain ⟨_, _, hrest, -⟩ := Opening.eq_cons_of_chars (Opening.chars_skip hc)
    simp [hrest] at hempty
  · cases hrun

end Leads

theorem fails_peek {form : Form ρ} (h : Fails grammar P form) : Fails grammar P (.peek form) := by
  apply Leads.of_succ
  intro limit context c xs d hc hrun
  rw [run] at hrun
  split at hrun
  · cases hrun
  · next r hr => exact h limit context c r.1 r.2 hc hr

/-! ### Outlooks -/

/-- What the next characters tell about a form. -/
inductive Outlook where
  /-- It does not fit. -/
  | fails
  /-- If it fits, it takes at most blanks. -/
  | stays
  /-- It may take more. -/
  | unknown
deriving DecidableEq, Repr

namespace Outlook

def andThen : Outlook → Outlook → Outlook
  | .fails, _ => .fails
  | .stays, second => second
  | .unknown, _ => .unknown

def orElse : Outlook → Outlook → Outlook
  | .fails, second => second
  | .stays, .unknown => .unknown
  | .stays, _ => .stays
  | .unknown, _ => .unknown

/-- What can be ahead after the form. -/
def After (o : Opening) : Outlook → List Char → Prop
  | .fails, _ => False
  | .stays, cs => o.Faces cs
  | .unknown, _ => True

variable {cs : List Char} {v w : Outlook}

theorem After.orElse_left (h : v.After o cs) : (v.orElse w).After o cs := by
  cases v <;> cases w <;> simp_all [orElse, After]

theorem After.orElse_right (h : w.After o cs) : (v.orElse w).After o cs := by
  cases v <;> cases w <;> simp_all [orElse, After]

end Outlook

/-- What an opening tells about a form, with rules opened up to the given depth. -/
def outlook (grammar : ρ → Form ρ) (o : Opening) : Nat → Form ρ → Outlook
  | 0, _ => .unknown
  | depth + 1, form =>
    match form with
    | .token l | .leaf _ l => if o.admits l then .unknown else .fails
    | .glued _ => .unknown
    | .rule r => outlook grammar o depth (grammar r)
    | .seq first second => (outlook grammar o depth first).andThen (outlook grammar o depth second)
    | .choice first second =>
      (outlook grammar o depth first).orElse (outlook grammar o depth second)
    | .many item => (outlook grammar o depth item).orElse .stays
    | .node _ body | .field _ body | .bracketed _ body | .untypedArrows body =>
      outlook grammar o depth body
    | .chain head step =>
      (outlook grammar o depth head).andThen ((outlook grammar o depth step).orElse .stays)
    | .peek form => if outlook grammar o depth form = .fails then .fails else .stays
    | .semicolon _ => (outlook grammar o depth (sym ";")).orElse .stays
    | .endOfFile => .fails
    | .empty | .unless _ | .after _ | .ifTypedArrows | .unbroken _ | .softEnd => .stays

section Joined

variable {first second : Form ρ} {v w : Outlook}

theorem leads_unknown {form : Form ρ} : Leads grammar P form (Outlook.unknown.After o) :=
  fun _ _ _ _ _ _ _ => trivial

theorem leads_of_false {form : Form ρ} : Leads grammar (fun _ => False) form Q :=
  fun _ _ _ _ _ hfalse _ => hfalse.elim

/-- The outlook of two forms in a row is the outlook of one and then the other. -/
theorem leads_seq_andThen (hfirst : Leads grammar o.Faces first (v.After o))
    (hsecond : Leads grammar o.Faces second (w.After o)) :
    Leads grammar o.Faces (.seq first second) ((v.andThen w).After o) := by
  cases v with
  | fails => exact hfirst.seq leads_of_false
  | stays => exact hfirst.seq hsecond
  | unknown => exact leads_unknown

theorem leads_chain_andThen (hfirst : Leads grammar o.Faces first (v.After o))
    (hsecond : Leads grammar o.Faces second (w.After o)) :
    Leads grammar o.Faces (.chain first second) ((v.andThen (w.orElse .stays)).After o) := by
  cases v with
  | fails => exact hfirst.chain leads_of_false
  | stays =>
    cases w with
    | fails => exact hfirst.chain (Leads.of_fails hsecond)
    | stays => exact hfirst.chain hsecond
    | unknown => exact leads_unknown
  | unknown => exact leads_unknown

/-- A repeated form may also stay where it is. -/
theorem leads_many_orElse (hfirst : Leads grammar o.Faces first (v.After o)) :
    Leads grammar o.Faces (.many first) ((v.orElse .stays).After o) := by
  cases v with
  | fails => exact Leads.many (Leads.of_fails hfirst)
  | stays => exact Leads.many hfirst
  | unknown => exact leads_unknown

/-- The outlook of a choice covers both of its forms. -/
theorem leads_choice_orElse (hfirst : Leads grammar o.Faces first (v.After o))
    (hsecond : Leads grammar o.Faces second (w.After o)) :
    Leads grammar o.Faces (.choice first second) ((v.orElse w).After o) :=
  Leads.choice (hfirst.mono fun _ => Outlook.After.orElse_left)
    (hsecond.mono fun _ => Outlook.After.orElse_right)

/-- What is left behind a lexeme is unknown, if the opening admits the lexeme at all. -/
theorem after_of_length? {l : Lexeme} {cs : List Char} {n : Nat} (h : o.chars <+: cs)
    (hlength : l.length? cs = some n) :
    (if o.admits l then Outlook.unknown else .fails).After o (cs.drop n) := by
  rw [Opening.admits_of_length? h hlength]
  trivial

end Joined

/-- What is computed from an opening is true of every reading. -/
theorem leads_outlook (grammar : ρ → Form ρ) (o : Opening) (depth : Nat) (form : Form ρ) :
    Leads grammar o.Faces form ((outlook grammar o depth form).After o) := by
  induction depth generalizing form with
  | zero => exact leads_unknown
  | succ depth ih =>
    -- the outlook follows the constructors of forms, and so do the rules for what they lead to
    cases form with
    | token l => exact Leads.token fun cs n => after_of_length?
    | leaf kind l => exact Leads.leaf fun cs n => after_of_length?
    | glued l => exact leads_unknown
    | rule r => exact Leads.rule (ih (grammar r))
    | seq first second => exact leads_seq_andThen (ih first) (ih second)
    | choice first second => exact leads_choice_orElse (ih first) (ih second)
    | many item => exact leads_many_orElse (ih item)
    | node kind body => exact Leads.node (ih body)
    | field role body => exact Leads.field (ih body)
    | chain head step => exact leads_chain_andThen (ih head) (ih step)
    | peek form =>
      rw [outlook]
      split
      · next hfails =>
        have hform := ih form
        rw [hfails] at hform
        exact fails_peek hform
      · exact Leads.of_looks rfl
    | bracketed inside form => exact Leads.bracketed (ih form)
    | untypedArrows form => exact Leads.untypedArrows (ih form)
    | semicolon tail =>
      -- a statement ends at a semicolon, or right here
      refine Leads.semicolon ?_ ((ih (sym ";")).mono fun _ => Outlook.After.orElse_left)
      intro cs hcs _
      exact Outlook.After.orElse_right (w := .stays) hcs
    | softEnd => exact Leads.softEnd
    | endOfFile => exact Leads.endOfFile
    | _ => exact Leads.of_looks rfl

/-- A form whose outlook is to fail fits nowhere where the opening is faced. -/
theorem fails_of_outlook (depth : Nat) {form : Form ρ} (h : outlook grammar o depth form = .fails) :
    Fails grammar o.Faces form := by
  have hleads := leads_outlook grammar o depth form
  rw [h] at hleads
  exact hleads

end Form

end RefPages.Syntax
