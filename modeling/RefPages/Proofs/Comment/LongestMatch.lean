import Mathlib.Data.List.Chain
import Mathlib.Data.List.TakeWhile
import RefPages.Proofs.Comment.Token

/-!
# Longest matches

Seven rules say what a token is: five texts, and two classes of characters whose runs are tokens. A
comment is cut by taking, again and again, the longest segment at its start that a rule matches. A
character that no rule matches anything at is a segment without a rule:

    /*/ a*/    ──▶    /*   /   ␣   a   */

Every comment is cut in one way only, without such a character, and that way is its tokens
(`longestMatch_iff`). That two runs of one class never stand side by side is a matter of longest
matches alone, whatever the classes are (`LongestMatch.isChain`).
-/

namespace RefPages.Comment

/-! ### Rules -/

def isText (c : Char) : Bool := !endsText c

/-- What a rule matches: one text, or the runs of the characters of a class. -/
inductive Pattern where
  | exactly (w : List Char)
  | runOf (p : Char → Bool)

/-- A pattern matches the whole of a text. -/
def Pattern.Matches : Pattern → List Char → Prop
  | .exactly w, cs => cs = w
  | .runOf p, cs => cs ≠ [] ∧ ∀ c ∈ cs, p c = true

/-- How many characters a pattern takes from the start of a text. -/
@[simp] def Pattern.reach : Pattern → List Char → Nat
  | .exactly w, cs => if w <+: cs then w.length else 0
  | .runOf p, cs => (cs.takeWhile p).length

inductive Rule where
  | docOpen
  | blockOpen
  | close
  | star
  | newline
  | blanks
  | text
deriving DecidableEq, Repr

@[simp] def Rule.pattern : Rule → Pattern
  | .docOpen => .exactly ['/', '*', '*']
  | .blockOpen => .exactly ['/', '*']
  | .close => .exactly ['*', '/']
  | .star => .exactly ['*']
  | .newline => .exactly ['\n']
  | .blanks => .runOf isGap
  | .text => .runOf isText

def Token.rule : Token → Rule
  | .docOpen => .docOpen
  | .blockOpen => .blockOpen
  | .close => .close
  | .star => .star
  | .newline => .newline
  | .blanks _ => .blanks
  | .text _ => .text

/-- No match of a pattern at the start of a text is longer than its reach there. -/
theorem Pattern.Matches.length_le_reach {p : Pattern} {w cs : List Char} (h : p.Matches w)
    (hw : w <+: cs) : w.length ≤ p.reach cs := by
  cases p with
  | exactly v =>
    obtain rfl : w = v := h
    rw [Pattern.reach, if_pos hw]
  | runOf p =>
    obtain ⟨rest, rfl⟩ := hw
    rw [Pattern.reach, List.takeWhile_append_of_pos h.2, List.length_append]
    exact Nat.le_add_right _ _

theorem Pattern.Matches.ne_nil {r : Rule} {w : List Char} (h : r.pattern.Matches w) : w ≠ [] := by
  cases r with
  | blanks | text => exact h.1
  | _ =>
    rintro rfl
    cases h

/-- Two runs of one class next to each other are a run of it. -/
theorem Pattern.Matches.append {p : Char → Bool} {v w : List Char}
    (hv : (Pattern.runOf p).Matches v) (hw : (Pattern.runOf p).Matches w) :
    (Pattern.runOf p).Matches (v ++ w) := by
  refine ⟨List.append_ne_nil_of_left_ne_nil hv.1 w, fun c hc => ?_⟩
  rcases List.mem_append.1 hc with hc | hc
  · exact hv.2 c hc
  · exact hw.2 c hc

/-! ### Cutting by longest match -/

/-- A segment of a text, with the rule that matched it if one did. -/
structure Segment where
  rule? : Option Rule
  chars : List Char
deriving DecidableEq, Repr

def Token.segment (t : Token) : Segment := ⟨some t.rule, t.chars⟩

/-- The rule matches a segment at the start of a text, and no rule matches a longer one. -/
structure Longest (cs : List Char) (r : Rule) (w : List Char) : Prop where
  matched : r.pattern.Matches w
  start : w <+: cs
  le : ∀ (s : Rule) v, s.pattern.Matches v → v <+: cs → v.length ≤ w.length

/-- A text is cut into segments, each the longest match at its place. -/
inductive LongestMatch : List Char → List Segment → Prop
  | nil : LongestMatch [] []
  | token {r w rest ps} (hlongest : Longest (w ++ rest) r w) (hrest : LongestMatch rest ps) :
      LongestMatch (w ++ rest) (⟨some r, w⟩ :: ps)
  | error {c cs ps} (hnone : ∀ (r : Rule) w, r.pattern.Matches w → ¬w <+: c :: cs)
      (hrest : LongestMatch cs ps) : LongestMatch (c :: cs) (⟨none, [c]⟩ :: ps)

/-- Two segments are runs of the same class. -/
def Segment.Joins (p q : Segment) : Prop :=
  (p.rule? = some .blanks ∧ q.rule? = some .blanks) ∨ (p.rule? = some .text ∧ q.rule? = some .text)

namespace LongestMatch

variable {cs : List Char} {ps : List Segment}

/-- The segments are the text again. -/
theorem chars (h : LongestMatch cs ps) : ps.flatMap Segment.chars = cs := by
  induction h with
  | nil => rfl
  | token _ _ ih => rw [List.flatMap_cons, ih]
  | error _ _ ih => rw [List.flatMap_cons, ih, List.singleton_append]

theorem matches_of_mem (h : LongestMatch cs ps) {p : Segment} {r : Rule} (hp : p ∈ ps)
    (hr : p.rule? = some r) : r.pattern.Matches p.chars := by
  induction h with
  | nil => cases hp
  | token hlongest _ ih =>
    rcases List.mem_cons.1 hp with rfl | hp
    · obtain rfl := Option.some.inj hr
      exact hlongest.matched
    · exact ih hp
  -- an error segment has no rule at all
  | error _ _ ih =>
    rcases List.mem_cons.1 hp with rfl | hp
    · cases hr
    · exact ih hp

/-- The second of two runs of one class would be a part of the first. -/
theorem not_joins {r : Rule} {p : Char → Bool} {w rest v : List Char}
    (hr : r.pattern = .runOf p) (hlongest : Longest (w ++ rest) r w)
    (hrest : LongestMatch rest (⟨some r, v⟩ :: ps)) : False := by
  obtain ⟨hv, more, rfl⟩ : r.pattern.Matches v ∧ v <+: rest := by
    cases hrest with
    | token hnext _ => exact ⟨hnext.matched, hnext.start⟩
  have hboth : r.pattern.Matches (w ++ v) := by
    have hw := hlongest.matched
    rw [hr] at hv hw ⊢
    exact hw.append hv
  have hstart : w ++ v <+: w ++ (v ++ more) := by
    rw [← List.append_assoc]
    exact List.prefix_append _ _
  -- the two runs together are a longer match than the one that was longest
  have hle := hlongest.le r (w ++ v) hboth hstart
  have hpos : 0 < v.length := List.length_pos_iff.2 hv.ne_nil
  rw [List.length_append] at hle
  omega

/-- Two runs of one class never stand side by side: together they would be a longer match. -/
theorem isChain (h : LongestMatch cs ps) : ps.IsChain fun p q => ¬p.Joins q := by
  induction h with
  | nil => exact .nil
  | @error c cs ps _ _ ih =>
    cases ps with
    | nil => exact .singleton _
    | cons q ps => exact .cons_cons (by simp [Segment.Joins]) ih
  | @token r w rest ps hlongest hrest ih =>
    cases ps with
    | nil => exact .singleton _
    | cons q ps =>
      refine .cons_cons ?_ ih
      obtain ⟨rule?, v⟩ := q
      -- the first run would have taken the second one with it
      rintro (⟨hp, hq⟩ | ⟨hp, hq⟩)
      · obtain rfl : r = .blanks := Option.some.inj hp
        obtain rfl : rule? = some .blanks := hq
        exact not_joins rfl hlongest hrest
      · obtain rfl : r = .text := Option.some.inj hp
        obtain rfl : rule? = some .text := hq
        exact not_joins rfl hlongest hrest

end LongestMatch

/-! ### Runs of one class -/

theorem consBlank_of_head? {ts : List Token} (h : ∀ w, ts.head? ≠ some (.blanks w)) (c : Char) :
    Token.consBlank c ts = .blanks [c] :: ts :=
  @consBlank_append [] ts c fun _ => h

theorem consText_of_head? {ts : List Token} (h : ∀ w, ts.head? ≠ some (.text w)) (c : Char) :
    Token.consText c ts = .text [c] :: ts :=
  @consText_append [] ts c fun _ => h

/-- A run of blanks is one token. -/
theorem consBlank_scan (c : Char) (cs : List Char) :
    Token.consBlank c (Token.scan false cs) =
      .blanks (c :: cs.takeWhile isGap) :: Token.scan false (cs.dropWhile isGap) := by
  induction cs generalizing c with
  | nil => rfl
  | cons d ds ih =>
    by_cases hd : isGap d = true
    · rw [scan_blank ds hd, ih, List.takeWhile_cons_of_pos hd, List.dropWhile_cons_of_pos hd]
      rfl
    · rw [List.takeWhile_cons_of_neg hd, List.dropWhile_cons_of_neg hd]
      refine consBlank_of_head? (fun w hw => ?_) c
      obtain ⟨e, he, hgap⟩ := starts_head?_scan hw
      obtain rfl : d = e := Option.some.inj he
      exact hd hgap

/-- A run of text is one token. Inside it a slash starts no marker. -/
theorem consText_scan (c : Char) (cs : List Char) :
    Token.consText c (Token.scan true cs) =
      .text (c :: cs.takeWhile isText) :: Token.scan false (cs.dropWhile isText) := by
  induction cs generalizing c with
  | nil => rfl
  | cons d ds ih =>
    by_cases hd : isText d = true
    -- inside of a text a slash is one more character, also before a star
    · have hstar : d ≠ '*' := fun hstar => by simp [hstar, isText, endsText] at hd
      have hplain : IsPlain true d ds := ⟨hstar, fun _ _ => rfl⟩
      have hnewline : d ≠ '\n' := fun hnewline => by simp [hnewline, isText, endsText] at hd
      have hgap : isGap d = false := by
        simp only [isText, endsText, Bool.not_eq_true', Bool.or_eq_false_iff] at hd
        exact hd.1.1
      rw [scan_text hplain hnewline hgap, ih, List.takeWhile_cons_of_pos hd,
        List.dropWhile_cons_of_pos hd]
      rfl
    -- what ends the text starts a token of another kind
    · have hslash : (d :: ds).head? ≠ some '/' := by
        rintro ⟨⟩
        exact hd rfl
      rw [List.takeWhile_cons_of_neg hd, List.dropWhile_cons_of_neg hd, scan_of_head? hslash]
      refine consText_of_head? (fun w hw => ?_) c
      obtain ⟨e, he, htext⟩ := starts_head?_scan hw
      obtain rfl : d = e := Option.some.inj he
      exact hd (by rw [isText, show endsText d = false from htext]; rfl)

/-! ### Tokens are longest matches

Which match is the longest is seen at the first two characters, and for runs at the place where they
end. -/

/-- A match is the longest one if no rule reaches further. -/
theorem longest_of_reach {cs w : List Char} {r : Rule} (hmatched : r.pattern.Matches w)
    (hstart : w <+: cs) (hreach : ∀ s : Rule, s.pattern.reach cs ≤ w.length) : Longest cs r w :=
  ⟨hmatched, hstart, fun s _ hv hstarts => (hv.length_le_reach hstarts).trans (hreach s)⟩

/-- A run is the longest match of its class where no other rule reaches further than it. -/
theorem longest_of_run {p : Char → Bool} {c : Char} {cs : List Char} {r : Rule}
    (hr : r.pattern = .runOf p) (hc : p c = true)
    (hreach : ∀ s : Rule, s.pattern.reach (c :: cs) ≤ (cs.takeWhile p).length + 1) :
    Longest (c :: cs) r (c :: cs.takeWhile p) := by
  have hrun : c :: cs.takeWhile p = (c :: cs).takeWhile p := by rw [List.takeWhile_cons_of_pos hc]
  refine longest_of_reach ?_ ?_ hreach
  · rw [hr]
    refine ⟨List.cons_ne_nil _ _, fun d hd => ?_⟩
    rw [hrun] at hd
    exact List.mem_takeWhile_imp hd
  · rw [hrun]
    exact List.takeWhile_prefix p

theorem singleton_prefix_iff {c : Char} {cs : List Char} : [c] <+: cs ↔ cs.head? = some c := by
  cases cs <;> simp [eq_comm]

section

variable {c : Char} (cs : List Char)

/-- One lemma for each branch of the tokenizer: what it takes is the longest match. -/
theorem longest_docOpen : Longest ('/' :: '*' :: '*' :: cs) .docOpen ['/', '*', '*'] := by
  refine longest_of_reach rfl ⟨cs, rfl⟩ fun s => ?_
  cases s <;> simp [isText, endsText, isGap]

theorem longest_close : Longest ('*' :: '/' :: cs) .close ['*', '/'] := by
  refine longest_of_reach rfl ⟨cs, rfl⟩ fun s => ?_
  cases s <;> simp [isText, endsText, isGap]

theorem longest_newline : Longest ('\n' :: cs) .newline ['\n'] := by
  refine longest_of_reach rfl ⟨cs, rfl⟩ fun s => ?_
  cases s <;> simp [isText, endsText, isGap]

theorem longest_blanks (hgap : isGap c = true) :
    Longest (c :: cs) .blanks (c :: cs.takeWhile isGap) := by
  have hslash : c ≠ '/' := by rintro rfl; cases hgap
  have hstar : c ≠ '*' := by rintro rfl; cases hgap
  have hnewline : c ≠ '\n' := by rintro rfl; cases hgap
  refine longest_of_run rfl hgap fun s => ?_
  cases s <;> simp [isText, endsText, hgap, hslash.symm, hstar.symm, hnewline.symm]

variable {cs}

theorem longest_blockOpen (h : cs.head? ≠ some '*') :
    Longest ('/' :: '*' :: cs) .blockOpen ['/', '*'] := by
  refine longest_of_reach rfl ⟨cs, rfl⟩ fun s => ?_
  cases s <;> simp [isText, endsText, isGap, singleton_prefix_iff, h]

theorem longest_star (h : cs.head? ≠ some '/') : Longest ('*' :: cs) .star ['*'] := by
  refine longest_of_reach rfl ⟨cs, rfl⟩ fun s => ?_
  cases s <;> simp [isText, endsText, isGap, singleton_prefix_iff, h]

theorem longest_text (hplain : IsPlain false c cs) (hnewline : c ≠ '\n') (hgap : isGap c = false) :
    Longest (c :: cs) .text (c :: cs.takeWhile isText) := by
  have htext : isText c = true := by simp [isText, endsText, hgap, hnewline, hplain.1]
  have hslash : ¬('/' = c ∧ ['*'] <+: cs) := by
    rintro ⟨rfl, hstar⟩
    exact absurd (hplain.2 rfl (singleton_prefix_iff.1 hstar)) (by decide)
  have hslash' : ¬('/' = c ∧ ['*', '*'] <+: cs) := by
    rintro ⟨hc, hstars⟩
    exact hslash ⟨hc, List.IsPrefix.trans ⟨['*'], rfl⟩ hstars⟩
  refine longest_of_run rfl htext fun s => ?_
  cases s <;> simp [htext, hgap, hplain.1.symm, hnewline.symm, hslash, hslash']

end

/-- Where no text is open, the first token is the longest match, and the others are the tokens of
the rest. -/
theorem exists_longest {opened : Bool} {cs : List Char} (hopened : opened = false) (h : cs ≠ []) :
    ∃ t rest, cs = t.chars ++ rest ∧ Token.scan false cs = t :: Token.scan false rest ∧
      Longest cs t.rule t.chars := by
  have hrun : ∀ (p : Char → Bool) (c : Char) (cs : List Char),
      c :: cs = (c :: cs.takeWhile p) ++ cs.dropWhile p := by
    intro p c cs
    rw [List.cons_append, List.takeWhile_append_dropWhile]
  -- one case for each branch of the tokenizer: the characters it takes, and why no rule takes more
  induction opened, cs using scan_induction with
  | nil opened => exact absurd rfl h
  | docOpen cs => exact ⟨.docOpen, cs, rfl, scan_docOpen cs, longest_docOpen cs⟩
  | blockOpen cs hcs => exact ⟨.blockOpen, cs, rfl, scan_blockOpen hcs, longest_blockOpen hcs⟩
  | close opened cs => exact ⟨.close, cs, rfl, scan_close false cs, longest_close cs⟩
  | star opened cs hcs => exact ⟨.star, cs, rfl, scan_star hcs, longest_star hcs⟩
  | newline opened cs => exact ⟨.newline, cs, rfl, scan_newline false cs, longest_newline cs⟩
  | blank opened c cs hgap =>
    refine ⟨.blanks _, _, hrun isGap c cs, ?_, longest_blanks cs hgap⟩
    rw [scan_blank cs hgap, consBlank_scan]
  | text opened c cs hplain hnewline hgap =>
    subst hopened
    refine ⟨.text _, _, hrun isText c cs, ?_, longest_text hplain hnewline hgap⟩
    rw [scan_text hplain hnewline hgap, consText_scan]

/-- What a rule matches is a single token of its kind. -/
theorem rules_of_matches {r : Rule} {w : List Char} (h : r.pattern.Matches w) :
    (tokens w).map Token.rule = [r] := by
  cases r with
  | docOpen | blockOpen | close | star | newline =>
    obtain rfl : w = _ := h
    rfl
  | blanks =>
    obtain ⟨c, cs, rfl⟩ := List.exists_cons_of_ne_nil h.1
    obtain ⟨hc, hcs⟩ := List.forall_mem_cons.1 h.2
    rw [tokens, scan_blank cs hc, consBlank_scan, List.dropWhile_eq_nil_iff.2 hcs]
    rfl
  | text =>
    obtain ⟨c, cs, rfl⟩ := List.exists_cons_of_ne_nil h.1
    obtain ⟨hc, hcs⟩ := List.forall_mem_cons.1 h.2
    -- a slash in front is no marker, as no star is in the text
    have hplain : IsPlain false c cs := by
      refine ⟨fun hstar => by simp [hstar, isText, endsText] at hc, fun _ hstar => ?_⟩
      exact absurd (hcs '*' (List.mem_of_mem_head? hstar)) (by decide)
    have hends : endsText c = false := by simpa [isText] using hc
    simp only [endsText, Bool.or_eq_false_iff, beq_eq_false_iff_ne] at hends
    rw [tokens, scan_text hplain hends.1.2 hends.1.1, consText_scan,
      List.dropWhile_eq_nil_iff.2 hcs]
    rfl

/-- No two rules match the same text, so the longest match has one rule only. -/
theorem Longest.unique {cs v w : List Char} {r s : Rule} (hr : Longest cs r v)
    (hs : Longest cs s w) : r = s ∧ v = w := by
  have hlength : v.length = w.length :=
    Nat.le_antisymm (hs.le r v hr.matched hr.start) (hr.le s w hs.matched hs.start)
  obtain rfl : v = w :=
    (List.prefix_of_prefix_length_le hr.start hs.start hlength.le).eq_of_length hlength
  have hrules := (rules_of_matches hr.matched).symm.trans (rules_of_matches hs.matched)
  exact ⟨List.singleton_inj.1 hrules, rfl⟩

/-- A text is cut in one way only, and a character that no rule matches anything at never shows. -/
theorem LongestMatch.eq_tokens {cs : List Char} {ps : List Segment} (h : LongestMatch cs ps) :
    ps = (tokens cs).map Token.segment := by
  induction h with
  | nil => rfl
  | @token r w rest ps hlongest _ ih =>
    have hne : w ++ rest ≠ [] := List.append_ne_nil_of_left_ne_nil hlongest.matched.ne_nil rest
    obtain ⟨t, rest', hsplit, hscan, ht⟩ := exists_longest rfl hne
    -- the longest match at a place is unique, so both streams take the same slice
    obtain ⟨rfl, rfl⟩ := hlongest.unique ht
    obtain rfl : rest = rest' := List.append_cancel_left hsplit
    rw [tokens, hscan, List.map_cons, ih]
    rfl
  | @error c cs _ hnone =>
    -- some rule matches wherever there is a character left
    obtain ⟨t, _, _, _, ht⟩ := exists_longest rfl (List.cons_ne_nil c cs)
    exact absurd ht.start (hnone t.rule t.chars ht.matched)

/-- The tokens of a text are its cutting by longest matches, and every character is in one of them.
-/
theorem longestMatch_tokens (cs : List Char) :
    LongestMatch cs ((tokens cs).map Token.segment) := by
  induction hn : cs.length using Nat.strong_induction_on generalizing cs with
  | _ n ih =>
    by_cases hcs : cs = []
    · subst hcs
      exact .nil
    · obtain ⟨t, rest, hsplit, hscan, hlongest⟩ := exists_longest rfl hcs
      -- a match is never empty, so what is left is shorter
      have hpos : 0 < t.chars.length := List.length_pos_iff.2 hlongest.matched.ne_nil
      have hshort : rest.length < n := by
        rw [← hn, hsplit, List.length_append]
        omega
      rw [tokens, hscan, List.map_cons]
      rw [hsplit] at hlongest ⊢
      exact .token hlongest (ih _ hshort rest rfl)

/-- The tokens of a text are the only way to cut it by longest match. -/
theorem longestMatch_iff {cs : List Char} {ps : List Segment} :
    LongestMatch cs ps ↔ ps = (tokens cs).map Token.segment := by
  constructor
  · exact LongestMatch.eq_tokens
  · rintro rfl
    exact longestMatch_tokens cs

example : (tokens "/*/ a*/".toList).map Token.rule =
    [.blockOpen, .text, .blanks, .text, .close] := by decide +kernel

end RefPages.Comment
