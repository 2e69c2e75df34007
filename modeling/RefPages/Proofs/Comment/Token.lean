import Mathlib.Data.List.Infix
import RefPages.Comment.Token

/-!
# Reading tokens

What a token list says about the characters that it was cut from. No character is lost
(`chars_scan`), two texts that no token joins have the tokens of both (`scan_append`), and whether a
closing marker is read depends on where the reading starts:

    a /*/ b    the star belongs to a marker that opens, so nothing is closed
    a/*/ b     the slash belongs to the text before it, and the star closes

So `Unclosed` says of characters that nothing is closed in them, and the lemmas about it say which
characters may be cut off at either end. Two texts side by side are `Apart` where neither a run nor
a marker reaches from one into the other, as at every line end (`scan_append_newline`).
-/

namespace RefPages.Comment

open Text

/-! ### One token at a time

The rows of `Token.scan`, those that are tried only after others with what the others leave out. -/

@[simp] theorem scan_nil (opened : Bool) : Token.scan opened [] = [] := by
  cases opened <;> rfl

theorem scan_docOpen (cs : List Char) :
    Token.scan false ('/' :: '*' :: '*' :: cs) = .docOpen :: Token.scan false cs := rfl

theorem scan_blockOpen {cs : List Char} (h : cs.head? ≠ some '*') :
    Token.scan false ('/' :: '*' :: cs) = .blockOpen :: Token.scan false cs := by
  cases cs with
  | nil => rfl
  | cons c cs =>
    have hc : c ≠ '*' := by simpa using h
    rw [Token.scan]
    rintro cs' ⟨⟩
    exact hc rfl

/-- A closing marker is one wherever the tokenizer stands: no run of text takes its star. -/
theorem scan_close (opened : Bool) (cs : List Char) :
    Token.scan opened ('*' :: '/' :: cs) = .close :: Token.scan false cs := by
  cases opened <;> rfl

/-- A star that no slash follows is a token of its own. -/
theorem scan_star {opened : Bool} {cs : List Char} (h : cs.head? ≠ some '/') :
    Token.scan opened ('*' :: cs) = .star :: Token.scan false cs := by
  rw [Token.scan]
  all_goals simp
  rintro cs' rfl
  simp at h

theorem scan_newline (opened : Bool) (cs : List Char) :
    Token.scan opened ('\n' :: cs) = .newline :: Token.scan false cs := by
  cases opened <;> rfl

/-- A character starts no marker: it is no star, and no slash that a star follows, unless the slash
belongs to a text before it. -/
def IsPlain (opened : Bool) (c : Char) (cs : List Char) : Prop :=
  c ≠ '*' ∧ (c = '/' → cs.head? = some '*' → opened = true)

/-- A character that starts no marker goes to the run of its class. These equations are what later
proofs rewrite with: none of them opens the tokenizer. -/
theorem scan_of_isPlain {opened : Bool} {c : Char} {cs : List Char} (hplain : IsPlain opened c cs)
    (hnewline : c ≠ '\n') :
    Token.scan opened (c :: cs) =
      if isGap c then Token.consBlank c (Token.scan false cs)
      else Token.consText c (Token.scan true cs) := by
  rw [Token.scan]
  · rw [if_neg hnewline]
  · rintro cs' rfl
    exact absurd rfl hplain.1
  · exact hplain.1
  · rintro cs' rfl rfl rfl
    simpa using hplain.2 rfl
  · rintro cs' rfl rfl rfl
    simpa using hplain.2 rfl

theorem scan_blank {opened : Bool} {c : Char} (cs : List Char) (h : isGap c = true) :
    Token.scan opened (c :: cs) = Token.consBlank c (Token.scan false cs) := by
  have hne : c ≠ '*' ∧ c ≠ '/' ∧ c ≠ '\n' := by
    refine ⟨?_, ?_, ?_⟩ <;> (rintro rfl; simp [isGap] at h)
  have hplain : IsPlain opened c cs := ⟨hne.1, fun hslash => absurd hslash hne.2.1⟩
  rw [scan_of_isPlain hplain hne.2.2, if_pos h]

theorem scan_text {opened : Bool} {c : Char} {cs : List Char} (hplain : IsPlain opened c cs)
    (hnewline : c ≠ '\n') (h : isGap c = false) :
    Token.scan opened (c :: cs) = Token.consText c (Token.scan true cs) := by
  rw [scan_of_isPlain hplain hnewline, if_neg (by simp [h])]

/-- Characters by the token that they start with: the recursion of `Token.scan`, with all that is
known of the characters in each case. -/
theorem scan_induction {motive : Bool → List Char → Prop} (nil : ∀ opened, motive opened [])
    (docOpen : ∀ cs, motive false cs → motive false ('/' :: '*' :: '*' :: cs))
    (blockOpen : ∀ cs, cs.head? ≠ some '*' → motive false cs → motive false ('/' :: '*' :: cs))
    (close : ∀ opened cs, motive false cs → motive opened ('*' :: '/' :: cs))
    (star : ∀ opened cs, cs.head? ≠ some '/' → motive false cs → motive opened ('*' :: cs))
    (newline : ∀ opened cs, motive false cs → motive opened ('\n' :: cs))
    (blank : ∀ opened c cs, isGap c = true → motive false cs → motive opened (c :: cs))
    (text : ∀ opened c cs, IsPlain opened c cs → c ≠ '\n' → isGap c = false → motive true cs →
      motive opened (c :: cs)) (opened : Bool) (cs : List Char) : motive opened cs := by
  -- the side conditions of the branches, said by the first character of what follows
  fun_induction Token.scan opened cs with
  | case1 opened => exact nil opened
  | case2 cs ih => exact docOpen cs ih
  | case3 cs hne ih =>
    refine blockOpen cs ?_ ih
    intro h
    obtain ⟨cs', rfl⟩ := List.head?_eq_some_iff.1 h
    exact hne cs' rfl
  | case4 opened cs ih => exact close opened cs ih
  | case5 opened cs hne ih =>
    refine star opened cs ?_ ih
    intro h
    obtain ⟨cs', rfl⟩ := List.head?_eq_some_iff.1 h
    exact hne cs' rfl
  | case6 opened cs hdoc hblock hclose hstar ih => exact newline opened cs ih
  | case7 opened c cs hdoc hblock hclose hstar hc hgap ih => exact blank opened c cs hgap ih
  | case8 opened c cs hdoc hblock hclose hstar hc hgap ih =>
    refine text opened c cs ⟨hstar, ?_⟩ hc (by simpa using hgap) ih
    rintro rfl h
    obtain ⟨cs', rfl⟩ := List.head?_eq_some_iff.1 h
    by_contra hopened
    exact hblock cs' (by simpa using hopened) rfl rfl

/-! ### Tokens and characters -/

theorem chars_consBlank (c : Char) (ts : List Token) :
    (Token.consBlank c ts).flatMap Token.chars = c :: ts.flatMap Token.chars := by
  fun_cases Token.consBlank c ts <;> simp [Token.chars]

theorem chars_consText (c : Char) (ts : List Token) :
    (Token.consText c ts).flatMap Token.chars = c :: ts.flatMap Token.chars := by
  fun_cases Token.consText c ts <;> simp [Token.chars]

/-- No character is lost. -/
theorem chars_scan (opened : Bool) (cs : List Char) :
    (Token.scan opened cs).flatMap Token.chars = cs := by
  induction opened, cs using scan_induction with
  | nil opened => simp
  | docOpen cs ih => simp [scan_docOpen, Token.chars, ih]
  | blockOpen cs hcs ih => simp [scan_blockOpen hcs, Token.chars, ih]
  | close opened cs ih => simp [scan_close, Token.chars, ih]
  | star opened cs hcs ih => simp [scan_star hcs, Token.chars, ih]
  | newline opened cs ih => simp [scan_newline, Token.chars, ih]
  | blank opened c cs hgap ih => rw [scan_blank cs hgap, chars_consBlank, ih]
  | text opened c cs hplain hnewline hgap ih =>
    rw [scan_text hplain hnewline hgap, chars_consText, ih]

/-! ### The first token -/

theorem consBlank_eq (c : Char) (ts : List Token) :
    ∃ w us, Token.consBlank c ts = .blanks w :: us := by
  fun_cases Token.consBlank c ts
  · exact ⟨_, _, rfl⟩
  · exact ⟨_, _, rfl⟩

theorem consText_eq (c : Char) (ts : List Token) :
    ∃ w us, Token.consText c ts = .text w :: us := by
  fun_cases Token.consText c ts
  · exact ⟨_, _, rfl⟩
  · exact ⟨_, _, rfl⟩

def endsText (c : Char) : Bool := isGap c || c == '\n' || c == '*'

/-- The characters that a token may start with. -/
def Token.Starts : Token → Char → Prop
  | .blanks _, c => isGap c = true
  | .text _, c => endsText c = false
  | t, c => t.chars.head? = some c

theorem starts_head?_scan {opened : Bool} {cs : List Char} {t : Token}
    (h : (Token.scan opened cs).head? = some t) : ∃ c, cs.head? = some c ∧ t.Starts c := by
  induction opened, cs using scan_induction with
  | nil opened => simp at h
  | docOpen cs ih =>
    rw [scan_docOpen] at h
    cases h
    exact ⟨'/', rfl, rfl⟩
  | blockOpen cs hcs ih =>
    rw [scan_blockOpen hcs] at h
    cases h
    exact ⟨'/', rfl, rfl⟩
  | close opened cs ih =>
    rw [scan_close] at h
    cases h
    exact ⟨'*', rfl, rfl⟩
  | star opened cs hcs ih =>
    rw [scan_star hcs] at h
    cases h
    exact ⟨'*', rfl, rfl⟩
  | newline opened cs ih =>
    rw [scan_newline] at h
    cases h
    exact ⟨'\n', rfl, rfl⟩
  | blank opened c cs hgap ih =>
    obtain ⟨w, us, hus⟩ := consBlank_eq c (Token.scan false cs)
    rw [scan_blank cs hgap, hus] at h
    cases h
    exact ⟨c, rfl, hgap⟩
  | text opened c cs hplain hnewline hgap ih =>
    obtain ⟨w, us, hus⟩ := consText_eq c (Token.scan true cs)
    rw [scan_text hplain hnewline hgap, hus] at h
    cases h
    exact ⟨c, rfl, by simp [Token.Starts, endsText, hgap, hnewline, hplain.1]⟩

/-! ### Closing markers -/

def closing : List Char := ['*', '/']

/-- No closing marker is read in the characters. -/
def Unclosed (opened : Bool) (cs : List Char) : Prop := Token.close ∉ Token.scan opened cs

instance (opened : Bool) (cs : List Char) : Decidable (Unclosed opened cs) :=
  inferInstanceAs (Decidable (Token.close ∉ Token.scan opened cs))

example : Unclosed false "a /*/ b".toList ∧ ¬Unclosed false "a/*/ b".toList := by decide +kernel

theorem unclosed_docOpen {cs : List Char} :
    Unclosed false ('/' :: '*' :: '*' :: cs) ↔ Unclosed false cs := by
  simp [Unclosed, scan_docOpen]

theorem unclosed_blockOpen {cs : List Char} (h : cs.head? ≠ some '*') :
    Unclosed false ('/' :: '*' :: cs) ↔ Unclosed false cs := by
  simp [Unclosed, scan_blockOpen h]

/-- What starts with a closing marker is not unclosed. -/
theorem not_unclosed_close {opened : Bool} {cs : List Char} :
    ¬Unclosed opened ('*' :: '/' :: cs) := by
  simp [Unclosed, scan_close]

theorem unclosed_star {opened : Bool} {cs : List Char} (h : cs.head? ≠ some '/') :
    Unclosed opened ('*' :: cs) ↔ Unclosed false cs := by
  simp [Unclosed, scan_star h]

theorem unclosed_newline {opened : Bool} {cs : List Char} :
    Unclosed opened ('\n' :: cs) ↔ Unclosed false cs := by
  simp [Unclosed, scan_newline]

theorem unclosed_blank {opened : Bool} {c : Char} {cs : List Char} (h : isGap c = true) :
    Unclosed opened (c :: cs) ↔ Unclosed false cs := by
  have hmem : ∀ ts : List Token, .close ∈ Token.consBlank c ts ↔ .close ∈ ts := by
    intro ts
    fun_cases Token.consBlank c ts <;> simp
  rw [Unclosed, scan_blank cs h, hmem, Unclosed]

theorem unclosed_text {opened : Bool} {c : Char} {cs : List Char} (hplain : IsPlain opened c cs)
    (hnewline : c ≠ '\n') (hgap : isGap c = false) :
    Unclosed opened (c :: cs) ↔ Unclosed true cs := by
  have hmem : ∀ ts : List Token, .close ∈ Token.consText c ts ↔ .close ∈ ts := by
    intro ts
    fun_cases Token.consText c ts <;> simp
  rw [Unclosed, scan_text hplain hnewline hgap, hmem, Unclosed]

/-- In unclosed characters no slash follows a star. -/
theorem head?_ne_of_unclosed_star {opened : Bool} {cs : List Char}
    (h : Unclosed opened ('*' :: cs)) : cs.head? ≠ some '/' := by
  intro hhead
  obtain ⟨cs', rfl⟩ := List.head?_eq_some_iff.1 hhead
  exact not_unclosed_close h

/-- An open run of text matters only to a slash. -/
theorem scan_of_head? {cs : List Char} (h : cs.head? ≠ some '/') (opened : Bool) :
    Token.scan opened cs = Token.scan false cs := by
  cases cs with
  | nil => rw [scan_nil, scan_nil]
  | cons c cs =>
    have hc : c ≠ '/' := by simpa using h
    -- the flag is read at a slash only
    by_cases hnewline : c = '\n'
    · rw [hnewline, scan_newline, scan_newline]
    · by_cases hstar : c = '*'
      · subst hstar
        by_cases hhead : cs.head? = some '/'
        · obtain ⟨cs', rfl⟩ := List.head?_eq_some_iff.1 hhead
          rw [scan_close, scan_close]
        · rw [scan_star hhead, scan_star hhead]
      · have hplain : ∀ opened, IsPlain opened c cs := fun _ =>
          ⟨hstar, fun hslash => absurd hslash hc⟩
        rw [scan_of_isPlain (hplain opened) hnewline, scan_of_isPlain (hplain false) hnewline]

/-- What is unclosed inside a text is unclosed on its own. Only a slash at the start makes a
difference: on its own it may start a marker, which takes away a star that could close. -/
theorem Unclosed.of_opened {cs : List Char} (h : Unclosed true cs) : Unclosed false cs := by
  -- only a slash is read differently behind an opening marker: it may open one of its own
  by_cases hslash : cs.head? = some '/'
  · obtain ⟨rest, rfl⟩ := List.head?_eq_some_iff.1 hslash
    have hrest : Unclosed true rest :=
      (unclosed_text ⟨by decide, fun _ _ => rfl⟩ (by decide) (by decide)).1 h
    by_cases hstar : rest.head? = some '*'
    · obtain ⟨tail, rfl⟩ := List.head?_eq_some_iff.1 hstar
      have htail : Unclosed false tail := (unclosed_star (head?_ne_of_unclosed_star hrest)).1 hrest
      -- the stars behind it stand alone, and one of them may join the marker
      by_cases hdoc : tail.head? = some '*'
      · obtain ⟨more, rfl⟩ := List.head?_eq_some_iff.1 hdoc
        rw [unclosed_docOpen]
        exact (unclosed_star (head?_ne_of_unclosed_star htail)).1 htail
      · exact (unclosed_blockOpen hdoc).2 htail
    · have hplain : IsPlain false '/' rest := ⟨by decide, fun _ h => absurd h hstar⟩
      exact (unclosed_text hplain (by decide) (by decide)).2 hrest
  · rwa [Unclosed, scan_of_head? hslash] at h

/-- Characters that are cut off at the end close nothing. -/
theorem Unclosed.of_append {opened : Bool} {l m : List Char} (h : Unclosed opened (l ++ m)) :
    Unclosed opened l := by
  have hhead : ∀ (l : List Char) (c : Char), l ≠ [] → l.head? ≠ some c →
      (l ++ m).head? ≠ some c := by
    intro l c hne hl
    rwa [List.head?_append_of_ne_nil l hne]
  -- only a slash or a star at the end of the first part looks at what follows
  induction opened, l using scan_induction with
  | nil opened => simp [Unclosed]
  | docOpen l ih => exact unclosed_docOpen.2 (ih (unclosed_docOpen.1 h))
  | blockOpen l hl ih =>
    by_cases hne : l = []
    · subst hne
      decide
    · exact (unclosed_blockOpen hl).2 (ih ((unclosed_blockOpen (hhead l '*' hne hl)).1 h))
  | close opened l ih => exact absurd h not_unclosed_close
  | star opened l hl ih =>
    refine (unclosed_star hl).2 (ih ?_)
    exact (unclosed_star (head?_ne_of_unclosed_star h)).1 h
  | newline opened l ih => exact unclosed_newline.2 (ih (unclosed_newline.1 h))
  | blank opened c l hgap ih => exact (unclosed_blank hgap).2 (ih ((unclosed_blank hgap).1 h))
  | text opened c l hplain hnewline hgap ih =>
    by_cases hne : l = []
    · subst hne
      rw [unclosed_text hplain hnewline hgap]
      simp [Unclosed]
    · have hplain' : IsPlain opened c (l ++ m) := by
        refine ⟨hplain.1, fun hc hstar => hplain.2 hc ?_⟩
        rwa [List.head?_append_of_ne_nil l hne] at hstar
      exact (unclosed_text hplain hnewline hgap).2 (ih ((unclosed_text hplain' hnewline hgap).1 h))

/-- Blanks in front may go: what follows them stands on its own. -/
theorem Unclosed.of_cons_blank {opened : Bool} {c : Char} {cs : List Char}
    (h : Unclosed opened (c :: cs)) (hblank : isBlank c = true) : Unclosed false cs := by
  have hplain : IsPlain opened c cs := by
    refine ⟨?_, ?_⟩ <;> (rintro rfl; simp [isBlank] at hblank)
  by_cases hnewline : c = '\n'
  · subst hnewline
    exact unclosed_newline.1 h
  · by_cases hgap : isGap c = true
    · exact (unclosed_blank hgap).1 h
    · rw [Bool.not_eq_true] at hgap
      exact ((unclosed_text hplain hnewline hgap).1 h).of_opened

theorem Unclosed.trimStart {opened : Bool} {cs : List Char} (h : Unclosed opened cs) :
    Unclosed false (trimStart cs) := by
  induction cs generalizing opened with
  | nil => simp [Unclosed, Text.trimStart]
  | cons c cs ih =>
    rw [Text.trimStart, List.dropWhile_cons]
    split
    · next hblank => exact ih (h.of_cons_blank hblank)
    · cases opened with
      | false => exact h
      | true => exact h.of_opened

/-! ### Texts side by side -/

/-- The characters end in a slash, or in a slash and a star, that no text stands in front of. A star
behind them would belong to an opening marker. -/
def EndsInSlash (opened : Bool) (l : List Char) : Prop :=
  ∃ before, (l = before ++ ['/'] ∨ l = before ++ ['/', '*']) ∧ (before = [] → opened = false) ∧
    ∀ c ∈ before.getLast?, endsText c = true

instance (opened : Bool) (l : List Char) : Decidable (EndsInSlash opened l) :=
  have (before : List Char) : Decidable (∀ c ∈ before.getLast?, endsText c = true) :=
    Option.decidableForallMem _
  decidable_of_iff
    (∃ before ∈ l.inits, (l = before ++ ['/'] ∨ l = before ++ ['/', '*']) ∧
      (before = [] → opened = false) ∧ ∀ c ∈ before.getLast?, endsText c = true)
    ⟨fun ⟨before, _, h⟩ => ⟨before, h⟩, fun ⟨before, h⟩ => ⟨before, by
      rcases h.1 with rfl | rfl <;> simp, h⟩⟩

/-- A character in front of others does not change what they end in. -/
theorem EndsInSlash.cons {c : Char} {l : List Char} (h : EndsInSlash (!endsText c) l)
    (opened : Bool) : EndsInSlash opened (c :: l) := by
  obtain ⟨before, hl, hnil, hlast⟩ := h
  refine ⟨c :: before, ?_, by simp, ?_⟩
  · simpa using hl
  · cases before with
    | nil => simpa using hnil
    | cons b before => simpa using hlast

/-- No token reaches from the characters before a place to those after it. -/
structure Apart (opened : Bool) (l m : List Char) : Prop where
  text : ∀ c ∈ m.head?, endsText c = false →
    (l = [] → opened = false) ∧ ∀ d ∈ l.getLast?, isGap d = true ∨ d = '\n'
  gap : ∀ c ∈ m.head?, isGap c = true → ∀ d ∈ l.getLast?, isGap d = false
  star : m.head? = some '*' → ¬closing <:+: l ∧ ¬EndsInSlash opened l

namespace Apart

variable {opened : Bool} {c : Char} {l m : List Char}

/-- What keeps two texts apart keeps them apart without the first character. -/
theorem of_cons (h : Apart opened (c :: l) m) : Apart (!endsText c) l m := by
  have hlast : ∀ d ∈ l.getLast?, (c :: l).getLast? = some d := by
    intro d hd
    rw [List.getLast?_cons, Option.mem_def.1 hd]
    rfl
  refine ⟨fun d hd htext => ⟨?_, fun e he => (h.text d hd htext).2 e (hlast e he)⟩,
    fun d hd hgap e he => h.gap d hd hgap e (hlast e he), fun hm => ?_⟩
  · rintro rfl
    rcases (h.text d hd htext).2 c rfl with hc | rfl
    · simp [endsText, hc]
    · rfl
  · obtain ⟨hclosing, hslash⟩ := h.star hm
    exact ⟨fun hl => hclosing (List.infix_cons hl), fun hl => hslash (hl.cons opened)⟩

/-- Behind a closing marker no text is open. -/
theorem of_close (h : Apart opened ('*' :: '/' :: l) m) : Apart false l m := by
  have hl := h.of_cons.of_cons
  refine ⟨fun d hd htext => ⟨fun _ => rfl, (hl.text d hd htext).2⟩, hl.gap, fun hm => ?_⟩
  exact absurd ⟨[], l, rfl⟩ (h.star hm).1

/-- Where no characters stand in front, the rest is read as if nothing had been open. -/
theorem nil (h : Apart opened [] m) : Token.scan opened m = Token.scan false m := by
  by_cases hm : m.head? = some '/'
  · rw [(h.text '/' hm rfl).1 rfl]
  · exact scan_of_head? hm opened

/-- A character that belongs to no run of blanks takes no part in what follows it. -/
theorem isPlain (h : Apart opened (c :: l) m) (hplain : IsPlain opened c l) :
    IsPlain opened c (l ++ m) := by
  refine ⟨hplain.1, ?_⟩
  rintro rfl hstar
  cases l with
  | cons a l => exact hplain.2 rfl hstar
  | nil =>
    by_contra hopened
    exact (h.star hstar).2 ⟨[], .inl rfl, fun _ => by simpa using hopened, by simp⟩

/-- No blanks follow a gap. -/
theorem head?_ne_blanks {c : Char} (h : Apart opened [c] m) (hgap : isGap c = true)
    (w : List Char) :
    (Token.scan false m).head? ≠ some (.blanks w) := by
  intro hw
  obtain ⟨d, hd, hstart⟩ := starts_head?_scan hw
  rw [h.gap d hd hstart c rfl] at hgap
  exact absurd hgap (by decide)

/-- No plain text follows plain text. -/
theorem head?_ne_text {c : Char} (h : Apart opened [c] m) (hgap : isGap c = false)
    (hnewline : c ≠ '\n') (w : List Char) : (Token.scan false m).head? ≠ some (.text w) := by
  intro hw
  obtain ⟨d, hd, hstart⟩ := starts_head?_scan hw
  rcases (h.text d hd hstart).2 c rfl with hc | hc
  · exact absurd (hgap.symm.trans hc) (by decide)
  · exact hnewline hc

end Apart

theorem head?_append_ne {l m : List Char} {c : Char} (hl : l.head? ≠ some c)
    (hnil : l = [] → m.head? ≠ some c) : (l ++ m).head? ≠ some c := by
  cases l with
  | nil => exact hnil rfl
  | cons a l => exact hl

/-- A blank joins the run of its own text, and never one of the text behind it. -/
theorem consBlank_append {ts us : List Token} (c : Char)
    (h : ts = [] → ∀ w, us.head? ≠ some (.blanks w)) :
    Token.consBlank c (ts ++ us) = Token.consBlank c ts ++ us := by
  cases ts with
  | cons t ts => cases t <;> rfl
  | nil =>
    cases us with
    | nil => rfl
    | cons u us =>
      cases u with
      | blanks w => exact absurd rfl (h rfl w)
      | _ => rfl

theorem consText_append {ts us : List Token} (c : Char)
    (h : ts = [] → ∀ w, us.head? ≠ some (.text w)) :
    Token.consText c (ts ++ us) = Token.consText c ts ++ us := by
  cases ts with
  | cons t ts => cases t <;> rfl
  | nil =>
    cases us with
    | nil => rfl
    | cons u us =>
      cases u with
      | text w => exact absurd rfl (h rfl w)
      | _ => rfl

theorem eq_nil_of_scan {opened : Bool} {cs : List Char} (h : Token.scan opened cs = []) :
    cs = [] := by
  rw [← chars_scan opened cs, h, List.flatMap_nil]

/-- Two texts are cut into the tokens of both where no token reaches from one into the other. -/
theorem scan_append {opened : Bool} {l m : List Char} (h : Apart opened l m) :
    Token.scan opened (l ++ m) = Token.scan opened l ++ Token.scan false m := by
  -- in each case the token in front is the same, as what follows does not join it
  induction opened, l using scan_induction with
  | nil opened =>
    rw [List.nil_append, h.nil, scan_nil, List.nil_append]
  | docOpen l ih =>
    have hl : Apart false l m := h.of_cons.of_cons.of_cons
    rw [scan_docOpen, List.cons_append, List.cons_append, List.cons_append, scan_docOpen, ih hl,
      List.cons_append]
  | blockOpen l hl ih =>
    have hstar : (l ++ m).head? ≠ some '*' := by
      refine head?_append_ne hl ?_
      rintro rfl hm
      exact (h.star hm).2 ⟨[], .inr rfl, fun _ => rfl, by simp⟩
    rw [scan_blockOpen hl, List.cons_append, List.cons_append, scan_blockOpen hstar,
      ih h.of_cons.of_cons, List.cons_append]
  | close opened l ih =>
    rw [scan_close, List.cons_append, List.cons_append, scan_close, ih h.of_close, List.cons_append]
  | star opened l hl ih =>
    have hslash : (l ++ m).head? ≠ some '/' := by
      refine head?_append_ne hl ?_
      rintro rfl hm
      exact absurd ((h.text '/' hm rfl).2 '*' rfl) (by decide)
    rw [scan_star hl, List.cons_append, scan_star hslash, ih h.of_cons, List.cons_append]
  | newline opened l ih =>
    rw [scan_newline, List.cons_append, scan_newline, ih h.of_cons, List.cons_append]
  | blank opened c l hgap ih =>
    have hl : Apart (!endsText c) l m := h.of_cons
    rw [endsText, hgap] at hl
    rw [scan_blank l hgap, List.cons_append, scan_blank _ hgap, ih hl, consBlank_append]
    intro hnil
    obtain rfl := eq_nil_of_scan hnil
    exact h.head?_ne_blanks hgap
  | text opened c l hplain hnewline hgap ih =>
    have hl : Apart (!endsText c) l m := h.of_cons
    have hc : endsText c = false := by simp [endsText, hgap, hnewline, hplain.1]
    rw [hc] at hl
    rw [scan_text hplain hnewline hgap, List.cons_append,
      scan_text (h.isPlain hplain) hnewline hgap, ih hl, consText_append]
    intro hnil
    obtain rfl := eq_nil_of_scan hnil
    exact h.head?_ne_text hgap hnewline

/-- Where no token reaches across, two texts are unclosed together if each of them is. -/
theorem unclosed_append {opened : Bool} {l m : List Char} (h : Apart opened l m) :
    Unclosed opened (l ++ m) ↔ Unclosed opened l ∧ Unclosed false m := by
  rw [Unclosed, scan_append h, List.mem_append, not_or]
  rfl

/-- No token reaches across a line end. -/
theorem apart_newline (opened : Bool) (l cs : List Char) : Apart opened l ('\n' :: cs) := by
  refine ⟨?_, ?_, ?_⟩ <;> simp [endsText, isGap]

/-- A line end ends every token before it. -/
theorem scan_append_newline (opened : Bool) (l cs : List Char) :
    Token.scan opened (l ++ '\n' :: cs) =
      Token.scan opened l ++ .newline :: Token.scan false cs := by
  rw [scan_append (apart_newline opened l cs), scan_newline]

end RefPages.Comment
