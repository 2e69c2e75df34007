import Mathlib.Data.Prod.Lex
import Mathlib.Logic.Relation
import RefPages.Proofs.Comment.Braces
import RefPages.Proofs.Comment.LongestMatch
import RefPages.Proofs.Comment.Walk

/-!
# Walking by position

The walk over the tokens of a comment, as a reader does it who has the text, the bytes at which each
token starts and stops, and an index into the tokens. Such a reader can go wrong in two ways: there
may be no token at the index, and a cut of the text may lie outside of it or inside a character.

    "/** ä"    docOpen 0…3   blanks 3…4   text 4…6          index 1 of 3, inside a line

Some steps change the place in the line and leave the index where it is. Every step still lowers the
tokens ahead or, with the same tokens ahead, the rank of the place (`wellFounded_steps`). On the
tokens of a text no step goes wrong, and what has been read together with what the walk gives for
the rest stays the same all along (`step_spec`).
-/

namespace RefPages.Comment

open Text

/-! ### Positions -/

inductive Mishap where
  /-- There is no token at the index. -/
  | index
  /-- The text cannot be cut at the position. -/
  | cut (fault : Fault)
deriving DecidableEq, Repr

/-- A token by the bytes at which it starts and stops, with its rule if it has one. -/
structure Span where
  rule? : Option Rule
  start : Nat
  stop : Nat
deriving DecidableEq, Repr

/-- The spans of segments that follow each other from a position on. -/
def spansFrom : Nat → List Segment → List Span
  | _, [] => []
  | start, p :: ps =>
    ⟨p.rule?, start, start + byteLength p.chars⟩ :: spansFrom (start + byteLength p.chars) ps

def slice (cs : List Char) (start stop : Nat) : Except Mishap (List Char) :=
  (((cutAt stop cs).bind fun upTo => cutAt start upTo.1).map Prod.snd).mapError .cut

theorem slice_append (before between after : List Char) :
    slice (before ++ (between ++ after)) (byteLength before)
      (byteLength before + byteLength between) = .ok between := by
  rw [slice, ← byteLength_append, ← List.append_assoc, cutAt_append, Except.bind, cutAt_append]
  rfl

/-- Each span cuts its segment out of the text. -/
theorem slices_spansFrom (before : List Char) (ps : List Segment) :
    (spansFrom (byteLength before) ps).map (fun span =>
        (span.rule?, slice (before ++ ps.flatMap Segment.chars) span.start span.stop)) =
      ps.map fun p => (p.rule?, .ok p.chars) := by
  induction ps generalizing before with
  | nil => rfl
  | cons p ps ih =>
    have hrest := ih (before ++ p.chars)
    rw [byteLength_append, List.append_assoc] at hrest
    rw [spansFrom, List.map_cons, List.map_cons, List.flatMap_cons, slice_append, hrest]

/-! ### Steps -/

/-- A walk at one moment: the index of the token ahead, the place in the line unless the comment is
closed, the open line, and the lines before it. -/
structure Walker where
  index : Nat
  place? : Option Place
  line : Line
  lines : List Line
deriving DecidableEq, Repr

namespace Walker

def start : Walker := ⟨0, some .outside, [], []⟩

def next (w : Walker) : Walker := { w with index := w.index + 1 }

def enter (place : Place) (w : Walker) : Walker := { w with place? := some place }

def push (cs : List Char) (w : Walker) : Walker := { w with line := w.line ++ cs }

def finishLine (w : Walker) : Walker := { w with line := [], lines := w.lines ++ [trimEnd w.line] }

def close (w : Walker) : Walker := { w.finishLine with place? := none }

def allLines (w : Walker) : List Line := if w.line.isEmpty then w.lines else w.finishLine.lines

section

variable (cs : List Char) (spans : List Span)

def current (w : Walker) : Except Mishap (List Char) :=
  match spans[w.index]? with
  | none => .error .index
  | some span => slice cs span.start span.stop

/-- Go past a star, and past the blanks after it. The first byte of the blanks is dropped. -/
def skipGutter (w : Walker) : Except Mishap Walker :=
  match spans[w.index + 1]? with
  | some ⟨some .blanks, _, _⟩ => (w.next.current cs spans).bind fun blanks =>
      ((cutAt 1 blanks).mapError .cut).map fun cut => (w.push cut.2).next.next
  | _ => .ok w.next

def read (w : Walker) (rule? : Option Rule) : Except Mishap (Option Walker) :=
  match w.place?, rule? with
  | none, _ => .ok none
  | some .outside, some .docOpen => .ok (some (w.enter .body).next)
  | some .outside, some .blockOpen => .ok (some (w.enter .body).next)
  | some .outside, _ => .ok (some w.next)
  | some .lineStart, some .blanks => .ok (some w.next)
  | some .lineStart, some .star => (w.skipGutter cs spans).map fun v => some (v.enter .body)
  | some .lineStart, some .close => .ok (some w.close)
  | some .lineStart, some .newline => .ok (some w.finishLine.next)
  | some .lineStart, _ => .ok (some (w.enter .body))
  | some .body, some .newline => .ok (some (w.finishLine.enter .lineStart).next)
  | some .body, some .close => .ok (some w.close)
  | some .body, _ => (w.current cs spans).map fun chars => some (w.push chars).next

def step (w : Walker) : Except Mishap (Option Walker) :=
  if w.index < spans.length then
    match spans[w.index]? with
    | none => .error .index
    | some span => w.read cs spans span.rule?
  else .ok none

def Steps (w v : Walker) : Prop := w.step cs spans = .ok (some v)

end

/-! ### Every walk ends -/

section

variable {α β : Type} {x : Except Mishap α} {b : β}

theorem exists_of_bind_ok {f : α → Except Mishap β} (h : x.bind f = .ok b) :
    ∃ a, x = .ok a ∧ f a = .ok b := by
  cases x with
  | error mishap => cases h
  | ok a => exact ⟨a, rfl, h⟩

theorem exists_of_map_ok {f : α → β} (h : x.map f = .ok b) : ∃ a, x = .ok a ∧ f a = b := by
  cases x with
  | error mishap => cases h
  | ok a => exact ⟨a, rfl, Except.ok.inj h⟩

theorem exists_of_map_some_ok {f : α → β} (h : (x.map fun a => some (f a)) = .ok (some b)) :
    ∃ a, x = .ok a ∧ f a = b := by
  obtain ⟨a, ha, heq⟩ := exists_of_map_ok h
  exact ⟨a, ha, Option.some.inj heq⟩

end

section

variable {cs : List Char} {spans : List Span} {w v : Walker}

/-- Going past a gutter goes on by at least one token. -/
theorem index_lt_of_skipGutter (h : w.skipGutter cs spans = .ok v) : w.index < v.index := by
  unfold skipGutter at h
  split at h
  · obtain ⟨blanks, -, h⟩ := exists_of_bind_ok h
    obtain ⟨cut, -, rfl⟩ := exists_of_map_ok h
    exact Nat.lt_trans (Nat.lt_succ_self _) (Nat.lt_succ_self _)
  · cases h
    exact Nat.lt_succ_self _

/-- How many steps may still be made without going on to the next token. -/
def rank : Option Place → Nat
  | none => 0
  | some .body => 1
  | some _ => 2

/-- Every token is gone past, or leads to a place of lower rank. -/
theorem lt_of_read {rule? : Option Rule} (h : w.read cs spans rule? = .ok (some v)) :
    w.index < v.index ∨ v.index = w.index ∧ rank v.place? < rank w.place? := by
  unfold read at h
  split at h
  case h_1 => cases h
  -- the rows that go on to the next token at once
  case h_2 | h_3 | h_4 | h_5 | h_8 | h_10 =>
    cases h
    exact .inl (Nat.lt_succ_self _)
  -- the rows that stay: a closing marker, and text where the gutter may stand
  case h_7 hplace | h_9 hplace _ _ _ _ | h_11 hplace =>
    cases h
    refine .inr ⟨rfl, ?_⟩
    simp [hplace, rank, close, enter]
  -- the rows that look at the text: a star in the gutter, and text inside a line
  case h_6 =>
    obtain ⟨u, hskip, rfl⟩ := exists_of_map_some_ok h
    have hlt : w.index < u.index := index_lt_of_skipGutter hskip
    exact .inl hlt
  case h_12 =>
    obtain ⟨chars, -, rfl⟩ := exists_of_map_some_ok h
    exact .inl (Nat.lt_succ_self _)

/-- The tokens ahead, and the rank of the place. -/
def ahead (spans : List Span) (w : Walker) : Nat ×ₗ Nat :=
  toLex (spans.length - w.index, rank w.place?)

/-- A step leaves fewer tokens ahead, or as many with the walk at a later place. -/
theorem ahead_lt_of_steps (h : Steps cs spans w v) : v.ahead spans < w.ahead spans := by
  unfold Steps step at h
  split at h
  · next hindex =>
    split at h
    · cases h
    · rw [ahead, ahead, Prod.Lex.toLex_lt_toLex]
      rcases lt_of_read h with hlt | ⟨heq, hrank⟩
      · exact .inl (by omega)
      · exact .inr ⟨by rw [heq], hrank⟩
  · cases h

/-- The walk over any text and spans ends, also where they do not fit each other. -/
theorem wellFounded_steps (cs : List Char) (spans : List Span) :
    WellFounded fun v w => Steps cs spans w v :=
  Subrelation.wf ahead_lt_of_steps (InvImage.wf (ahead spans) wellFounded_lt)

end

end Walker

/-! ### On the tokens of a text no step goes wrong -/

def spansOf (ts : List Token) : List Span := spansFrom 0 (ts.map Token.segment)

/-- Tokens of a text: what their rules match, one behind the other. -/
structure Tokenized (cs : List Char) (ts : List Token) : Prop where
  chars : ts.flatMap Token.chars = cs
  matched : ∀ t ∈ ts, t.rule.pattern.Matches t.chars

/-- The tokenizer gives tokens of the text: their rules match them, and together they are the text.
-/
theorem tokenized_tokens (cs : List Char) : Tokenized cs (tokens cs) where
  chars := chars_scan false cs
  matched _ ht := (longestMatch_tokens cs).matches_of_mem (List.mem_map_of_mem ht) rfl

namespace Tokenized

variable {cs : List Char} {ts : List Token}

/-- The spans of tokens cut exactly these tokens out of the text. -/
theorem slices (h : Tokenized cs ts) :
    (spansOf ts).map (fun span => (span.rule?, slice cs span.start span.stop)) =
      ts.map fun t => (some t.rule, .ok t.chars) := by
  have hchars : (ts.map Token.segment).flatMap Segment.chars = cs := by
    rw [← h.chars]
    exact List.flatMap_map ..
  have hslices := slices_spansFrom [] (ts.map Token.segment)
  rw [List.nil_append, hchars, List.map_map] at hslices
  exact hslices

theorem length_spansOf (h : Tokenized cs ts) : (spansOf ts).length = ts.length := by
  simpa using congrArg List.length h.slices

/-- At the index of a token there is a span, and it cuts the token out of the text. -/
theorem exists_span (h : Tokenized cs ts) {i : Nat} {t : Token} (ht : ts[i]? = some t) :
    ∃ start stop, (spansOf ts)[i]? = some ⟨some t.rule, start, stop⟩ ∧
      slice cs start stop = .ok t.chars := by
  have hslice := congrArg (·[i]?) h.slices
  simp only [List.getElem?_map, ht, Option.map_some] at hslice
  obtain ⟨⟨rule?, start, stop⟩, hspan, heq⟩ := Option.map_eq_some_iff.1 hslice
  obtain ⟨rfl, hcut⟩ := Prod.mk.inj heq
  exact ⟨start, stop, hspan, hcut⟩

end Tokenized

theorem drop_eq_cons {ts : List Token} {i : Nat} {t : Token} (h : ts[i]? = some t) :
    ts.drop i = t :: ts.drop (i + 1) := by
  obtain ⟨hi, rfl⟩ := List.getElem?_eq_some_iff.1 h
  exact List.drop_eq_getElem_cons hi

namespace Walker

/-- The lines that are read, and those that the walk over the remaining tokens gives. -/
def reading (ts : List Token) (w : Walker) : List Line :=
  match w.place? with
  | none => w.allLines
  | some place => w.lines ++ walk place w.line (ts.drop w.index)

section

variable {cs : List Char} {ts : List Token} {t : Token} {w : Walker}

theorem current_eq (h : Tokenized cs ts) (ht : ts[w.index]? = some t) :
    w.current cs (spansOf ts) = .ok t.chars := by
  obtain ⟨start, stop, hspan, hslice⟩ := h.exists_span ht
  rw [current, hspan]
  exact hslice

theorem step_eq (h : Tokenized cs ts) (ht : ts[w.index]? = some t) :
    w.step cs (spansOf ts) = w.read cs (spansOf ts) (some t.rule) := by
  obtain ⟨start, stop, hspan, -⟩ := h.exists_span ht
  obtain ⟨hindex, -⟩ := List.getElem?_eq_some_iff.1 hspan
  rw [step, if_pos hindex, hspan]

/-- Blanks are cut behind their first character, which is one byte long. -/
theorem cutAt_one_blanks {b : List Char} (h : Rule.blanks.pattern.Matches b) :
    ∃ c, cutAt 1 b = .ok ([c], b.tail) := by
  obtain ⟨c, cs, rfl⟩ := List.exists_cons_of_ne_nil h.1
  have hgap : isGap c = true := h.2 c List.mem_cons_self
  have hbyte : byteLength [c] = 1 := by
    simp only [isGap, Bool.or_eq_true, beq_iff_eq] at hgap
    rcases hgap with (rfl | rfl) | rfl <;> rfl
  exact ⟨c, by rw [← hbyte]; exact cutAt_append [c] cs⟩

/-- Blanks behind the star of a gutter lose their first character, which is one byte long. -/
theorem skipGutter_blanks (h : Tokenized cs ts) {b : List Char}
    (hb : ts[w.index + 1]? = some (.blanks b)) :
    w.skipGutter cs (spansOf ts) = .ok (w.push b.tail).next.next := by
  obtain ⟨start, stop, hspan, -⟩ := h.exists_span hb
  have hmatched : Rule.blanks.pattern.Matches b := h.matched _ (List.mem_of_getElem? hb)
  obtain ⟨c, hcut⟩ := cutAt_one_blanks hmatched
  have hcurrent : w.next.current cs (spansOf ts) = .ok b := current_eq (w := w.next) h hb
  simp only [skipGutter, hspan, Token.rule, hcurrent, Except.bind, hcut]
  rfl

theorem skipGutter_other (h : Tokenized cs ts) (hb : ∀ b, ts[w.index + 1]? ≠ some (.blanks b)) :
    w.skipGutter cs (spansOf ts) = .ok w.next := by
  cases hnext : ts[w.index + 1]? with
  | none =>
    have hnone : (spansOf ts)[w.index + 1]? = none := by
      rw [List.getElem?_eq_none_iff, h.length_spansOf]
      exact List.getElem?_eq_none_iff.1 hnext
    rw [skipGutter, hnone]
  | some u =>
    obtain ⟨start, stop, hspan, -⟩ := h.exists_span hnext
    rw [skipGutter, hspan]
    cases u with
    | blanks b => exact absurd hnext (hb b)
    | _ => rfl

/-- Going past the gutter reads what the walk reads of it. -/
theorem exists_skipGutter (h : Tokenized cs ts) :
    ∃ v, w.skipGutter cs (spansOf ts) = .ok v ∧
      (v.enter .body).reading ts =
        w.lines ++ walk .lineStart w.line (.star :: ts.drop (w.index + 1)) := by
  -- one run of blanks behind the star belongs to the gutter
  by_cases hblanks : ∃ b, ts[w.index + 1]? = some (.blanks b)
  · obtain ⟨b, hb⟩ := hblanks
    refine ⟨_, skipGutter_blanks h hb, ?_⟩
    rw [drop_eq_cons hb, walk_lineStart_star_blanks]
    rfl
  · have hb : ∀ b, ts[w.index + 1]? ≠ some (.blanks b) := fun b hb => hblanks ⟨b, hb⟩
    refine ⟨_, skipGutter_other h hb, ?_⟩
    rw [walk_lineStart_star _ (by simpa using hb)]
    rfl

end

section

variable {cs : List Char} {spans : List Span} {ts after : List Token} {t : Token} {w : Walker}

/-- Before the comment opens, one step keeps what will have been read. -/
theorem exists_read_outside (hplace : w.place? = some .outside)
    (hdrop : ts.drop (w.index + 1) = after) :
    ∃ v, w.read cs spans (some t.rule) = .ok (some v) ∧
      v.reading ts = w.lines ++ walk .outside w.line (t :: after) := by
  cases t with
  | docOpen | blockOpen =>
    refine ⟨(w.enter .body).next, by simp [read, hplace, Token.rule], ?_⟩
    simp [reading, enter, next, hdrop, walk]
  | _ =>
    refine ⟨w.next, by simp [read, hplace, Token.rule], ?_⟩
    simp [reading, next, hdrop, hplace, walk]

/-- At the start of a line, one step keeps what will have been read. The gutter is given as a
hypothesis: it takes two tokens at once. -/
theorem exists_read_lineStart (hplace : w.place? = some .lineStart)
    (hdrop : ts.drop w.index = t :: after)
    (hstar : t = .star → ∃ v, w.skipGutter cs spans = .ok v ∧
      (v.enter .body).reading ts = w.lines ++ walk .lineStart w.line (.star :: after)) :
    ∃ v, w.read cs spans (some t.rule) = .ok (some v) ∧
      v.reading ts = w.lines ++ walk .lineStart w.line (t :: after) := by
  have hnext : ts.drop (w.index + 1) = after := by
    rw [← List.drop_drop, hdrop, List.drop_one, List.tail_cons]
  cases t with
  | blanks b =>
    refine ⟨w.next, by simp [read, hplace, Token.rule], ?_⟩
    simp [reading, next, hnext, hplace, walk]
  | star =>
    obtain ⟨v, hskip, hreading⟩ := hstar rfl
    exact ⟨v.enter .body, by simp [read, hplace, Token.rule, hskip, Except.map], hreading⟩
  | close =>
    refine ⟨w.close, by simp [read, hplace, Token.rule], ?_⟩
    simp [reading, close, finishLine, allLines, walk]
  | newline =>
    refine ⟨w.finishLine.next, by simp [read, hplace, Token.rule], ?_⟩
    simp [reading, next, finishLine, hnext, hplace, walk]
  | _ =>
    -- the token is read again from inside the line
    refine ⟨w.enter .body, by simp [read, hplace, Token.rule], ?_⟩
    simp [reading, enter, hdrop, walk]

/-- Inside of a line, all tokens but line ends and closing markers go to the line. -/
theorem read_body (hplace : w.place? = some .body) (hcurrent : w.current cs spans = .ok t.chars)
    (hnewline : t ≠ .newline) (hclose : t ≠ .close) :
    w.read cs spans (some t.rule) = .ok (some (w.push t.chars).next) := by
  cases t with
  | newline => exact absurd rfl hnewline
  | close => exact absurd rfl hclose
  | _ =>
    simp only [read, hplace, Token.rule, hcurrent]
    rfl

/-- Inside of a line, one step keeps what will have been read. -/
theorem exists_read_body (hplace : w.place? = some .body) (hdrop : ts.drop (w.index + 1) = after)
    (hcurrent : w.current cs spans = .ok t.chars) :
    ∃ v, w.read cs spans (some t.rule) = .ok (some v) ∧
      v.reading ts = w.lines ++ walk .body w.line (t :: after) := by
  by_cases hnewline : t = .newline
  · subst hnewline
    refine ⟨(w.finishLine.enter .lineStart).next, by simp [read, hplace, Token.rule], ?_⟩
    simp [reading, next, enter, finishLine, hdrop, walk]
  · by_cases hclose : t = .close
    · subst hclose
      refine ⟨w.close, by simp [read, hplace, Token.rule], ?_⟩
      simp [reading, close, finishLine, allLines, walk]
    · refine ⟨_, read_body hplace hcurrent hnewline hclose, ?_⟩
      simp [reading, next, push, hplace, hdrop, walk_body_cons _ _ hnewline hclose]

end

/-- No step goes wrong, and it keeps what has been read together with what the walk gives for the
rest. When the walk is over, that is all the lines. -/
theorem step_spec {cs : List Char} {ts : List Token} (h : Tokenized cs ts) (w : Walker) :
    (w.step cs (spansOf ts) = .ok none ∧ w.reading ts = w.allLines) ∨
      ∃ v, Steps cs (spansOf ts) w v ∧ v.reading ts = w.reading ts := by
  cases ht : ts[w.index]? with
  | none =>
    have hindex : ts.length ≤ w.index := List.getElem?_eq_none_iff.1 ht
    -- past the last token there is no step
    refine .inl ⟨by rw [step, h.length_spansOf, if_neg (Nat.not_lt.2 hindex)], ?_⟩
    cases hplace : w.place? with
    | none => rw [reading, hplace]
    | some place =>
      simp only [reading, hplace, List.drop_eq_nil_of_le hindex, walk_nil, allLines, finishLine]
      split <;> simp
  | some t =>
    have hdrop : ts.drop w.index = t :: ts.drop (w.index + 1) := drop_eq_cons ht
    simp only [Steps, step_eq h ht]
    cases hplace : w.place? with
    | none => exact .inl ⟨by simp [read, hplace], by rw [reading, hplace]⟩
    | some place =>
      refine .inr ?_
      simp only [reading.eq_def ts w, hplace, hdrop]
      -- one lemma for each place at which a token is read
      cases place with
      | outside => exact exists_read_outside hplace rfl
      | lineStart =>
        refine exists_read_lineStart hplace hdrop ?_
        rintro rfl
        exact exists_skipGutter h
      | body => exact exists_read_body hplace rfl (current_eq h ht)

/-- Every walk comes to its end, with the lines that it gives from where it starts. -/
theorem exists_end {cs : List Char} {ts : List Token} (h : Tokenized cs ts) (w : Walker) :
    ∃ v, Relation.ReflTransGen (Steps cs (spansOf ts)) w v ∧
      v.step cs (spansOf ts) = .ok none ∧ v.allLines = w.reading ts := by
  induction w using (wellFounded_steps cs (spansOf ts)).induction with
  | _ w ih =>
    rcases step_spec h w with ⟨hover, hreading⟩ | ⟨v, hstep, hreading⟩
    · exact ⟨w, .refl, hover, hreading.symm⟩
    · obtain ⟨u, hrun, hover, hlines⟩ := ih v hstep
      exact ⟨u, .head hstep hrun, hover, hlines.trans hreading⟩

/-- The walk by position over a text and its spans is safe and ends with the given lines. -/
structure Safe (cs : List Char) (spans : List Span) (lines : List Line) : Prop where
  /-- Wherever a walk stands, its next step does not go wrong. -/
  step : ∀ w : Walker, ∃ next?, w.step cs spans = .ok next?
  /-- No walk goes on for ever. -/
  wellFounded : WellFounded fun v w => Steps cs spans w v
  /-- The walk from the start is over at some time, and then has the lines. -/
  ends : ∃ w, Relation.ReflTransGen (Steps cs spans) start w ∧ w.step cs spans = .ok none ∧
    w.allLines = lines

/-- The walk by position is safe and reads the lines that the walk over the tokens reads: every step
keeps what will have been read, and there is one as long as tokens are ahead. -/
theorem safe_spansOf {cs : List Char} {ts : List Token} (h : Tokenized cs ts) :
    Safe cs (spansOf ts) (walk .outside [] ts) where
  step w := by
    rcases step_spec h w with ⟨hover, -⟩ | ⟨v, hstep, -⟩
    · exact ⟨none, hover⟩
    · exact ⟨some v, hstep⟩
  wellFounded := wellFounded_steps cs (spansOf ts)
  ends := exists_end h start

end Walker

/-- **A comment is cut without loss and walked safely.** There is one way to cut it by longest
match, and that gives its tokens. Each segment has a rule and is what its span cuts out, together
they are the text again, and no two runs of one class stand side by side. The walk by position over
them is safe and ends with the lines of the walk. -/
theorem tokens_walked (raw : List Char) :
    ∃ segments, (∀ others, LongestMatch raw others ↔ others = segments) ∧
      segments = (tokens raw).map Token.segment ∧
      (∀ s ∈ segments, s.rule? ≠ none) ∧
      segments.flatMap Segment.chars = raw ∧
      (spansFrom 0 segments).map (fun span => slice raw span.start span.stop) =
        segments.map (fun s => .ok s.chars) ∧
      segments.IsChain (fun s s' => ¬s.Joins s') ∧
      Walker.Safe raw (spansFrom 0 segments) (walk .outside [] (tokens raw)) := by
  have hmatch := longestMatch_tokens raw
  have htokens := tokenized_tokens raw
  refine ⟨_, fun _ => longestMatch_iff, rfl, ?_, hmatch.chars, ?_, hmatch.isChain,
    Walker.safe_spansOf htokens⟩
  · intro s hs
    obtain ⟨t, -, rfl⟩ := List.mem_map.1 hs
    exact Option.some_ne_none _
  -- only the texts of the spans are asked for here, not their rules
  · have hcut := congrArg (List.map Prod.snd) htokens.slices
    rw [List.map_map, List.map_map] at hcut
    rw [List.map_map]
    exact hcut

end RefPages.Comment
