import RefPages.Comment.Lines
import RefPages.Proofs.Comment.Token

/-!
# Walking tokens

The walk over the tokens of a comment, one token at a time. Two facts carry all that is said about
it elsewhere:

* inside a line it makes no difference how the characters are cut into tokens, as long as no closing
  marker stands among them (`walk_body_scan`);
* a difference between two comments stays what it is when the same tokens stand before both
  (`walk_append_rel`).
-/

namespace RefPages.Comment

open Text

/-! ### One token at a time -/

section

variable (line : Line) (ts : List Token)

theorem walk_nil (place : Place) :
    walk place line [] = if line.isEmpty then [] else [trimEnd line] := by
  cases place <;> rfl

theorem walk_outside_docOpen : walk .outside line (.docOpen :: ts) = walk .body line ts := rfl

theorem walk_outside_blockOpen : walk .outside line (.blockOpen :: ts) = walk .body line ts := rfl

theorem walk_outside_cons {t : Token} (hdoc : t ≠ .docOpen) (hblock : t ≠ .blockOpen) :
    walk .outside line (t :: ts) = walk .outside line ts := by
  cases t with
  | docOpen => exact absurd rfl hdoc
  | blockOpen => exact absurd rfl hblock
  | _ => rfl

theorem walk_body_newline :
    walk .body line (.newline :: ts) = trimEnd line :: walk .lineStart [] ts := rfl

theorem walk_body_close : walk .body line (.close :: ts) = [trimEnd line] := rfl

theorem walk_body_cons {t : Token} (hnewline : t ≠ .newline) (hclose : t ≠ .close) :
    walk .body line (t :: ts) = walk .body (line ++ t.chars) ts := by
  cases t with
  | newline => exact absurd rfl hnewline
  | close => exact absurd rfl hclose
  | _ => rfl

theorem walk_lineStart_blanks (w : List Char) :
    walk .lineStart line (.blanks w :: ts) = walk .lineStart line ts := rfl

/-- The gutter takes at most one blank with it. -/
theorem walk_lineStart_star_blanks (w : List Char) :
    walk .lineStart line (.star :: .blanks w :: ts) = walk .body (line ++ w.tail) ts := rfl

variable {ts}

/-- A star at the start of a line opens the line where no blanks follow it. -/
theorem walk_lineStart_star (hblanks : ∀ w, ts.head? ≠ some (.blanks w)) :
    walk .lineStart line (.star :: ts) = walk .body line ts := by
  cases ts with
  | nil => rfl
  | cons t ts =>
    cases t with
    | blanks w => exact absurd rfl (hblanks w)
    | _ => rfl

/-- Only blanks and a star are read otherwise at the start of a line than inside it. -/
theorem walk_lineStart_of_head? (hblanks : ∀ w, ts.head? ≠ some (.blanks w))
    (hstar : ts.head? ≠ some .star) : walk .lineStart line ts = walk .body line ts := by
  cases ts with
  | nil => rfl
  | cons t ts =>
    cases t with
    | blanks w => exact absurd rfl (hblanks w)
    | star => exact absurd rfl hstar
    | _ => rfl

end

/-! ### One character at a time -/

/-- A blank goes to the open line, whatever run it belongs to. -/
theorem walk_body_consBlank (line : Line) (c : Char) (ts : List Token) :
    walk .body line (Token.consBlank c ts) = walk .body (line ++ [c]) ts := by
  fun_cases Token.consBlank c ts <;> simp [walk_body_cons, Token.chars]

theorem walk_body_consText (line : Line) (c : Char) (ts : List Token) :
    walk .body line (Token.consText c ts) = walk .body (line ++ [c]) ts := by
  fun_cases Token.consText c ts <;> simp [walk_body_cons, Token.chars]

/-- A blank at the start of a line is passed, whatever run it belongs to. -/
theorem walk_lineStart_consBlank (line : Line) (c : Char) (ts : List Token) :
    walk .lineStart line (Token.consBlank c ts) = walk .lineStart line ts := by
  fun_cases Token.consBlank c ts <;> rfl

theorem walk_outside_consBlank (line : Line) (c : Char) (ts : List Token) :
    walk .outside line (Token.consBlank c ts) = walk .outside line ts := by
  fun_cases Token.consBlank c ts <;> rfl

theorem walk_outside_consText (line : Line) (c : Char) (ts : List Token) :
    walk .outside line (Token.consText c ts) = walk .outside line ts := by
  fun_cases Token.consText c ts <;> rfl

/-- The gutter is a star and one blank after it. -/
theorem walk_gutter (line : Line) (c : Char) (ts : List Token) :
    walk .lineStart line (.star :: Token.consBlank c ts) = walk .body line ts := by
  fun_cases Token.consBlank c ts <;>
    simp [walk_lineStart_star_blanks, walk_body_cons, Token.chars]

/-! ### Many tokens -/

/-- Tokens of one line go to the open line with all their characters. -/
theorem walk_body_tokens {ts : List Token} (hnewline : .newline ∉ ts) (hclose : .close ∉ ts)
    (line : Line) (us : List Token) :
    walk .body line (ts ++ us) = walk .body (line ++ ts.flatMap Token.chars) us := by
  induction ts generalizing line with
  | nil => simp
  | cons t ts ih =>
    rw [List.mem_cons, not_or] at hnewline hclose
    rw [List.cons_append, walk_body_cons _ _ (Ne.symm hnewline.1) (Ne.symm hclose.1),
      ih hnewline.2 hclose.2, List.flatMap_cons, List.append_assoc]

/-- Inside a line all characters are text. It does not matter how they are cut into tokens: every
token but a line end and a closing marker adds just its characters. -/
theorem walk_body_scan {l : Line} {opened : Bool} (hnewline : '\n' ∉ l)
    (hunclosed : Unclosed opened l) (line : Line) (us : List Token) :
    walk .body line (Token.scan opened l ++ us) = walk .body (line ++ l) us := by
  have htokens : .newline ∉ Token.scan opened l := by
    intro hmem
    apply hnewline
    rw [← chars_scan opened l]
    exact List.mem_flatMap.2 ⟨.newline, hmem, List.mem_singleton.2 rfl⟩
  rw [walk_body_tokens htokens hunclosed, chars_scan]

/-- Characters of one line go to the open line, and the line end finishes it. -/
theorem walk_body_line {line l : Line} {opened : Bool} {cs : List Char} (hnewline : '\n' ∉ l)
    (hunclosed : Unclosed opened l) :
    walk .body line (Token.scan opened (l ++ '\n' :: cs)) =
      trimEnd (line ++ l) :: walk .lineStart [] (Token.scan false cs) := by
  rw [scan_append_newline, walk_body_scan hnewline hunclosed, walk_body_newline]

/-- The same tokens are put before two others: a relation between the lines that are read then holds
of all lines, if it holds wherever the walk may stand. The star at the start of a line is the one
token that looks at the token after it. -/
theorem walk_append_rel {R : List Line → List Line → Prop} {us vs : List Token}
    (hrefl : ∀ ls, R ls ls) (hcons : ∀ l {ls ms}, R ls ms → R (l :: ls) (l :: ms))
    (h : ∀ place line, R (walk place line us) (walk place line vs))
    (hstar : ∀ line, R (walk .lineStart line (.star :: us)) (walk .lineStart line (.star :: vs)))
    (place : Place) (line : Line) (ts : List Token) :
    R (walk place line (ts ++ us)) (walk place line (ts ++ vs)) := by
  -- only a star at the start of a line looks one token further
  fun_induction walk place line ts with
  | case1 place line _ => exact h place line
  | case2 place line _ => exact h place line
  | case3 line ts ih => simpa [walk] using ih
  | case4 line ts ih => simpa [walk] using ih
  | case5 line t ts hdoc hblock ih => simpa [walk] using ih
  | case6 place line ts hplace => simpa [walk] using hrefl _
  | case7 place line ts hplace ih => simpa [walk] using hcons _ ih
  | case8 line cs ts ih => simpa [walk] using ih
  | case9 line cs ts ih => simpa [walk] using ih
  | case10 line ts hblanks ih =>
    cases ts with
    | nil => exact hstar line
    | cons t ts =>
      have hhead : ∀ us w, (t :: (ts ++ us)).head? ≠ some (.blanks w) := by
        rintro us w ⟨⟩
        exact hblanks w ts rfl
      simp only [List.cons_append]
      rw [walk_lineStart_star line (hhead us), walk_lineStart_star line (hhead vs)]
      exact ih
  | case11 place line t ts _ _ houtside hclose hnewline hblanks _ hstar ih =>
    -- any other token goes to the line, from the start of a line or from inside it
    have hbody : ∀ us, walk place line (t :: us) = walk .body (line ++ t.chars) us := by
      intro us
      rw [← walk_body_cons _ _ hnewline hclose]
      cases place with
      | outside => exact absurd rfl houtside
      | lineStart =>
        refine walk_lineStart_of_head? line ?_ ?_
        · rintro w ⟨⟩
          exact hblanks w rfl rfl
        · rintro ⟨⟩
          exact hstar rfl rfl
      | body => rfl
    rw [List.cons_append, List.cons_append, hbody, hbody]
    exact ih

end RefPages.Comment
