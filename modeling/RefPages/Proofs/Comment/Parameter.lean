import RefPages.Proofs.Comment.Braces
import RefPages.Proofs.Comment.LineByLine

/-!
# Parameters in comments

The text of a parameter tag is read in three steps: the type in braces is dropped, the first word is
the name, and what stands behind it, without a dash, is the text.

    {Record<string, {a: 1}>} map - All.      map     All.
    count - How many.                        count   How many.
    [count=2] How many.                      count   How many.
    [count=1 + 1] How many.                  count   + 1] How many.

A default belongs to the first word, so only what has no blanks in it is cut off as a default.
-/

namespace RefPages.Comment

open Text

/-! ### Trimming around a character -/

/-- Dropping at the end stops at a character that is kept. -/
theorem dropWhile_end_append_cons {α : Type} {p : α → Bool} {x : α} (hx : p x = false)
    (xs ys : List α) :
    ((xs ++ x :: ys).reverse.dropWhile p).reverse =
      xs ++ x :: (ys.reverse.dropWhile p).reverse := by
  have hstop : (x :: xs.reverse).dropWhile p = x :: xs.reverse :=
    List.dropWhile_cons_of_neg (by simp [hx])
  rw [List.reverse_append, List.reverse_cons, List.append_assoc, List.singleton_append,
    List.dropWhile_append]
  split
  · next hempty =>
    rw [List.isEmpty_iff] at hempty
    simp [hempty, hstop]
  · simp

/-- Trimming does not go past a character that is no blank. -/
theorem trimEnd_append_cons {c : Char} (hc : isBlank c = false) (xs ys : List Char) :
    trimEnd (xs ++ c :: ys) = xs ++ c :: trimEnd ys :=
  dropWhile_end_append_cons hc xs ys

theorem trimStart_append_cons {c : Char} (hc : isBlank c = false) (xs ys : List Char) :
    trimStart (xs ++ c :: ys) = trimStart xs ++ c :: ys := by
  rw [trimStart, List.dropWhile_append, List.dropWhile_cons_of_neg (by simp [hc])]
  split
  · next hempty => rw [trimStart, List.isEmpty_iff.1 hempty, List.nil_append]
  · rfl

theorem trimStart_trimStart (cs : List Char) : trimStart (trimStart cs) = trimStart cs := by
  refine dropWhile_of_head? fun c hc => ?_
  have hstop := List.head?_dropWhile_not isBlank cs
  rw [← trimStart, Option.mem_def.1 hc] at hstop
  simpa using hstop

theorem trim_trimStart (cs : List Char) : trim (trimStart cs) = trim cs := by
  rw [trim, trimStart_trimStart, trim]

theorem trim_of_word {w : List Char} (hw : ∀ c ∈ w, isBlank c = false) : trim w = w := by
  have hstart : trimStart w = w := dropWhile_of_head? fun c hc => hw c (List.mem_of_head? hc)
  rw [trim, hstart]
  exact trimEnd_of_getLast? fun c hc => hw c (List.mem_of_getLast? hc)

theorem head?_trim (cs : List Char) : (trim cs).head? = (trimStart cs).head? := by
  rw [trim]
  cases hcs : trimStart cs with
  | nil => rfl
  | cons c rest =>
    have hc : isBlank c = false := by
      have hstop := List.head?_dropWhile_not isBlank cs
      rw [← trimStart, hcs] at hstop
      simpa using hstop
    have hend := trimEnd_append_cons hc [] rest
    rw [List.nil_append, List.nil_append] at hend
    rw [hend]
    rfl

/-! ### Written parameters -/

variable {cs type name text : List Char}

/-- A name that a parameter can have. -/
structure IsParamName (name : List Char) : Prop where
  ne_nil : name ≠ []
  blank : ∀ c ∈ name, isBlank c = false
  equals : '=' ∉ name
  opening : name.head? ≠ some '['
  closing : name.getLast? ≠ some ']'

instance (name : List Char) : Decidable (IsParamName name) :=
  decidable_of_iff (name ≠ [] ∧ (name.all fun c => !isBlank c) = true ∧ '=' ∉ name ∧
      name.head? ≠ some '[' ∧ name.getLast? ≠ some ']')
    ⟨fun ⟨h₁, h₂, h₃, h₄, h₅⟩ => ⟨h₁, by simpa using h₂, h₃, h₄, h₅⟩,
      fun ⟨h₁, h₂, h₃, h₄, h₅⟩ => ⟨h₁, by simpa using h₂, h₃, h₄, h₅⟩⟩

def dashed (name text : List Char) : List Char := name ++ ' ' :: '-' :: ' ' :: text

def typed (type body : List Char) : List Char := '{' :: type ++ '}' :: ' ' :: body

/-- A name with a default in brackets, and a text. -/
def optional (name default text : List Char) : List Char :=
  '[' :: name ++ '=' :: default ++ ']' :: ' ' :: text

theorem dropWhile_eq_self {c : Char} (h : cs.head? ≠ some c) : cs.dropWhile (· == c) = cs := by
  refine dropWhile_of_head? fun d hd => ?_
  rw [beq_eq_false_iff_ne]
  rintro rfl
  exact h hd

theorem ne_of_notMem {c : Char} (h : c ∉ cs) : ∀ d ∈ cs, (d != c) = true := by
  intro d hd
  rw [bne_iff_ne]
  rintro rfl
  exact h hd

/-- A name is not changed by looking for brackets and defaults in it. -/
theorem paramName_of_name (h : IsParamName name) : paramName name = name := by
  have hclosing : (name.reverse.dropWhile (· == ']')).reverse = name := by
    rw [dropWhile_eq_self (by rw [List.head?_reverse]; exact h.closing), List.reverse_reverse]
  have hequals : name.takeWhile (· != '=') = name :=
    List.takeWhile_eq_self_iff.2 (ne_of_notMem h.equals)
  rw [paramName, dropWhile_eq_self h.opening, hclosing, hequals, trim_of_word h.blank]

/-- Of a name in brackets, what follows an equals sign is cut off. -/
theorem paramName_bracket (hblank : ∀ c ∈ name, isBlank c = false) (hequals : '=' ∉ name)
    (hopening : name.head? ≠ some '[') (more : List Char) :
    paramName ('[' :: name ++ '=' :: more) = name := by
  have hopening' : ('[' :: name ++ '=' :: more).dropWhile (· == '[') = name ++ '=' :: more := by
    rw [List.cons_append, List.dropWhile_cons_of_pos (by simp)]
    refine dropWhile_eq_self ?_
    cases name with
    | nil => simp
    | cons c cs => exact hopening
  rw [paramName, hopening', dropWhile_end_append_cons (by decide),
    List.takeWhile_append_of_pos (ne_of_notMem hequals), List.takeWhile_cons_of_neg (by simp),
    List.append_nil, trim_of_word hblank]

/-- What is read of a first word and of what follows it. -/
theorem paramOfBody?_of_word {body word : List Char}
    (hbody : dropType (trimStart body) = some (word ++ text))
    (hword : ∀ c ∈ word, isBlank c = false) (htext : ∀ c ∈ text.head?, isBlank c = true) :
    paramOfBody? body = nameAndText word text := by
  have hkept : ∀ c ∈ word, (!isBlank c) = true := fun c hc => by rw [hword c hc]; rfl
  have hdrop : text.dropWhile (fun c => !isBlank c) = text :=
    dropWhile_of_head? fun c hc => by rw [htext c hc]; rfl
  have htake : text.takeWhile (fun c => !isBlank c) = [] := by
    cases text with
    | nil => rfl
    | cons c text => exact List.takeWhile_cons_of_neg (by simp [htext c rfl])
  rw [paramOfBody?_eq, hbody, Option.bind_some, List.takeWhile_append_of_pos hkept,
    List.dropWhile_append_of_pos hkept, hdrop, htake, List.append_nil]

/-- If the first word gives a name, the text is what follows it without a dash and blanks. -/
theorem nameAndText_of_name {word : List Char} (hname : paramName word = name) (hne : name ≠ [])
    (text : List Char) : nameAndText word text = some (name, trim (afterDash text)) := by
  rw [nameAndText, hname, if_neg (by simpa using hne)]

theorem trimStart_dashed (h : IsParamName name) (text : List Char) :
    trimStart (dashed name text) = dashed name text := by
  refine dropWhile_of_head? fun c hc => ?_
  obtain ⟨d, ds, hd⟩ := List.exists_cons_of_ne_nil h.ne_nil
  obtain rfl : d = c := by simpa [dashed, hd] using hc
  exact h.blank d (hd ▸ List.mem_cons_self)

/-- A balanced type in braces is dropped, and what follows it is left. -/
theorem dropType_typed (htype : Balanced type) (body : List Char) :
    dropType (typed type body) = some (trimStart body) := by
  show (afterBraces 1 (type ++ '}' :: ' ' :: body)).map trimStart = _
  rw [afterBraces_balanced htype]
  rfl

/-- A dash before the text is dropped. -/
theorem paramOfBody?_of_dashed {body : List Char} (h : IsParamName name)
    (hbody : dropType (trimStart body) = some (dashed name text)) :
    paramOfBody? body = some (name, trim text) := by
  have htext : trim (afterDash (' ' :: '-' :: ' ' :: text)) = trim text := trim_trimStart text
  rw [paramOfBody?_of_word hbody h.blank (by rintro c ⟨⟩; rfl),
    nameAndText_of_name (paramName_of_name h) h.ne_nil, htext]

/-- With a balanced type, a name and a text are read back. -/
theorem paramOfBody?_typed (htype : Balanced type) (h : IsParamName name) (text : List Char) :
    paramOfBody? (typed type (dashed name text)) = some (name, trim text) := by
  refine paramOfBody?_of_dashed h ?_
  show dropType (typed type (dashed name text)) = _
  rw [dropType_typed htype, trimStart_dashed h]

/-- Without a type they are read back too, unless the name would open one. -/
theorem paramOfBody?_dashed (h : IsParamName name) (hbrace : name.head? ≠ some '{')
    (text : List Char) : paramOfBody? (dashed name text) = some (name, trim text) := by
  refine paramOfBody?_of_dashed h ?_
  rw [trimStart_dashed h]
  refine dropType_of_head? ?_
  obtain ⟨c, cs, rfl⟩ := List.exists_cons_of_ne_nil h.ne_nil
  exact hbrace

/-- A brace that is never closed makes the whole tag unreadable. -/
theorem paramOfBody?_unbalanced {body : List Char} (hbody : trimStart body = '{' :: cs)
    (hopen : ∀ before, before <+: cs → before.count '}' ≤ before.count '{') :
    paramOfBody? body = none := by
  have hnone : afterBraces 1 cs = none :=
    (afterBraces_eq_none_iff 0 cs).2 (staysOpen_one_iff.2 hopen)
  rw [paramOfBody?_eq, hbody, dropType, hnone]
  rfl

/-- The first tag for a name is the one that counts. -/
theorem param?_of_first {c : Comment} {before after : List Tag} {t : Tag}
    (htags : c.tags = before ++ t :: after) (ht : t.name = paramTag)
    (hbody : paramOfBody? t.body = some (name, text))
    (hfirst : ∀ u ∈ before, u.name = paramTag → ∀ p ∈ paramOfBody? u.body, p.1 ≠ name) :
    c.param? (String.ofList name) = some (String.ofList text) := by
  have hbefore : ((before.filter fun u => u.name == paramTag).filterMap fun u =>
      paramOfBody? u.body).find? (fun p => p.1 == name) = none := by
    rw [List.find?_eq_none]
    intro p hp
    obtain ⟨u, hu, hup⟩ := List.mem_filterMap.1 hp
    obtain ⟨hu, hname⟩ := List.mem_filter.1 hu
    simpa using hfirst u hu (by simpa using hname) p hup
  have htag : (t.name == paramTag) = true := by rw [ht, beq_self_eq_true]
  rw [param?, htags, List.filter_append, List.filterMap_append, List.filter_cons, if_pos htag,
    List.filterMap_cons, hbody, String.toList_ofList, List.find?_append, hbefore, Option.none_or,
    List.find?_cons_of_pos (by simp)]
  rfl

/-- **Types in braces and dashes are read as they are written.** A name behind a type whose braces
are balanced, or without a type, and a text behind a dash are read back, whatever the type and the
text are. Reading by position never fails: the counter of open braces stays above zero, and all
positions lie in the body and between two characters. A body that starts with a brace that nothing
closes gives no parameter. In a comment, the first tag that gives a name gives its text. -/
theorem param_written :
    (∀ type name text, Balanced type → IsParamName name →
      paramOfBody? (typed type (dashed name text)) = some (name, trim text)) ∧
    (∀ name text, IsParamName name → name.head? ≠ some '{' →
      paramOfBody? (dashed name text) = some (name, trim text)) ∧
    (∀ body, readByPosition body = .ok (paramOfBody? body)) ∧
    (∀ body cs, trimStart body = '{' :: cs →
      (∀ before, before <+: cs → before.count '}' ≤ before.count '{') →
      paramOfBody? body = none) ∧
    ∀ (c : Comment) (before after : List Tag) (t : Tag) (name text : List Char),
      c.tags = before ++ t :: after → t.name = paramTag →
      paramOfBody? t.body = some (name, text) →
      (∀ u ∈ before, u.name = paramTag → ∀ p ∈ paramOfBody? u.body, p.1 ≠ name) →
      c.param? (String.ofList name) = some (String.ofList text) :=
  ⟨fun _ _ text htype hname => paramOfBody?_typed htype hname text,
    fun _ text hname hbrace => paramOfBody?_dashed hname hbrace text,
    readByPosition_eq,
    fun _ _ hbody hopen => paramOfBody?_unbalanced hbody hopen,
    fun _ _ _ _ _ _ htags ht hbody hfirst => param?_of_first htags ht hbody hfirst⟩

def nestedType : List Char := "Record<string, \x7ba: \x7b\x7d\n\x7d>".toList

/-- The tag of a parameter of that type, behind one with a brace that stays open. -/
def nestedTags : List Tag :=
  [⟨paramTag, ["\x7ba map - One.".toList]⟩,
    ⟨paramTag,
      ["\x7bRecord<string, \x7ba: \x7b\x7d".toList, "\x7d>\x7d map - All of \x7b.".toList]⟩]

theorem param_written_nested :
    Balanced nestedType ∧ IsParamName "map".toList ∧
      paramOfBody? (typed nestedType (dashed "map".toList " All of \x7b. ".toList)) =
        some ("map".toList, "All of \x7b.".toList) ∧
      paramOfBody? (dashed "map".toList "- All.".toList) =
        some ("map".toList, "- All.".toList) ∧
      paramOfBody? " \x7ba map - One.".toList = none ∧
      (Comment.mk [] [] nestedTags).param? "map" = some "All of \x7b." := by
  obtain ⟨htyped, hdashed, -, hunbalanced, hfirst⟩ := param_written
  have htype : Balanced nestedType := by decide
  have hname : IsParamName "map".toList := by decide
  -- one brace stays open along the whole tag
  have hopen : paramOfBody? " \x7ba map - One.".toList = none := by
    refine hunbalanced _ "a map - One.".toList rfl ?_
    simpa using (show Balanced "a map - One.".toList by decide).before
  refine ⟨htype, hname, htyped _ _ _ htype hname, hdashed _ _ hname (by decide), hopen, ?_⟩
  have hbody : paramOfBody? (nestedTags[1].body) = some ("map".toList, "All of \x7b.".toList) :=
    htyped nestedType "map".toList "All of \x7b.".toList htype hname
  refine hfirst _ [nestedTags[0]] [] nestedTags[1] _ _ rfl rfl hbody ?_
  intro u hu _ p hp
  obtain rfl := List.mem_singleton.1 hu
  have hnone : paramOfBody? nestedTags[0].body = none := by decide
  rw [hnone] at hp
  cases hp

/-! ### Parameters with a default -/

/-- What stands behind the first word of a default and its closing bracket. -/
def leftover (default : List Char) : List Char :=
  (default ++ [']']).dropWhile fun c => !isBlank c

/-- Nothing of a default is left over if and only if no blank is in it. -/
theorem leftover_eq_nil_iff {default : List Char} :
    leftover default = [] ↔ ∀ c ∈ default, isBlank c = false := by
  rw [leftover, List.dropWhile_eq_nil_iff]
  simp [or_imp, forall_and, show isBlank ']' = false by decide]

/-- What is left over ends in the closing bracket. -/
theorem exists_leftover {default : List Char} (h : leftover default ≠ []) :
    ∃ cs, leftover default = cs ++ [']'] := by
  obtain ⟨cs, c, hcs⟩ := (List.eq_nil_or_concat' _).resolve_left h
  obtain ⟨word, hword⟩ := List.dropWhile_suffix (l := default ++ [']']) fun c => !isBlank c
  rw [← leftover, hcs, ← List.append_assoc] at hword
  obtain ⟨-, rfl⟩ := List.append_singleton_inj.1 hword
  exact ⟨cs, hcs⟩

/-- The text of an optional parameter starts with what is left over of its default. -/
theorem paramOfBody?_optional (h : IsParamName name) (default text : List Char) :
    paramOfBody? (optional name default text) =
      some (name, trim (afterDash (leftover default ++ ' ' :: text))) := by
  -- the first word ends at the first blank of the default, or else at the bracket
  have hsplit : optional name default text =
      ('[' :: name ++ '=' :: (default ++ [']']).takeWhile fun c => !isBlank c) ++
        (leftover default ++ ' ' :: text) := by
    have hdefault : ((default ++ [']']).takeWhile fun c => !isBlank c) ++ leftover default =
        default ++ [']'] := List.takeWhile_append_dropWhile
    simp only [optional, List.cons_append, List.append_assoc]
    rw [← List.append_assoc _ (leftover default), hdefault]
    simp
  have hword : ∀ c ∈ '[' :: name ++ '=' :: (default ++ [']']).takeWhile fun c => !isBlank c,
      isBlank c = false := by
    intro c hc
    rcases List.mem_append.1 hc with hc | hc
    · rcases List.mem_cons.1 hc with rfl | hc
      · rfl
      · exact h.blank c hc
    · rcases List.mem_cons.1 hc with rfl | hc
      · rfl
      · simpa using List.mem_takeWhile_imp hc
  have htext : ∀ c ∈ (leftover default ++ ' ' :: text).head?, isBlank c = true := by
    intro c hc
    have hstop := List.head?_dropWhile_not (fun c => !isBlank c) (default ++ [']'])
    rw [← leftover] at hstop
    cases hleft : leftover default with
    | nil =>
      rw [hleft] at hc
      cases hc
      rfl
    | cons d ds =>
      rw [hleft] at hstop hc
      cases hc
      simpa using hstop
  rw [paramOfBody?_of_word (by rw [← hsplit]; rfl) hword htext,
    nameAndText_of_name (paramName_bracket h.blank h.equals h.opening _) h.ne_nil]

/-- Where no dash stands in front, only blanks are dropped. -/
theorem afterDash_of_head? (h : (trimStart cs).head? ≠ some '-') : afterDash cs = trimStart cs := by
  unfold afterDash
  split
  · next hcs => exact absurd (by rw [hcs]; rfl) h
  · rfl

/-- A dash is dropped only before everything else. -/
theorem exists_afterDash {c : Char} (hblank : isBlank c = false) (hdash : c ≠ '-')
    (cs more : List Char) : ∃ ds, afterDash (cs ++ c :: more) = ds ++ c :: more := by
  unfold afterDash
  rw [trimStart_append_cons hblank]
  cases trimStart cs with
  | nil =>
    rw [List.nil_append]
    split
    -- the dash, when there is one, stands in front of the character and not at it
    · next heq => exact absurd (List.cons.inj heq).1 hdash
    · exact ⟨[], rfl⟩
  | cons d ds =>
    rw [List.cons_append]
    split
    · next heq =>
      obtain ⟨-, rfl⟩ := List.cons.inj heq
      exact ⟨trimStart ds, trimStart_append_cons hblank ds more⟩
    · exact ⟨d :: ds, rfl⟩

/-- Nothing of a default is left over just if the text is read as it was written. -/
theorem trim_leftover_eq_iff {default : List Char} (hdash : (trim text).head? ≠ some '-') :
    trim (afterDash (leftover default ++ ' ' :: text)) = trim text ↔ leftover default = [] := by
  have hblank : trim (' ' :: text) = trim text := rfl
  constructor
  · intro heq
    by_contra hleft
    obtain ⟨cs, hcs⟩ := exists_leftover hleft
    obtain ⟨ds, hds⟩ := exists_afterDash (show isBlank ']' = false by decide) (by decide) cs
      (' ' :: text)
    -- what is left over ends in the bracket, so it makes the text longer
    have hlong : trim (afterDash (leftover default ++ ' ' :: text)) =
        trimStart ds ++ ']' :: trimEnd (' ' :: text) := by
      rw [hcs, List.append_assoc, List.singleton_append, hds, trim,
        trimStart_append_cons (by decide), trimEnd_append_cons (by decide)]
    -- the text is at most as long as what stands behind the bracket
    have hshort : (trim text).length ≤ (trimEnd (' ' :: text)).length := by
      rw [← hblank, ← trimStart_trimEnd]
      exact (List.dropWhile_suffix _).length_le
    rw [← heq, hlong, List.length_append, List.length_cons] at hshort
    omega
  · intro hleft
    have hhead : (trimStart (' ' :: text)).head? ≠ some '-' := by
      rw [← head?_trim, hblank]
      exact hdash
    rw [hleft, List.nil_append, afterDash_of_head? hhead, trim_trimStart, hblank]

/-- **A default is cut off as far as the first word reaches.** The name of a parameter in brackets
is read whatever its default is. What stands behind the first word of the default becomes a part of
the text, with the closing bracket, so the text is read as it was written just if the default has no
blanks in it. -/
theorem param_default {name : List Char} (h : IsParamName name) (default text : List Char) :
    paramOfBody? (optional name default text) =
        some (name, trim (afterDash (leftover default ++ ' ' :: text))) ∧
      ((trim text).head? ≠ some '-' →
        (paramOfBody? (optional name default text) = some (name, trim text) ↔
          ∀ c ∈ default, isBlank c = false)) := by
  refine ⟨paramOfBody?_optional h default text, fun hdash => ?_⟩
  rw [paramOfBody?_optional h, Option.some_inj, Prod.mk.injEq, and_iff_right rfl,
    trim_leftover_eq_iff hdash, leftover_eq_nil_iff]

theorem param_default_word :
    IsParamName "scale".toList ∧
      paramOfBody? (optional "scale".toList "x=>x*2".toList " How to scale. ".toList) =
        some ("scale".toList, "How to scale.".toList) := by
  have hname : IsParamName "scale".toList := by decide
  have hword : ∀ c ∈ "x=>x*2".toList, isBlank c = false := by
    simpa using (show ("x=>x*2".toList.all fun c => !isBlank c) = true by decide)
  exact ⟨hname, ((param_default hname _ _).2 (by decide)).2 hword⟩

/-- A default of three words. -/
theorem param_default_torn :
    IsParamName "count".toList ∧ ']' ∉ "1 + 1".toList ∧
      (trim "How many.".toList).head? ≠ some '-' ∧
      paramOfBody? (optional "count".toList "1 + 1".toList "How many.".toList) =
        some ("count".toList, "+ 1] How many.".toList) := by
  decide

end RefPages.Comment
