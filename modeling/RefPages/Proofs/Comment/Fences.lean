import RefPages.Proofs.Comment.Removal

/-!
# Tags and fenced code

Comments are written in Markdown, where a block of code ends at a fence of its own character that is
at least as long as the one that opened it, with nothing behind it. A comment is read with less: any
line that starts with three of the characters opens a block or closes the open one.

    ````        opens a block of four          opens
    ```         is a line of the block         closes
    @default    is a line of the block         is a tag

So tags start where they should as long as no line is taken for a fence that is none where it stands
(`Misleads`). The first such line puts blocks and text in each other's place.
-/

namespace RefPages.Comment

open Text

/-! ### Where tags start -/

/-- The numbers of the lines that tags start at, the first one after the given number of lines. -/
def startsFrom : Nat → List Tag → List Nat
  | _, [] => []
  | n, t :: ts => n :: startsFrom (n + t.lines.length) ts

/-- The numbers of the lines that the tags of a comment start at. Every line belongs to the
description or to a tag. -/
def tagStarts (c : Comment) : List Nat := startsFrom c.description.length c.tags

/-- A line of the form of a tag: `@` and a name, and after the name a blank or nothing. -/
def IsTagLine (l : Line) : Prop :=
  ∃ name rest, trimStart l = '@' :: name ++ rest ∧ isTagName name = true ∧
    ∀ c ∈ rest.head?, isBlank c = true

/-- The lines that start a tag are the lines of the form of a tag. -/
theorem tagHead?_isSome_iff {l : Line} : (tagHead? l).isSome = true ↔ IsTagLine l := by
  constructor
  · intro h
    obtain ⟨⟨name, first⟩, hhead⟩ := Option.isSome_iff_exists.1 h
    obtain ⟨rest, hline, hname, hrest, -⟩ := tagHead?_eq_some hhead
    exact ⟨name, rest, hline, hname, hrest⟩
  · rintro ⟨name, rest, hline, hname, hrest⟩
    rw [tagHead?_of_trimStart hline hname hrest]
    rfl

instance (l : Line) : Decidable (IsTagLine l) := decidable_of_iff _ tagHead?_isSome_iff

theorem startsFrom_succ (n : Nat) (ts : List Tag) :
    startsFrom (n + 1) ts = (startsFrom n ts).map (· + 1) := by
  induction ts generalizing n with
  | nil => rfl
  | cons t ts ih => rw [startsFrom, startsFrom, Nat.add_right_comm, ih, List.map_cons]

theorem mem_startsFrom_succ {n i : Nat} {ts : List Tag} :
    i + 1 ∈ startsFrom (n + 1) ts ↔ i ∈ startsFrom n ts := by
  simp [startsFrom_succ]

theorem zero_notMem_startsFrom_succ (n : Nat) (ts : List Tag) : 0 ∉ startsFrom (n + 1) ts := by
  simp [startsFrom_succ]

/-- A tag starts at every line of its form with no open fence before it. -/
theorem mem_startsFrom_sections {opened : Option Fence} {ls : List Line} {i : Nat} :
    i ∈ startsFrom (sections opened ls).1.length (sections opened ls).2 ↔
      ∃ l ∈ ls[i]?, IsTagLine l ∧ Fence.afterAll opened (ls.take i) = none := by
  -- the fence that is open moves along with the lines
  induction ls generalizing opened i with
  | nil => simp [sections, startsFrom]
  | cons l ls ih =>
    rcases text_or_tag opened l with htext | ⟨name, first, rfl, hfence, hhead⟩
    · rw [sections_cons_text ls htext, List.length_cons]
      cases i with
      | zero =>
        refine iff_of_false (zero_notMem_startsFrom_succ _ _) ?_
        rintro ⟨_, ⟨⟩, htag, hopened⟩
        obtain ⟨⟨name, first⟩, hhead⟩ := Option.isSome_iff_exists.1 (tagHead?_isSome_iff.2 htag)
        have hnone : tagHead? l = none := htext ((fence_of_tagHead? hhead).trans hopened)
        simp [hhead] at hnone
      | succ i =>
        rw [mem_startsFrom_succ, ih]
        rfl
    · rw [sections_cons_tag ls hfence hhead, List.length_nil, startsFrom, List.length_cons,
        Nat.zero_add, List.mem_cons]
      cases i with
      | zero =>
        have htag : IsTagLine l := tagHead?_isSome_iff.1 (by simp [hhead])
        exact iff_of_true (.inl rfl) ⟨l, rfl, htag, rfl⟩
      | succ i =>
        rw [mem_startsFrom_succ, ih, List.take_succ_cons, Fence.afterAll, Fence.afterAll,
          List.foldl_cons, hfence]
        simp

/-! ### Blocks of Markdown -/

def Fence.char : Fence → Char
  | .backtick => '`'
  | .tilde => '~'

/-- The run of a fence's character that a line starts with, after its indentation. -/
def Fence.run (f : Fence) (l : Line) : List Char := (trimStart l).takeWhile (· == f.char)

def Fence.behind (f : Fence) (l : Line) : List Char := (trimStart l).dropWhile (· == f.char)

/-- An open block of code, with the fence that opened it. -/
structure Block where
  fence : Fence
  length : Nat
  three_le : 3 ≤ length
deriving DecidableEq, Repr

/-- The block that a line opens with a fence. Behind backticks no other backtick may follow: they
would be code inside of the line. -/
def Block.openedWith? (f : Fence) (l : Line) : Option Block :=
  if h : 3 ≤ (f.run l).length ∧ (f = .backtick → '`' ∉ f.behind l) then
    some ⟨f, (f.run l).length, h.1⟩
  else none

def Block.openedBy? (l : Line) : Option Block :=
  (Block.openedWith? .backtick l).or (Block.openedWith? .tilde l)

/-- A line closes a block if it is nothing but a fence of the block's character that is long
enough. -/
def Block.IsClosedBy (b : Block) (l : Line) : Prop :=
  b.length ≤ (b.fence.run l).length ∧ isBlankText (b.fence.behind l) = true

instance (b : Block) (l : Line) : Decidable (b.IsClosedBy l) :=
  inferInstanceAs (Decidable (_ ∧ _))

/-- The open block after a line, given the open block before it. -/
def Block.after : Option Block → Line → Option Block
  | none, l => Block.openedBy? l
  | some b, l => if b.IsClosedBy l then none else some b

def Block.afterAll (opened : Option Block) (ls : List Line) : Option Block :=
  ls.foldl Block.after opened

/-! ### Lines that mislead -/

theorem length_takeWhile_three {x : Char} {cs : List Char} :
    3 ≤ (cs.takeWhile (· == x)).length ↔ ∃ more, cs = x :: x :: x :: more := by
  constructor
  · intro h
    obtain ⟨rest, hrest⟩ := List.takeWhile_prefix (· == x) (l := cs)
    have hall : ∀ c ∈ cs.takeWhile (· == x), c = x := fun c hc => by
      simpa using List.mem_takeWhile_imp hc
    match hrun : cs.takeWhile (· == x) with
    | [] | [_] | [_, _] => simp [hrun] at h
    | a :: b :: c :: more =>
      rw [hrun] at hall hrest
      obtain ⟨rfl, rfl, rfl⟩ : a = x ∧ b = x ∧ c = x := by simp_all
      exact ⟨more ++ rest, hrest.symm⟩
  · rintro ⟨more, rfl⟩
    simp

/-- A line starts with a fence if three of its characters stand there. -/
theorem Fence.ofLine?_eq_some_iff {f : Fence} {l : Line} :
    Fence.ofLine? l = some f ↔ 3 ≤ (f.run l).length := by
  rw [Fence.run, length_takeWhile_three, Fence.ofLine?]
  cases f with
  | backtick => split <;> simp_all [Fence.char]
  | tilde => split <;> simp_all [Fence.char]

/-- A line is taken for a fence and is none where it stands: it opens no block, or it does not close
the open one. -/
def Misleads : Option Block → Line → Prop
  | none, l => (Fence.ofLine? l).isSome = true ∧ Block.openedBy? l = none
  | some b, l => Fence.ofLine? l = some b.fence ∧ ¬b.IsClosedBy l

instance Misleads.decidable : (opened : Option Block) → (l : Line) → Decidable (Misleads opened l)
  | none, l =>
    inferInstanceAs (Decidable ((Fence.ofLine? l).isSome = true ∧ Block.openedBy? l = none))
  | some b, l => inferInstanceAs (Decidable (Fence.ofLine? l = some b.fence ∧ ¬b.IsClosedBy l))

/-- No line misleads. -/
def Faithful : Option Block → List Line → Prop
  | _, [] => True
  | opened, l :: ls => ¬Misleads opened l ∧ Faithful (Block.after opened l) ls

instance Faithful.decidable : (opened : Option Block) → (ls : List Line) →
    Decidable (Faithful opened ls)
  | _, [] => inferInstanceAs (Decidable True)
  | opened, l :: ls =>
    have := Faithful.decidable (Block.after opened l) ls
    inferInstanceAs (Decidable (¬Misleads opened l ∧ Faithful (Block.after opened l) ls))

theorem Fence.after_none (l : Line) : Fence.after none l = Fence.ofLine? l := by
  cases hline : Fence.ofLine? l <;> simp only [Fence.after, hline]

/-- An open fence is closed by the next fence of its character, however long either is. -/
theorem Fence.after_some (f : Fence) (l : Line) :
    Fence.after (some f) l = if Fence.ofLine? l = some f then none else some f := by
  cases hline : Fence.ofLine? l with
  | none => simp [Fence.after, hline]
  | some g => by_cases hg : g = f <;> simp [Fence.after, hline, hg]

/-- A block is opened by nothing but a fence of its character. -/
theorem Block.ofLine?_of_openedBy? {b : Block} {l : Line} (h : Block.openedBy? l = some b) :
    Fence.ofLine? l = some b.fence := by
  -- the two fence characters share one reading
  have hwith : ∀ f, Block.openedWith? f l = some b → Fence.ofLine? l = some b.fence := by
    intro f hf
    unfold Block.openedWith? at hf
    split at hf
    · next hrun =>
      obtain rfl := Option.some.inj hf
      exact Fence.ofLine?_eq_some_iff.2 hrun.1
    · cases hf
  rcases Option.or_eq_some_iff.1 h with hbacktick | ⟨-, htilde⟩
  · exact hwith _ hbacktick
  · exact hwith _ htilde

/-- The line that closes a block is read as the block's fence. -/
theorem Block.IsClosedBy.ofLine? {b : Block} {l : Line} (h : b.IsClosedBy l) :
    Fence.ofLine? l = some b.fence :=
  Fence.ofLine?_eq_some_iff.2 (Nat.le_trans b.three_le h.1)

/-- One line: what is read agrees with the blocks, unless the line misleads. -/
theorem fence_after_of_not_misleads {opened : Option Block} {l : Line} (h : ¬Misleads opened l) :
    Fence.after (opened.map Block.fence) l = (Block.after opened l).map Block.fence := by
  -- a line misleads by opening the one and not the other, or by closing the one and not the other
  cases opened with
  | none =>
    rw [Option.map_none, Fence.after_none, Block.after]
    cases hopened : Block.openedBy? l with
    | none =>
      have hline : Fence.ofLine? l = none := by simpa [Misleads, hopened] using h
      rw [hline, Option.map_none]
    | some b => rw [Block.ofLine?_of_openedBy? hopened, Option.map_some]
  | some b =>
    rw [Option.map_some, Fence.after_some, Block.after]
    by_cases hclosed : b.IsClosedBy l
    · rw [if_pos hclosed.ofLine?, if_pos hclosed, Option.map_none]
    · have hline : Fence.ofLine? l ≠ some b.fence := fun hline => h ⟨hline, hclosed⟩
      rw [if_neg hline, if_neg hclosed, Option.map_some]

/-- After a line that misleads, a block is read where none is open and none where one is. -/
theorem fence_after_of_misleads {opened : Option Block} {l : Line} (h : Misleads opened l) :
    Fence.after (opened.map Block.fence) l = none ↔ Block.after opened l ≠ none := by
  cases opened with
  | none =>
    obtain ⟨hline, hopened⟩ := h
    obtain ⟨f, hf⟩ := Option.isSome_iff_exists.1 hline
    simp [Fence.after_none, Block.after, hopened, hf]
  | some b =>
    obtain ⟨hline, hclosed⟩ := h
    simp [Fence.after_some, Block.after, hline, hclosed]

/-- All lines: what is read agrees with the blocks as long as no line misleads. -/
theorem fence_afterAll_of_faithful {opened : Option Block} {ls : List Line}
    (h : Faithful opened ls) :
    Fence.afterAll (opened.map Block.fence) ls = (Block.afterAll opened ls).map Block.fence := by
  induction ls generalizing opened with
  | nil => rfl
  | cons l ls ih =>
    rw [Fence.afterAll, List.foldl_cons, fence_after_of_not_misleads h.1]
    exact ih h.2

theorem Fence.afterAll_concat (opened : Option Fence) (ls : List Line) (l : Line) :
    Fence.afterAll opened (ls ++ [l]) = Fence.after (Fence.afterAll opened ls) l :=
  List.foldl_concat ..

theorem Block.afterAll_concat (opened : Option Block) (ls : List Line) (l : Line) :
    Block.afterAll opened (ls ++ [l]) = Block.after (Block.afterAll opened ls) l :=
  List.foldl_concat ..

/-! ### Tags outside of blocks -/

/-- The tags start in the lines of their form at which no fence is open, by the fences as they are
read. -/
theorem mem_tagStarts_iff {ls : List Line} {i : Nat} : i ∈ (ofLines ls).tagStarts ↔
    ∃ l ∈ ls[i]?, IsTagLine l ∧ Fence.afterAll none (ls.take i) = none :=
  mem_startsFrom_sections

/-- **Tags start outside of fenced code, unless a line misleads.** A tag starts at every line of its
form at which no fence is open as fences are read. These are the lines outside of every block as
long as no line before them misleads, and after the first line that does, the lines inside of
one. -/
theorem tagStarts_outside_blocks (ls : List Line) :
    (∀ i, i ∈ (ofLines ls).tagStarts ↔
      ∃ l ∈ ls[i]?, IsTagLine l ∧ Fence.afterAll none (ls.take i) = none) ∧
    (∀ i, Faithful none (ls.take i) → (i ∈ (ofLines ls).tagStarts ↔
      ∃ l ∈ ls[i]?, IsTagLine l ∧ Block.afterAll none (ls.take i) = none)) ∧
    ∀ i, Faithful none (ls.take i) → (∃ m ∈ ls[i]?, Misleads (Block.afterAll none (ls.take i)) m) →
      (i + 1 ∈ (ofLines ls).tagStarts ↔
        ∃ l ∈ ls[i + 1]?, IsTagLine l ∧ Block.afterAll none (ls.take (i + 1)) ≠ none) := by
  refine ⟨fun i => mem_tagStarts_iff, fun i hfaithful => ?_, ?_⟩
  · have hopen := fence_afterAll_of_faithful hfaithful
    rw [Option.map_none] at hopen
    simp only [mem_tagStarts_iff, hopen, Option.map_eq_none_iff]
  · rintro i hfaithful ⟨m, hm, hmisleads⟩
    have hopen := fence_afterAll_of_faithful hfaithful
    rw [Option.map_none] at hopen
    have htake : ls.take (i + 1) = ls.take i ++ [m] := by
      rw [List.take_add_one, Option.mem_def.1 hm]
      rfl
    -- a line that misleads opens the one and not the other, or closes the one and not the other
    have hswapped : Fence.afterAll none (ls.take (i + 1)) = none ↔
        Block.afterAll none (ls.take (i + 1)) ≠ none := by
      rw [htake, Fence.afterAll_concat, Block.afterAll_concat, hopen]
      exact fence_after_of_misleads hmisleads
    simp only [mem_tagStarts_iff, hswapped]

/-- A fence of tildes inside a block of backticks is a line of the block. -/
def fencedLines : List Line :=
  ["One.", "```ts", "@Component()", "~~~", "```", "@see x"].map String.toList

theorem tagStarts_outside_blocks_fenced :
    Faithful none (fencedLines.take 5) ∧ 5 ∈ (ofLines fencedLines).tagStarts ∧
      Faithful none (fencedLines.take 2) ∧ 2 ∉ (ofLines fencedLines).tagStarts := by
  have hfive : Faithful none (fencedLines.take 5) := by decide +kernel
  have htwo : Faithful none (fencedLines.take 2) := by decide +kernel
  have hlaw := (tagStarts_outside_blocks fencedLines).2.1
  refine ⟨hfive, (hlaw 5 hfive).2 ?_, htwo, fun h => absurd ((hlaw 2 htwo).1 h) ?_⟩
  · decide +kernel
  · decide +kernel

/-- A block of four backticks that shows a block of three. -/
def nestedFences : List Line := ["````", "```", "@default 1", "```", "````"].map String.toList

/-- Code inside of a line that starts with it. -/
def codeInLine : List Line := ["```js``` is code.", "@default 1"].map String.toList

theorem tagStarts_misled :
    2 ∈ (ofLines nestedFences).tagStarts ∧ Block.afterAll none (nestedFences.take 2) ≠ none ∧
      1 ∉ (ofLines codeInLine).tagStarts ∧ IsTagLine "@default 1".toList ∧
      codeInLine[1]? = some "@default 1".toList ∧
      Block.afterAll none (codeInLine.take 1) = none := by
  decide +kernel

end RefPages.Comment
