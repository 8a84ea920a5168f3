import Mathlib.Data.List.Induction
import Mathlib.Data.List.Nodup
import Triage.Capabilities
import Triage.Proofs.Lines

/-!
Blocks of capabilities, read in one pass, and what lines that are put in do to them.

A block begins with its heading and goes on as long as blank lines and items follow. As no item is
a heading, at most one block is open at a line (`blockAfter`), and one pass with the open block as
its state finds the same as the search from each heading (`inLines_eq_scan`); so no line is reported
twice. Blank lines that are put in leave the open block as it is. A comment ends it, unless it
stands on the line of an item: what is granted further down in the block is then no longer found
(`findings_padded_iff`).
-/

namespace Triage

namespace Capabilities

/-! ## Kinds of lines -/

/-- White space, or a comment with nothing but white space before it. -/
def isHidden (line : Text) : Bool := (Text.before '#'.ascii line).all Byte.isSpace

/-- Whether a block of that indentation goes on with the line: it is blank, or an item that is not
indented less. -/
def continues (indent : Nat) (line : Text) : Bool :=
  (Text.trim line).isEmpty || (item? line).any fun item => indent ≤ item.1

/-- Whether the line grants a dangerous capability in a block of that indentation. -/
def grants (indent : Nat) (line : Text) : Bool :=
  (item? line).any fun item => indent ≤ item.1 && dangerous.contains item.2

theorem isSpace_of_isBlank {b : UInt8} (h : Byte.isBlank b) : Byte.isSpace b := by
  simp only [Byte.isBlank, Bool.or_eq_true, beq_iff_eq] at h
  rcases h with ((rfl | rfl) | rfl) | rfl <;> rfl

theorem isHidden_of_trim {line : Text} (h : (Text.trim line).isEmpty) : isHidden line := by
  have hblank := Text.isBlank_of_trim_eq_nil (List.isEmpty_iff.mp h)
  rw [isHidden, List.all_eq_true]
  exact fun b hb => isSpace_of_isBlank (hblank b ((List.takeWhile_sublist _).mem hb))

theorem dropWhile_of_isHidden {line : Text} (h : isHidden line) :
    (Text.before '#'.ascii line).dropWhile Byte.isSpace = [] :=
  List.dropWhile_eq_nil_iff.mpr (List.all_eq_true.mp h)

theorem item?_of_isHidden {line : Text} (h : isHidden line) : item? line = none := by
  rw [item?, dropWhile_of_isHidden h]
  rfl

theorem headingIndent?_of_isHidden {line : Text} (h : isHidden line) :
    headingIndent? line = none := by
  rw [headingIndent?, dropWhile_of_isHidden h]
  rfl

/-- A heading is no item. -/
theorem item?_of_headingIndent? {line : Text} {indent : Nat}
    (h : headingIndent? line = some indent) : item? line = none := by
  simp only [headingIndent?, Option.ite_none_right_eq_some, Bool.and_eq_true] at h
  obtain ⟨rest, hrest⟩ := List.isPrefixOf_iff_prefix.mp h.1.1.1
  rw [item?, ← hrest]
  rfl

theorem trim_of_headingIndent? {line : Text} {indent : Nat}
    (h : headingIndent? line = some indent) : (Text.trim line).isEmpty = false := by
  rw [Bool.eq_false_iff]
  intro htrim
  rw [headingIndent?_of_isHidden (isHidden_of_trim htrim)] at h
  contradiction

theorem headingIndent?_of_continues {indent : Nat} {line : Text} (h : continues indent line) :
    headingIndent? line = none := by
  cases hheading : headingIndent? line with
  | none => rfl
  | some other =>
    rw [continues, item?_of_headingIndent? hheading, trim_of_headingIndent? hheading] at h
    contradiction

/-- Of the lines that are hidden, the blank ones continue a block. -/
theorem continues_of_isHidden {indent : Nat} {line : Text} (h : isHidden line) :
    continues indent line = (Text.trim line).isEmpty := by
  rw [continues, item?_of_isHidden h, Option.any_none, Bool.or_false]

theorem grants_of_isHidden {indent : Nat} {line : Text} (h : isHidden line) :
    grants indent line = false := by
  rw [grants, item?_of_isHidden h, Option.any_none]

theorem continues_of_grants {indent : Nat} {line : Text} (h : grants indent line) :
    continues indent line := by
  rw [grants, Option.any_eq_true] at h
  obtain ⟨item, hitem, hgrants⟩ := h
  rw [continues, hitem, Bool.or_eq_true]
  exact .inr (Bool.and_eq_true_iff.mp hgrants).1

/-! ## One pass -/

/-- The indentation of the block that is open behind a line, given the one that is open before. -/
def blockAfter (block : Option Nat) (line : Text) : Option Nat :=
  (headingIndent? line).or (block.filter fun indent => continues indent line)

/-- The lines that grant a dangerous capability, in one pass that knows the open block. -/
def scan (block : Option Nat) : List (Text × Nat) → List (Text × Nat)
  | [] => []
  | (line, number) :: rest =>
    if block.any fun indent => grants indent line then
      (line, number) :: scan (blockAfter block line) rest
    else scan (blockAfter block line) rest

theorem blockAfter_of_isHeading {block : Option Nat} {line : Text} {indent : Nat}
    (h : headingIndent? line = some indent) : blockAfter block line = some indent := by
  rw [blockAfter, h, Option.some_or]

theorem blockAfter_of_not_isHeading {block : Option Nat} {line : Text}
    (h : headingIndent? line = none) :
    blockAfter block line = block.filter fun indent => continues indent line := by
  rw [blockAfter, h, Option.none_or]

theorem inBlock_cons (indent : Nat) (line : Text) (number : Nat) (rest : List (Text × Nat)) :
    inBlock indent ((line, number) :: rest) =
      if continues indent line then
        if grants indent line then (line, number) :: inBlock indent rest else inBlock indent rest
      else [] := by
  rw [inBlock]
  cases htrim : (Text.trim line).isEmpty with
  | true =>
    have hhidden := isHidden_of_trim htrim
    simp [continues_of_isHidden hhidden, grants_of_isHidden hhidden, htrim]
  | false =>
    cases hitem : item? line with
    | none => simp [continues, hitem, htrim]
    | some item =>
      obtain ⟨inner, name⟩ := item
      by_cases hinner : inner < indent
      · simp [continues, hitem, htrim, hinner, Nat.not_le.mpr hinner]
      · simp [continues, grants, hitem, htrim, hinner, Nat.not_lt.mp hinner]

theorem inLines_cons (line : Text) (number : Nat) (rest : List (Text × Nat)) :
    inLines ((line, number) :: rest) =
      (headingIndent? line).elim [] (fun indent => inBlock indent rest) ++ inLines rest := by
  rw [inLines]
  cases headingIndent? line with
  | none => rfl
  | some indent => rfl

/-- What is found in the open block and from all headings to come is found in one pass. -/
theorem inBlock_append_inLines (block : Option Nat) (lines : List (Text × Nat)) :
    block.elim [] (fun indent => inBlock indent lines) ++ inLines lines = scan block lines := by
  induction lines generalizing block with
  | nil => cases block with
    | none => rfl
    | some indent => rfl
  | cons first rest ih =>
    obtain ⟨line, number⟩ := first
    rw [inLines_cons, scan]
    cases hheading : headingIndent? line with
    | some inner =>
      -- The heading ends the open block, and opens one of its own.
      have hstop (indent : Nat) : continues indent line = false := by
        rw [Bool.eq_false_iff]
        intro hcontinues
        rw [headingIndent?_of_continues hcontinues] at hheading
        contradiction
      have hgrants (indent : Nat) : grants indent line = false := by
        rw [grants, item?_of_headingIndent? hheading, Option.any_none]
      rw [blockAfter_of_isHeading hheading, ← ih]
      cases block with
      | none => rfl
      | some indent => simp [inBlock_cons, hstop, hgrants]
    | none =>
      rw [blockAfter_of_not_isHeading hheading]
      cases block with
      | none => exact ih none
      | some indent =>
        rw [Option.elim_some, inBlock_cons, Option.any_some, Option.filter_some]
        by_cases hcontinues : continues indent line
        · rw [if_pos hcontinues, if_pos hcontinues, ← ih]
          split
          · rfl
          · rfl
        · have hgrants := mt continues_of_grants hcontinues
          rw [if_neg hcontinues, if_neg hcontinues, if_neg hgrants]
          exact ih none

theorem inLines_eq_scan (lines : List (Text × Nat)) : inLines lines = scan none lines :=
  inBlock_append_inLines none lines

theorem scan_sublist (block : Option Nat) (lines : List (Text × Nat)) :
    (scan block lines).Sublist lines := by
  induction lines generalizing block with
  | nil => exact .slnil
  | cons first rest ih =>
    rw [scan]
    split
    · exact (ih _).cons_cons _
    · exact (ih _).cons _

/-- No line is reported twice. -/
theorem nodup_line_findings (path text : Text) : ((findings path text).map Finding.line).Nodup := by
  have hnumbers : (((Text.numbered text).map Prod.snd).map some).Nodup := by
    rw [(Text.numbers_numbered text).consecutive]
    exact List.Nodup.map (fun _ _ => Option.some.inj) (List.nodup_range' ..)
  have hlines : (findings path text).map Finding.line =
      ((scan none (Text.numbered text)).map Prod.snd).map some := by
    rw [findings, inLines_eq_scan, List.map_map, List.map_map]
    rfl
  rw [hlines]
  exact hnumbers.sublist (((scan_sublist _ _).map _).map _)

/-! ## The open block -/

/-- The indentation of the block that is open behind some lines. -/
def openBlock (block : Option Nat) (lines : List Text) : Option Nat := lines.foldl blockAfter block

theorem openBlock_append (block : Option Nat) (above below : List Text) :
    openBlock block (above ++ below) = openBlock (openBlock block above) below :=
  List.foldl_append

theorem openBlock_of_continues {indent : Nat} {lines : List Text}
    (h : ∀ l ∈ lines, continues indent l) : openBlock (some indent) lines = some indent := by
  induction lines with
  | nil => rfl
  | cons l lines ih =>
    have hl := h l List.mem_cons_self
    have hstep : blockAfter (some indent) l = some indent := by
      rw [blockAfter_of_not_isHeading (headingIndent?_of_continues hl), Option.filter_some,
        if_pos hl]
    rw [openBlock, List.foldl_cons, hstep]
    exact ih fun l' hl' => h l' (List.mem_cons_of_mem _ hl')

theorem openBlock_of_no_heading {lines : List Text} (h : ∀ l ∈ lines, headingIndent? l = none) :
    openBlock none lines = none := by
  induction lines with
  | nil => rfl
  | cons l lines ih =>
    rw [openBlock, List.foldl_cons, blockAfter_of_not_isHeading (h l List.mem_cons_self)]
    exact ih fun l' hl' => h l' (List.mem_cons_of_mem _ hl')

/-- A block is open if a heading stands above, and between it and here only lines with which its
block goes on. -/
theorem openBlock_eq_some_iff {lines : List Text} {indent : Nat} :
    openBlock none lines = some indent ↔ ∃ above heading between,
      lines = above ++ heading :: between ∧ headingIndent? heading = some indent ∧
        ∀ l ∈ between, continues indent l := by
  constructor
  · intro h
    -- from the last line backwards: it is the heading, or the block was open before it
    induction lines using List.reverseRecOn with
    | nil => contradiction
    | append_singleton lines l ih =>
      rw [openBlock_append] at h
      change blockAfter (openBlock none lines) l = some indent at h
      cases hheading : headingIndent? l with
      | some inner =>
        rw [blockAfter_of_isHeading hheading] at h
        exact ⟨lines, l, [], rfl, hheading.trans h, fun _ hl => absurd hl List.not_mem_nil⟩
      | none =>
        rw [blockAfter_of_not_isHeading hheading, Option.filter_eq_some_iff] at h
        obtain ⟨above, heading, between, rfl, hindent, hbetween⟩ := ih h.1
        refine ⟨above, heading, between ++ [l], by simp, hindent, fun l' hl' => ?_⟩
        rcases List.mem_append.mp hl' with hl' | hl'
        · exact hbetween l' hl'
        · rw [List.mem_singleton.mp hl']
          exact h.2
  · rintro ⟨above, heading, between, rfl, hindent, hbetween⟩
    rw [openBlock_append, openBlock, List.foldl_cons, blockAfter_of_isHeading hindent]
    exact openBlock_of_continues hbetween

/-- Hidden lines leave the block open or close it. -/
theorem openBlock_of_isHidden (block : Option Nat) {gap : List Text} (h : ∀ l ∈ gap, isHidden l) :
    openBlock block gap = block ∨ openBlock block gap = none := by
  induction gap generalizing block with
  | nil => exact .inl rfl
  | cons l gap ih =>
    have hgap := fun l' hl' => h l' (List.mem_cons_of_mem _ hl')
    have hl := headingIndent?_of_isHidden (h l List.mem_cons_self)
    rw [openBlock, List.foldl_cons, blockAfter_of_not_isHeading hl]
    cases block with
    | none => exact ih none hgap
    | some indent =>
      rw [Option.filter_some]
      split
      · exact ih _ hgap
      · exact .inr ((ih none hgap).elim id id)

theorem scan_gap (block : Option Nat) {gap : List Text} (h : ∀ l ∈ gap, isHidden l)
    (rest : List Text) (number : Nat) :
    scan block ((gap ++ rest).zipIdx number) =
      scan (openBlock block gap) (rest.zipIdx (number + gap.length)) := by
  induction gap generalizing block number with
  | nil => rfl
  | cons l gap ih =>
    have hgrants : (block.any fun indent => grants indent l) = false := by
      cases block with
      | none => rfl
      | some indent => exact grants_of_isHidden (h l List.mem_cons_self)
    rw [List.cons_append, List.zipIdx_cons, scan, hgrants, if_neg Bool.false_ne_true,
      ih _ fun l' hl' => h l' (List.mem_cons_of_mem _ hl'), List.length_cons, Nat.add_right_comm,
      Nat.add_assoc number]
    rfl

/-! ## Lines that are put in -/

/-- A line of a text with the lines that are put in above it. -/
structure PaddedLine where
  gap : List Text
  line : Text

/-- The lines of a text, and those that are put in above each of them and behind the last. -/
structure Padding where
  rows : List PaddedLine
  lastGap : List Text

def PaddedLine.all (rows : List PaddedLine) : List Text := rows.flatMap fun r => r.gap ++ [r.line]

namespace Padding

/-- The lines of the text as it was. -/
def lines (p : Padding) : List Text := p.rows.map PaddedLine.line

/-- The lines of the text with those that are put in. -/
def padded (p : Padding) : List Text := PaddedLine.all p.rows ++ p.lastGap

/-- The lines that are put in. -/
def inserted (p : Padding) : List Text := p.rows.flatMap PaddedLine.gap ++ p.lastGap

/-- How many lines are put in above the line that had that number. -/
def insertedAbove (p : Padding) (number : Nat) : Nat :=
  ((p.rows.take number).flatMap PaddedLine.gap).length

/-- A finding with the number that its line gets. -/
def renumber (p : Padding) (f : Finding) : Finding :=
  { f with line := f.line.map fun number => number + p.insertedAbove number }

end Padding

/-- Between the heading of a block and a line that grants something in it, all lines that are put in
are blank. -/
def KeepsBlocks (rows : List PaddedLine) : Prop :=
  ∀ above heading between row below indent, rows = above ++ heading :: (between ++ row :: below) →
    headingIndent? heading.line = some indent → (∀ r ∈ between, continues indent r.line) →
    grants indent row.line → ∀ r ∈ between ++ [row], ∀ l ∈ r.gap, (Text.trim l).isEmpty

/-- The lines of the text as it was, with the numbers that they get if the first of the lines with
those that are put in has that number. -/
def placed (number : Nat) : List PaddedLine → List (Text × Nat)
  | [] => []
  | r :: rest => (r.line, number + r.gap.length) :: placed (number + r.gap.length + 1) rest

theorem placed_eq (rows : List PaddedLine) (number offset : Nat) :
    placed (number + offset) rows = ((rows.map PaddedLine.line).zipIdx number).map fun (line, n) =>
      (line, n + (offset + ((rows.take (n - number + 1)).flatMap PaddedLine.gap).length)) := by
  induction rows generalizing number offset with
  | nil => rfl
  | cons r rest ih =>
    have hnext : number + offset + r.gap.length + 1 = number + 1 + (offset + r.gap.length) := by
      omega
    rw [placed, List.map_cons, List.zipIdx_cons, List.map_cons, hnext, ih]
    refine congrArg₂ _ ?_ (List.map_congr_left fun first hfirst => ?_)
    · simp [Nat.add_assoc]
    · obtain ⟨line, n⟩ := first
      have hle := List.le_snd_of_mem_zipIdx hfirst
      have htake : n - number + 1 = n - (number + 1) + 1 + 1 := by
        simp only at hle
        omega
      simp only [htake, List.take_succ_cons, List.flatMap_cons, List.length_append, Nat.add_assoc]

theorem scan_map (block : Option Nat) (lines : List (Text × Nat)) (f : Nat → Nat) :
    scan block (lines.map fun (line, n) => (line, f n)) =
      (scan block lines).map fun (line, n) => (line, f n) := by
  induction lines generalizing block with
  | nil => rfl
  | cons first rest ih =>
    rw [List.map_cons, scan, scan, ih]
    split
    · rfl
    · rfl

/-- What a line grants in the block that is open at it is granted also if lines are put in; at first
the block `block` is open, with the lines put in the block `padded`. -/
def Survive (block padded : Option Nat) (rows : List PaddedLine) : Prop :=
  ∀ front row back, rows = front ++ row :: back →
    ((openBlock block (front.map PaddedLine.line)).any fun indent => grants indent row.line) →
    (openBlock padded (PaddedLine.all front ++ row.gap)).any fun indent => grants indent row.line

theorem survive_cons_iff {block padded : Option Nat} {r : PaddedLine} {rest : List PaddedLine} :
    Survive block padded (r :: rest) ↔
      ((block.any fun indent => grants indent r.line) →
        (openBlock padded r.gap).any fun indent => grants indent r.line) ∧
      Survive (blockAfter block r.line) (blockAfter (openBlock padded r.gap) r.line) rest := by
  -- What is open behind the first row and its gap is what the others start with.
  have hpadded : ∀ front row, openBlock padded (PaddedLine.all (r :: front) ++ row) =
      openBlock (blockAfter (openBlock padded r.gap) r.line) (PaddedLine.all front ++ row) := by
    intro front row
    have hall : PaddedLine.all (r :: front) ++ row =
        r.gap ++ r.line :: (PaddedLine.all front ++ row) := by
      simp [PaddedLine.all]
    rw [hall, openBlock_append]
    rfl
  constructor
  · intro h
    refine ⟨h [] r rest rfl, fun front row back hrest hgrants => ?_⟩
    have := h (r :: front) row back (congrArg _ hrest) hgrants
    rwa [hpadded] at this
  · rintro ⟨hfirst, hrest⟩ front row back hrows hgrants
    cases front with
    | nil =>
      obtain ⟨rfl, rfl⟩ := List.cons.inj hrows
      exact hfirst hgrants
    | cons first front =>
      obtain ⟨rfl, hback⟩ := List.cons.inj hrows
      rw [hpadded]
      exact hrest front row back hback hgrants

theorem blockAfter_eq_or {block padded : Option Nat} (h : padded = block ∨ padded = none)
    (line : Text) :
    blockAfter padded line = blockAfter block line ∨ blockAfter padded line = none := by
  rcases h with rfl | rfl
  · exact .inl rfl
  · cases hheading : headingIndent? line with
    | some indent =>
      exact .inl ((blockAfter_of_isHeading hheading).trans (blockAfter_of_isHeading hheading).symm)
    | none => exact .inr (blockAfter_of_not_isHeading hheading)

/-- With hidden lines put in nothing new is found, and all is still found that survives. -/
theorem scan_padded {block padded : Option Nat} {rows : List PaddedLine} {lastGap : List Text}
    (hidden : ∀ r ∈ rows, ∀ l ∈ r.gap, isHidden l) (hlast : ∀ l ∈ lastGap, isHidden l)
    (h : padded = block ∨ padded = none) (number : Nat) :
    (scan padded ((PaddedLine.all rows ++ lastGap).zipIdx number)).Sublist
        (scan block (placed number rows)) ∧
      (scan padded ((PaddedLine.all rows ++ lastGap).zipIdx number) =
        scan block (placed number rows) ↔ Survive block padded rows) := by
  induction rows generalizing block padded number with
  | nil =>
    have hnil : scan padded (lastGap.zipIdx number) = [] := by
      have := scan_gap padded hlast [] number
      rwa [List.append_nil] at this
    have hsurvive : Survive block padded [] := fun front row back hrows =>
      absurd hrows (by simp)
    exact ⟨hnil ▸ .slnil, iff_of_true hnil hsurvive⟩
  | cons r rest ih =>
    have hall : PaddedLine.all (r :: rest) ++ lastGap =
        r.gap ++ r.line :: (PaddedLine.all rest ++ lastGap) := by
      simp [PaddedLine.all]
    have hgap := hidden r List.mem_cons_self
    have hopen : openBlock padded r.gap = block ∨ openBlock padded r.gap = none := by
      rcases openBlock_of_isHidden padded hgap with hsame | hnone
      · rwa [hsame]
      · exact .inr hnone
    obtain ⟨hsub, heq⟩ := ih (fun r' hr' => hidden r' (List.mem_cons_of_mem _ hr'))
      (blockAfter_eq_or hopen r.line) (number + r.gap.length + 1)
    rw [hall, scan_gap padded hgap, List.zipIdx_cons, placed, scan, scan, survive_cons_iff]
    -- A hidden gap opens no block, so no line grants anything that it did not grant before.
    by_cases hblock : block.any fun indent => grants indent r.line
    · by_cases hpadded : (openBlock padded r.gap).any fun indent => grants indent r.line
      · rw [if_pos hblock, if_pos hpadded, List.cons_inj_right, heq]
        exact ⟨hsub.cons_cons _, by simp [hpadded]⟩
      · -- The finding on this line is lost.
        rw [if_pos hblock, if_neg hpadded]
        refine ⟨hsub.cons _, iff_of_false (fun hlost => ?_) fun hkept => hpadded (hkept.1 hblock)⟩
        have hlength := hsub.length_le
        rw [hlost, List.length_cons] at hlength
        omega
    · have hpadded : ¬(openBlock padded r.gap).any fun indent => grants indent r.line := by
        rcases hopen with hopen | hopen
        · rwa [hopen]
        · rw [hopen]
          exact Bool.false_ne_true
      rw [if_neg hblock, if_neg hpadded, heq]
      exact ⟨hsub, by simp [hblock]⟩

/-- A block is closed by any line that is neither a heading nor continues it. -/
theorem openBlock_of_stop {block : Option Nat} {lines : List Text} {l : Text} (hl : l ∈ lines)
    (hstop : ∀ indent, continues indent l = false)
    (hheading : ∀ l ∈ lines, headingIndent? l = none) : openBlock block lines = none := by
  obtain ⟨above, below, rfl⟩ := List.append_of_mem hl
  have hclosed : blockAfter (openBlock block above) l = none := by
    rw [blockAfter_of_not_isHeading (hheading l hl)]
    cases openBlock block above with
    | none => rfl
    | some indent => rw [Option.filter_some, hstop, if_neg Bool.false_ne_true]
  rw [openBlock_append, openBlock, List.foldl_cons, hclosed]
  exact openBlock_of_no_heading fun l' hl' =>
    hheading l' (List.mem_append_right _ (List.mem_cons_of_mem _ hl'))

theorem openBlock_padded {above between : List PaddedLine} {heading : PaddedLine} {indent : Nat}
    (hheading : headingIndent? heading.line = some indent) (gap : List Text) :
    openBlock none (PaddedLine.all (above ++ heading :: between) ++ gap) =
      openBlock (some indent) (PaddedLine.all between ++ gap) := by
  have hall : PaddedLine.all (above ++ heading :: between) ++ gap =
      (PaddedLine.all above ++ heading.gap) ++ heading.line :: (PaddedLine.all between ++ gap) := by
    simp [PaddedLine.all]
  rw [hall, openBlock_append, openBlock, List.foldl_cons, blockAfter_of_isHeading hheading]
  rfl

theorem mem_all_append_gap {between : List PaddedLine} {row : PaddedLine} {l : Text} :
    l ∈ PaddedLine.all between ++ row.gap ↔
      (∃ r ∈ between ++ [row], l ∈ r.gap) ∨ ∃ r ∈ between, l = r.line := by
  simp only [PaddedLine.all, List.mem_append, List.mem_flatMap, List.mem_singleton]
  grind

/-- What a line grants survives if and only if its block is kept together. -/
theorem survive_iff {rows : List PaddedLine} (hidden : ∀ r ∈ rows, ∀ l ∈ r.gap, isHidden l) :
    Survive none none rows ↔ KeepsBlocks rows := by
  constructor
  · intro h above heading between row below indent hrows hheading hbetween hgrants r hr l hl
    have hopen : openBlock none ((above ++ heading :: between).map PaddedLine.line) = some indent :=
      openBlock_eq_some_iff.mpr ⟨_, _, _, by rw [List.map_append, List.map_cons], hheading,
        List.forall_mem_map.mpr hbetween⟩
    have hgrants : (openBlock none ((above ++ heading :: between).map PaddedLine.line)).any
        fun indent => grants indent row.line := by
      rwa [hopen]
    have hsurvives := h (above ++ heading :: between) row below (by simp [hrows]) hgrants
    have hhidden : ∀ r ∈ between ++ [row], ∀ l ∈ r.gap, isHidden l := by
      intro r hr
      refine hidden r ?_
      rw [hrows]
      simp only [List.mem_append, List.mem_cons] at hr ⊢
      tauto
    -- Among these lines there is no heading, so a line that is not blank closes the block for good.
    by_contra htrim
    have hclosed : openBlock (some indent) (PaddedLine.all between ++ row.gap) = none := by
      refine openBlock_of_stop (mem_all_append_gap.mpr (.inl ⟨r, hr, hl⟩)) (fun other => ?_)
        fun l' hl' => ?_
      · rw [continues_of_isHidden (hhidden r hr l hl)]
        exact Bool.eq_false_iff.mpr htrim
      · rcases mem_all_append_gap.mp hl' with ⟨r', hr', hgap⟩ | ⟨r', hr', rfl⟩
        · exact headingIndent?_of_isHidden (hhidden r' hr' l' hgap)
        · exact headingIndent?_of_continues (hbetween r' hr')
    rw [openBlock_padded hheading, hclosed] at hsurvives
    contradiction
  · intro h front row back hrows hgrants
    cases hindent : openBlock none (front.map PaddedLine.line) with
    | none =>
      rw [hindent] at hgrants
      contradiction
    | some indent =>
      have hgranted : grants indent row.line := by rwa [hindent] at hgrants
      obtain ⟨above, headingLine, between, hfront, hheading, hbetween⟩ :=
        openBlock_eq_some_iff.mp hindent
      obtain ⟨above, rest, rfl, rfl, hrest⟩ := List.map_eq_append_iff.mp hfront
      obtain ⟨heading, between, rfl, rfl, rfl⟩ := List.map_eq_cons_iff.mp hrest
      have hbetween := List.forall_mem_map.mp hbetween
      have hblank :=
        h above heading between row back indent (by simp [hrows]) hheading hbetween hgranted
      have hopen : openBlock (some indent) (PaddedLine.all between ++ row.gap) = some indent := by
        refine openBlock_of_continues fun l hl => ?_
        rcases mem_all_append_gap.mp hl with ⟨r, hr, hgap⟩ | ⟨r, hr, rfl⟩
        · rw [continues, hblank r hr l hgap, Bool.true_or]
        · exact hbetween r hr
      rw [openBlock_padded hheading, hopen]
      exact hgranted

theorem placed_one (p : Padding) : placed 1 p.rows =
    (p.lines.zipIdx 1).map fun (line, number) => (line, number + p.insertedAbove number) := by
  refine (placed_eq p.rows 1 0).trans (List.map_congr_left fun first hfirst => ?_)
  have hle := List.le_snd_of_mem_zipIdx hfirst
  obtain ⟨line, number⟩ := first
  simp only at hle
  simp only [Nat.zero_add, Nat.sub_add_cancel hle, Padding.insertedAbove]

theorem map_renumber_findings (p : Padding) {text : Text} (htext : Text.lines text = p.lines)
    (path : Text) : (findings path text).map p.renumber =
      (scan none (placed 1 p.rows)).map fun (line, number) =>
        RuleTable.addedCapability.finding path (some number)
          (LineRule.snippet RuleTable.addedCapability.description line) := by
  have hscan := scan_map none (p.lines.zipIdx 1) fun number => number + p.insertedAbove number
  rw [findings, inLines_eq_scan, htext, placed_one, hscan, List.map_map, List.map_map]
  rfl

/-- No line is reported twice. Where white space and comments are put in at ends of lines, nothing
new is reported, and what is reported is the same, with the numbers that the lines get, if and only
if blocks are kept together: between the heading of a block and a line that grants something in it,
only blank lines are put in. -/
theorem findings_padded_iff (path text : Text) :
    ((findings path text).map Finding.line).Nodup ∧
    ∀ (p : Padding) {padded : Text}, (∀ l ∈ p.inserted, isHidden l) →
      Text.lines text = p.lines → Text.lines padded = p.padded →
      (findings path padded).Sublist ((findings path text).map p.renumber) ∧
      (findings path padded = (findings path text).map p.renumber ↔ KeepsBlocks p.rows) := by
  refine ⟨nodup_line_findings path text, fun p padded hidden htext hpadded => ?_⟩
  have hrows : ∀ r ∈ p.rows, ∀ l ∈ r.gap, isHidden l := fun r hr l hl =>
    hidden l (List.mem_append_left _ (List.mem_flatMap.mpr ⟨r, hr, hl⟩))
  have hlast : ∀ l ∈ p.lastGap, isHidden l := fun l hl => hidden l (List.mem_append_right _ hl)
  obtain ⟨hsub, heq⟩ := scan_padded hrows hlast (.inl rfl) 1
  rw [map_renumber_findings p htext, findings, inLines_eq_scan, hpadded, ← survive_iff hrows, ← heq]
  refine ⟨hsub.map _, fun h => ?_, congrArg _⟩
  -- Nothing new is found, so nothing is lost if as many lines are found.
  exact hsub.length_eq.mp (by simpa [Padding.padded] using congrArg List.length h)

/-! ## A comment in a block -/

/-- A block of one item, with lines put in above the item. -/
def blockWith (gap : List String) : Padding :=
  ⟨[⟨[], "cap_add:".ascii⟩, ⟨gap.map String.ascii, "- ALL".ascii⟩], []⟩

theorem findings_padded_iff_blankLine :
    (∀ l ∈ (blockWith [" \t"]).inserted, isHidden l) ∧
      Text.lines "cap_add:\n- ALL".ascii = (blockWith [" \t"]).lines ∧
      Text.lines "cap_add:\n \t\n- ALL".ascii = (blockWith [" \t"]).padded ∧
      (findings [] "cap_add:\n \t\n- ALL".ascii =
          (findings [] "cap_add:\n- ALL".ascii).map (blockWith [" \t"]).renumber ↔
        KeepsBlocks (blockWith [" \t"]).rows) ∧
      (findings [] "cap_add:\n \t\n- ALL".ascii).map Finding.line = [some 3] := by
  have hidden : ∀ l ∈ (blockWith [" \t"]).inserted, isHidden l := by decide
  exact ⟨hidden, by decide, by decide,
    ((findings_padded_iff [] _).2 (blockWith [" \t"]) hidden (by decide) (by decide)).2,
    by decide⟩

/-- Under a comment, the item of a block is not found any more. -/
theorem comment_hides_capability :
    (∀ l ∈ (blockWith ["# c"]).inserted, isHidden l) ∧
      Text.lines "cap_add:\n- ALL".ascii = (blockWith ["# c"]).lines ∧
      Text.lines "cap_add:\n# c\n- ALL".ascii = (blockWith ["# c"]).padded ∧
      findings [] "cap_add:\n# c\n- ALL".ascii ≠
        (findings [] "cap_add:\n- ALL".ascii).map (blockWith ["# c"]).renumber := by
  decide

end Capabilities

end Triage
