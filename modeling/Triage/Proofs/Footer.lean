import Triage.Proofs.TimeForms
import Triage.Report.Rendering

/-!
The last two lines of the text form of a report.

The score and the verdict stand in the last two lines, behind words of their own (`Footer.key`).
`Footer.Adds` says which lines that start with these words a block of text adds to what follows it,
and the text form is followed block by block. What the text form writes itself starts with a blank
or with another heading. So a line can be mistaken for one of the last two only if a text that was
taken over begins it with a line feed: the paths of findings and the messages of notes, which are
written as they are (`text_footer_lines`).
-/

namespace Triage

/-! ## Lines of a text -/

namespace Text

variable {sep : UInt8} {a s : Text}

/-- The lines of a text that start with `key`. -/
def linesFrom (key s : Text) : List Text := (pieces s).filter fun l => startsWith l key

/-- The lines that a text begins when it stands within a line: all but its first. -/
def laterLines (s : Text) : List Text := (splitOn Byte.lineFeed s).tail

theorem exists_splitOn_append_left (h : sep ∉ a) (s : Text) :
    ∃ first, splitOn sep (a ++ s) = (a ++ first) :: (splitOn sep s).tail := by
  induction a with
  | nil => exact ⟨_, (List.cons_head_tail (splitOn_ne_nil sep s)).symm⟩
  | cons b a ih =>
    obtain ⟨hb, ha⟩ := not_or.mp fun hmem => h (List.mem_cons.mpr hmem)
    obtain ⟨first, hfirst⟩ := ih ha
    refine ⟨first, ?_⟩
    rw [List.cons_append, splitOn_cons, hfirst, consPiece, if_neg (by simpa using Ne.symm hb)]
    rfl

theorem exists_splitOn_append_right (h : sep ∉ a) (s : Text) :
    ∃ front last, splitOn sep s = front ++ [last] ∧
      splitOn sep (s ++ a) = front ++ [last ++ a] := by
  induction s with
  | nil => exact ⟨[], [], rfl, splitOn_of_not_mem h⟩
  | cons b s ih =>
    obtain ⟨front, last, hs, hsa⟩ := ih
    rw [List.cons_append, splitOn_cons, splitOn_cons, hs, hsa]
    cases front with
    | nil =>
      by_cases hb : b == sep
      · exact ⟨[[]], last, by simp [consPiece, hb], by simp [consPiece, hb]⟩
      · exact ⟨[], b :: last, by simp [consPiece, hb], by simp [consPiece, hb]⟩
    | cons piece front =>
      by_cases hb : b == sep
      · exact ⟨[] :: piece :: front, last, by simp [consPiece, hb], by simp [consPiece, hb]⟩
      · exact ⟨(b :: piece) :: front, last, by simp [consPiece, hb], by simp [consPiece, hb]⟩

/-- What is put after a text without beginning a line belongs to its last line. -/
theorem exists_mem_laterLines_append (h : Byte.lineFeed ∉ a) {p : Text → Prop}
    (hp : ∀ l, p (l ++ a) ↔ p l) :
    (∃ l ∈ laterLines (s ++ a), p l) ↔ ∃ l ∈ laterLines s, p l := by
  obtain ⟨front, last, hs, hsa⟩ := exists_splitOn_append_right h s
  rw [laterLines, laterLines, hs, hsa]
  cases front with
  | nil => simp
  | cons piece front => simp [or_and_right, exists_or, hp]

/-- Numbers and times are written within a line. -/
theorem lineFeed_not_mem_ofNat (n : Nat) : Byte.lineFeed ∉ ofNat n := fun h =>
  absurd (isDigit_of_mem_ofNat h) (by decide)

theorem lineFeed_not_mem_ofInt (i : Int) : Byte.lineFeed ∉ ofInt i := by
  rw [ofInt]
  split
  · exact List.not_mem_cons_of_ne_of_not_mem (by decide) (lineFeed_not_mem_ofNat _)
  · exact lineFeed_not_mem_ofNat _

theorem lineFeed_not_mem_padRight {width : Nat} (h : Byte.lineFeed ∉ s) :
    Byte.lineFeed ∉ padRight width s :=
  List.not_mem_append h fun hpad => absurd (List.eq_of_mem_replicate hpad) (by decide)

theorem lineFeed_not_mem_padLeft {width : Nat} (h : Byte.lineFeed ∉ s) :
    Byte.lineFeed ∉ padLeft width s :=
  List.not_mem_append (fun hpad => absurd (List.eq_of_mem_replicate hpad) (by decide)) h

end Text

theorem Time.lineFeed_not_mem_iso (seconds : Int) : Byte.lineFeed ∉ Time.iso seconds :=
  not_mem_iso (by decide) (by decide) seconds

namespace Report

open Text (linesFrom laterLines startsWith)
open Byte (lineFeed)

/-! ## The two lines -/

/-- The two lines at the end of a text form. -/
inductive Footer where
  | score | verdict
  deriving DecidableEq, Repr

namespace Footer

/-- The words with which the line starts. -/
def key : Footer → Text
  | score => "Risk score:".ascii
  | verdict => "Verdict:".ascii

/-- The line of a report. -/
def line (r : Report) : Footer → Text
  | score => "Risk score: ".ascii ++ Text.ofInt r.score
  | verdict => "Verdict:    ".ascii ++ r.verdict.name

/-- Before any text, the block adds these lines to those that start with the words. -/
def Adds (k : Footer) (block : Text) (ls : List Text) : Prop :=
  ∀ rest, linesFrom k.key (block ++ rest) = ls ++ linesFrom k.key rest

variable {k : Footer} {s t : Text} {ls ms : List Text}

theorem adds_nil : k.Adds [] [] := fun _ => rfl

theorem Adds.append (h : k.Adds s ls) (h' : k.Adds t ms) : k.Adds (s ++ t) (ls ++ ms) := by
  intro rest
  rw [List.append_assoc, h, h', List.append_assoc]

/-- What adds nothing may stand behind a block. -/
theorem Adds.skip (h : k.Adds s ls) (h' : k.Adds t []) : k.Adds (s ++ t) ls := by
  have hboth := h.append h'
  rwa [List.append_nil] at hboth

theorem adds_flatMap {α : Type} {f : α → Text} {g : α → List Text} {xs : List α}
    (h : ∀ x ∈ xs, k.Adds (f x) (g x)) : k.Adds (xs.flatMap f) (xs.flatMap g) := by
  induction xs with
  | nil => exact adds_nil
  | cons x xs ih =>
    rw [List.flatMap_cons, List.flatMap_cons]
    exact (h x List.mem_cons_self).append (ih fun y hy => h y (List.mem_cons_of_mem x hy))

theorem adds_nothing_flatMap {α : Type} {f : α → Text} {xs : List α}
    (h : ∀ x ∈ xs, k.Adds (f x) []) : k.Adds (xs.flatMap f) [] := by
  have hall := adds_flatMap h
  rwa [List.flatMap_eq_nil_iff.mpr fun _ _ => rfl] at hall

theorem adds_line (k : Footer) (s : Text) :
    k.Adds (Report.line s) ((Text.splitOn lineFeed s).filter fun l => startsWith l k.key) := by
  intro rest
  rw [Report.line, List.append_assoc, List.singleton_append, linesFrom, Text.pieces_append,
    List.filter_append]
  rfl

/-- A text within a line adds that line or nothing. -/
theorem adds_line_of_not_mem (h : lineFeed ∉ s) :
    k.Adds (Report.line s) (if startsWith s k.key then [s] else []) := by
  have hline := k.adds_line s
  rw [Text.splitOn_of_not_mem h, List.filter_cons, List.filter_nil] at hline
  exact hline

theorem not_startsWith_blank (k : Footer) (s : Text) : startsWith (32 :: s) k.key = false := by
  cases k <;> rfl

/-- A line behind a blank is none of the two. -/
theorem adds_blank (h : lineFeed ∉ s) : k.Adds (Report.line (32 :: s)) [] := by
  have hblank : lineFeed ∉ 32 :: s := List.not_mem_cons_of_ne_of_not_mem (by decide) h
  have hline := k.adds_line_of_not_mem hblank
  rwa [not_startsWith_blank] at hline

/-- A line of other words is none of the two. -/
theorem adds_other (h : lineFeed ∉ s) (hstart : startsWith s k.key = false) :
    k.Adds (Report.line s) [] := by
  have hline := k.adds_line_of_not_mem h
  rwa [hstart] at hline

end Footer

/-! ## The blocks -/

/-- The texts that the text form puts into single lines hold no line feed. Nothing is said of the
paths of findings and of the messages of notes. -/
structure SingleLined (r : Report) : Prop where
  target : lineFeed ∉ r.target
  item : lineFeed ∉ r.item
  fingerprint : lineFeed ∉ r.fingerprint
  components : ∀ c ∈ r.components, lineFeed ∉ c.name ∧ lineFeed ∉ c.detail
  findings : ∀ f ∈ r.findings, lineFeed ∉ f.rule ∧ lineFeed ∉ f.source ∧ lineFeed ∉ f.snippet
  notes : ∀ n ∈ r.notes, lineFeed ∉ n.component

variable {k : Footer} {r : Report}

theorem adds_emptyLine : k.Adds (line []) [] := Footer.adds_other List.not_mem_nil (by cases k <;> rfl)

theorem SingleLined.adds_header (h : r.SingleLined) : k.Adds r.header [] := by
  have htitle : k.Adds (line "Sigil scan report".ascii) [] :=
    Footer.adds_other (by decide) (by cases k <;> rfl)
  have hfingerprint : k.Adds (if r.fingerprint.isEmpty then []
      else line ("  Fingerprint:  ".ascii ++ r.fingerprint)) [] := by
    split
    · exact Footer.adds_nil
    · exact Footer.adds_blank (List.not_mem_append (by decide) h.fingerprint)
  have hfiles : lineFeed ∉ " Files:        ".ascii ++ Text.ofNat r.filesScanned.toNat ++
      " scanned".ascii :=
    List.not_mem_append (List.not_mem_append (by decide) (Text.lineFeed_not_mem_ofNat _))
      (by decide)
  exact ((((((htitle.skip
    (Footer.adds_blank (List.not_mem_append (by decide) h.target))).skip
    (Footer.adds_blank (List.not_mem_append (by decide) h.item))).skip hfingerprint).skip
    (Footer.adds_blank hfiles)).skip
    (Footer.adds_blank (List.not_mem_append (by decide) (Time.lineFeed_not_mem_iso _)))).skip
    (Footer.adds_blank (List.not_mem_append (by decide) (Text.lineFeed_not_mem_ofInt _)))).skip
    adds_emptyLine

theorem adds_phaseLine (phase : Phase) (count : Nat) : k.Adds (phaseLine phase count) [] := by
  have htitle : lineFeed ∉ phase.title := by cases phase <;> decide
  rw [phaseLine]
  split
  · exact Footer.adds_nil
  · exact Footer.adds_blank (List.not_mem_append
      (List.not_mem_append (by decide) (Text.lineFeed_not_mem_padRight htitle))
      (Text.lineFeed_not_mem_padLeft (Text.lineFeed_not_mem_ofNat count)))

theorem adds_phaseTable (r : Report) : k.Adds r.phaseTable [] := by
  have htitle : k.Adds (line "Phases".ascii) [] :=
    Footer.adds_other (by decide) (by cases k <;> rfl)
  exact (htitle.skip (Footer.adds_nothing_flatMap fun _ _ => adds_phaseLine _ _)).skip
    adds_emptyLine

theorem adds_componentLine {c : Component} (hname : lineFeed ∉ c.name)
    (hdetail : lineFeed ∉ c.detail) : k.Adds (componentLine c) [] := by
  have hstate : lineFeed ∉ c.state.name := by cases c.state <;> decide
  have hcolumns : lineFeed ∉ " ".ascii ++ Text.padRight 22 c.name ++ Text.padRight 15 c.state.name :=
    List.not_mem_append (List.not_mem_append (by decide) (Text.lineFeed_not_mem_padRight hname))
      (Text.lineFeed_not_mem_padRight hstate)
  exact Footer.adds_blank (List.not_mem_append hcolumns hdetail)

theorem SingleLined.adds_componentTable (h : r.SingleLined) : k.Adds r.componentTable [] := by
  have htitle : k.Adds (line "Components".ascii) [] :=
    Footer.adds_other (by decide) (by cases k <;> rfl)
  refine (htitle.skip (Footer.adds_nothing_flatMap fun c hc => ?_)).skip adds_emptyLine
  exact adds_componentLine (h.components c hc).1 (h.components c hc).2

/-- Who found it, if that is not the built-in rules. -/
def origin (f : Finding) : Text :=
  if f.source == builtinSource then [] else "  (".ascii ++ f.source ++ ")".ascii

/-- A block that starts with a blank adds what a text within it begins. -/
theorem adds_line_within {before s : Text} (h : lineFeed ∉ before) :
    k.Adds (line (32 :: before ++ s)) ((laterLines s).filter fun l => startsWith l k.key) := by
  have hblank : lineFeed ∉ 32 :: before := List.not_mem_cons_of_ne_of_not_mem (by decide) h
  obtain ⟨first, hfirst⟩ := Text.exists_splitOn_append_left hblank s
  have hnot : startsWith (32 :: before ++ first) k.key = false := k.not_startsWith_blank _
  have hline := k.adds_line (32 :: before ++ s)
  rw [hfirst, List.filter_cons, hnot] at hline
  exact hline

/-- Of the lines of a finding, its place begins those that start with the words. -/
theorem adds_findingLines {f : Finding} (hrule : lineFeed ∉ f.rule) (hsnippet : lineFeed ∉ f.snippet) :
    k.Adds (findingLines f) ((laterLines (place f ++ origin f)).filter fun l =>
      startsWith l k.key) := by
  have hseverity : lineFeed ∉ f.severity.name.map Byte.toUpper := by
    cases f.severity <;> decide
  have hbefore : lineFeed ∉ " [".ascii ++ f.severity.name.map Byte.toUpper ++ "] ".ascii ++ f.rule ++
      "  ".ascii :=
    List.not_mem_append (List.not_mem_append (List.not_mem_append (List.not_mem_append (by decide)
      hseverity) (by decide)) hrule) (by decide)
  have hplace := adds_line_within (k := k) (s := place f ++ origin f) hbefore
  rw [← List.append_assoc] at hplace
  exact hplace.skip (Footer.adds_blank (List.not_mem_append (by decide) hsnippet))

theorem adds_findingHeading (listed total : Nat) : k.Adds (findingHeading listed total) [] := by
  refine Footer.adds_other (List.not_mem_append (by decide) ?_) (by cases k <;> rfl)
  split
  · exact List.not_mem_append (List.not_mem_append (List.not_mem_append (List.not_mem_append
      (by decide) (Text.lineFeed_not_mem_ofNat _)) (by decide)) (Text.lineFeed_not_mem_ofNat _))
      (by decide)
  · exact List.not_mem_nil

theorem mem_findings_of_mem_shown {least : Option Severity} {findings : List Finding} {f : Finding}
    (h : f ∈ shown least findings) : f ∈ findings := by
  have hranked := List.mem_of_mem_take h
  rw [ranked, List.mem_mergeSort] at hranked
  exact (List.mem_filter.mp hranked).1

theorem SingleLined.adds_findingTable (h : r.SingleLined) (least : Option Severity) :
    k.Adds (r.findingTable least) ((shown least r.findings).flatMap fun f =>
      (laterLines (place f ++ origin f)).filter fun l => startsWith l k.key) := by
  have hnone : k.Adds (if (shown least r.findings).isEmpty then line "  none".ascii else []) [] := by
    split
    · exact Footer.adds_blank (by decide)
    · exact Footer.adds_nil
  refine ((adds_findingHeading _ _).skip hnone).append (Footer.adds_flatMap fun f hf => ?_)
  obtain ⟨hrule, -, hsnippet⟩ := h.findings f (mem_findings_of_mem_shown hf)
  exact adds_findingLines hrule hsnippet

theorem SingleLined.adds_noteTable (h : r.SingleLined) :
    k.Adds r.noteTable (r.notes.flatMap fun n =>
      (laterLines n.message).filter fun l => startsWith l k.key) := by
  have htitle : k.Adds (line "Notes".ascii) [] :=
    Footer.adds_other (by decide) (by cases k <;> rfl)
  rw [noteTable]
  split
  · rename_i hnotes
    rw [List.isEmpty_iff.mp hnotes]
    exact Footer.adds_nil
  · refine (adds_emptyLine.skip htitle).append (Footer.adds_flatMap fun n hn => ?_)
    have hbefore : lineFeed ∉ " ".ascii ++ n.component ++ ": ".ascii :=
      List.not_mem_append (List.not_mem_append (by decide) (h.notes n hn)) (by decide)
    exact adds_line_within hbefore

/-- The footer adds each of the two lines once. -/
theorem adds_footer (r : Report) : k.Adds r.footer [k.line r] := by
  have hscore : lineFeed ∉ Footer.score.line r :=
    List.not_mem_append (by decide) (Text.lineFeed_not_mem_ofInt _)
  have hname : lineFeed ∉ r.verdict.name := by cases r.verdict <;> decide
  have hverdict : lineFeed ∉ Footer.verdict.line r := List.not_mem_append (by decide) hname
  have hlines := (adds_emptyLine.append (k.adds_line_of_not_mem hscore)).append
    (k.adds_line_of_not_mem hverdict)
  cases k with
  | score => exact hlines
  | verdict => exact hlines

/-- The lines that start with the words of a footer, but were begun by a text that was taken over. -/
def strayLines (k : Footer) (r : Report) (least : Option Severity) : List Text :=
  ((shown least r.findings).flatMap fun f =>
    (laterLines (place f ++ origin f)).filter fun l => startsWith l k.key) ++
  r.notes.flatMap fun n => (laterLines n.message).filter fun l => startsWith l k.key

theorem SingleLined.linesFrom_text (h : r.SingleLined) (k : Footer) (least : Option Severity) :
    linesFrom k.key (r.text least) = strayLines k r least ++ [k.line r] := by
  have htext : k.Adds (r.text least) (strayLines k r least ++ [k.line r]) :=
    ((((h.adds_header.append (adds_phaseTable r)).append h.adds_componentTable).append
      (h.adds_findingTable least)).append h.adds_noteTable).append (adds_footer r)
  have hlines := htext []
  rw [List.append_nil] at hlines
  exact hlines.trans (List.append_nil _)

/-! ## Lines that can be mistaken -/

/-- The line starts like one of the last two. -/
def Imitates (l : Text) : Prop := ∃ k : Footer, startsWith l k.key = true

/-- In the words of a footer, a blank stands before another byte. -/
theorem Footer.key_blank (k : Footer) : ∀ n < k.key.length, k.key[n]? = some 32 →
    k.key[n + 1]? ≠ none ∧ k.key[n + 1]? ≠ some 32 := by
  cases k <;> decide

/-- Two blanks do not complete the words of a footer. -/
theorem Footer.startsWith_blanks (k : Footer) (l rest : Text) :
    startsWith (l ++ 32 :: 32 :: rest) k.key = startsWith l k.key := by
  rw [Bool.eq_iff_iff, startsWith, startsWith, List.isPrefixOf_iff_prefix,
    List.isPrefixOf_iff_prefix]
  refine ⟨fun h => ?_, fun h => h.trans (List.prefix_append _ _)⟩
  by_cases hlength : k.key.length ≤ l.length
  · exact List.prefix_of_prefix_length_le h (List.prefix_append _ _) hlength
  · have hbytes := List.prefix_iff_getElem?.mp h
    have hat : k.key[l.length]? = some 32 := by
      have hbyte := hbytes l.length (by omega)
      rw [List.getElem?_append_right (by omega)] at hbyte
      rw [List.getElem?_eq_getElem (by omega), ← hbyte]
      simp
    obtain ⟨hsome, hother⟩ := k.key_blank l.length (by omega) hat
    have hnext : l.length + 1 < k.key.length := by
      by_contra hend
      exact hsome (List.getElem?_eq_none (by omega))
    have hbyte := hbytes (l.length + 1) hnext
    rw [List.getElem?_append_right (by omega), ← List.getElem?_eq_getElem hnext] at hbyte
    exact absurd (hbyte.symm.trans (by simp)) hother

theorem imitates_append_origin (f : Finding) (l : Text) :
    Imitates (l ++ origin f) ↔ Imitates l := by
  rw [origin]
  split
  · rw [List.append_nil]
  · have hstart : ∀ k : Footer, startsWith (l ++ ("  (".ascii ++ f.source ++ ")".ascii)) k.key =
        startsWith l k.key := fun k => k.startsWith_blanks l _
    simp only [Imitates, hstart]

theorem lineFeed_not_mem_origin {f : Finding} (h : lineFeed ∉ f.source) : lineFeed ∉ origin f := by
  rw [origin]
  split
  · exact List.not_mem_nil
  · exact List.not_mem_append (List.not_mem_append (by decide) h) (by decide)

theorem forall_strayLines_eq_nil_iff (h : r.SingleLined) (least : Option Severity) :
    (∀ k, strayLines k r least = []) ↔
      (∀ f ∈ shown least r.findings, ∀ l ∈ laterLines (place f), ¬Imitates l) ∧
      ∀ n ∈ r.notes, ∀ l ∈ laterLines n.message, ¬Imitates l := by
  have hplace : ∀ f ∈ shown least r.findings, (∀ l ∈ laterLines (place f), ¬Imitates l) ↔
      ∀ l ∈ laterLines (place f ++ origin f), ¬Imitates l := by
    intro f hf
    have horigin := lineFeed_not_mem_origin (h.findings f (mem_findings_of_mem_shown hf)).2.1
    have hmem := Text.exists_mem_laterLines_append horigin (s := place f) (imitates_append_origin f)
    simpa only [not_exists, not_and] using (not_congr hmem).symm
  simp only [strayLines, List.append_eq_nil_iff, List.flatMap_eq_nil_iff, List.filter_eq_nil_iff]
  constructor
  · intro hk
    refine ⟨fun f hf => (hplace f hf).mpr ?_, ?_⟩
    · rintro l hl ⟨k, hstart⟩
      exact (hk k).1 f hf l hl hstart
    · rintro n hn l hl ⟨k, hstart⟩
      exact (hk k).2 n hn l hl hstart
  · rintro ⟨hfindings, hnotes⟩ k
    refine ⟨fun f hf l hl hstart => ?_, fun n hn l hl hstart => hnotes n hn l hl ⟨k, hstart⟩⟩
    exact (hplace f hf).mp (hfindings f hf) l hl ⟨k, hstart⟩

/-- **The last two lines of a report.** Whatever bytes the paths of findings hold, the lines of the
text form that start with the words of the score, or of the verdict, end with the one that gives the
score, or the verdict, of the report. There is no other one if and only if no line that the place of
a listed finding or the message of a note begins starts with such words. -/
theorem text_footer_lines (h : r.SingleLined) (least : Option Severity) :
    (∀ k : Footer, linesFrom k.key (r.text least) = strayLines k r least ++ [k.line r]) ∧
    ((∀ k : Footer, linesFrom k.key (r.text least) = [k.line r]) ↔
      (∀ f ∈ shown least r.findings, ∀ l ∈ laterLines (place f), ¬Imitates l) ∧
      ∀ n ∈ r.notes, ∀ l ∈ laterLines n.message, ¬Imitates l) := by
  refine ⟨fun k => h.linesFrom_text k least, ?_⟩
  rw [← forall_strayLines_eq_nil_iff h least]
  refine forall_congr' fun k => ?_
  rw [h.linesFrom_text, List.append_left_eq_self]

/-! ## A path with line feeds -/

/-- A report on one critical finding in a file of this path. -/
def reportOn (path : Text) : Report :=
  { item := "w".ascii
    target := "w".ascii
    counts := [0, 1, 0, 0, 0, 0, 0, 0]
    score := 50
    verdict := .critical
    components := [⟨"phases".ascii, .ran, [], 1, 0, 0⟩]
    notes := []
    findings :=
      [⟨.codePatterns, "CODE-001".ascii, builtinSource, .critical, path, none, "eval".ascii, 50⟩]
    filesScanned := 1
    fingerprint := []
    generatedAt := 0
    tableVersion := 1 }

theorem reportOn_singleLined (path : Text) : (reportOn path).SingleLined where
  target := (by decide : lineFeed ∉ "w".ascii)
  item := (by decide : lineFeed ∉ "w".ascii)
  fingerprint := List.not_mem_nil
  components c hc := by
    obtain rfl := List.mem_singleton.mp hc
    exact ⟨(by decide : lineFeed ∉ "phases".ascii), List.not_mem_nil⟩
  findings f hf := by
    obtain rfl := List.mem_singleton.mp hf
    exact ⟨(by decide : lineFeed ∉ "CODE-001".ascii), (by decide : lineFeed ∉ builtinSource),
      (by decide : lineFeed ∉ "eval".ascii)⟩
  notes n hn := absurd hn List.not_mem_nil

/-- A line feed in a path does no harm by itself. -/
theorem text_footer_lines_brokenPath :
    (reportOn "a\nb".ascii).SingleLined ∧
      linesFrom "Risk score:".ascii ((reportOn "a\nb".ascii).text none) = ["Risk score: 50".ascii] ∧
      linesFrom "Verdict:".ascii ((reportOn "a\nb".ascii).text none) =
        ["Verdict:    CRITICAL".ascii] := by
  have h := reportOn_singleLined "a\nb".ascii
  have hb : ¬Imitates "b".ascii := by
    rintro ⟨k, hk⟩
    cases k <;> contradiction
  have hplace : ∀ f ∈ shown none (reportOn "a\nb".ascii).findings, ∀ l ∈ laterLines (place f),
      ¬Imitates l := by
    intro f hf l hl
    obtain rfl := List.mem_singleton.mp (mem_findings_of_mem_shown hf)
    obtain rfl : l = "b".ascii := List.mem_singleton.mp hl
    exact hb
  have hlines := (text_footer_lines h none).2.mpr ⟨hplace, fun n hn => absurd hn List.not_mem_nil⟩
  exact ⟨h, hlines .score, hlines .verdict⟩

/-- The path of a file can write a second verdict, above that of the report. -/
theorem verdict_forged :
    (reportOn "a\nVerdict:    CLEAN".ascii).SingleLined ∧
      linesFrom "Verdict:".ascii ((reportOn "a\nVerdict:    CLEAN".ascii).text none) =
        ["Verdict:    CLEAN".ascii, "Verdict:    CRITICAL".ascii] := by
  refine ⟨reportOn_singleLined _, ?_⟩
  decide +kernel

end Report

end Triage
