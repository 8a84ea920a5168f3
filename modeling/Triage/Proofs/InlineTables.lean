import Mathlib.Data.List.Infix
import Triage.Proofs.RequirementArray
import Triage.Regex.Pattern

/-!
Inline tables as TOML writes them on one line.

A table is a row of members, each a key and a value. Keys are bare, quoted, or several with dots
between them (`IsPath`), and values are strings, tokens, arrays and tables again (`IsValue`).
Between its keys and values a table has only bytes that separate them (`InlineTable.parted`), so a
word without such bytes that occurs in the table occurs in a key or a value
(`InlineTable.mentions_iff`).
-/

namespace Triage

/-! ## Words in a text of parts -/

namespace Text

variable {word s t : Text} {b : UInt8}

/-- A byte that a word does not have cuts a text into two in which the word is looked for. -/
theorem infix_append_cons (hb : b ∉ word) : word <:+: s ++ b :: t ↔ word <:+: s ∨ word <:+: t := by
  have hstart {w : Text} (hw : w <+: b :: t) (hbw : b ∉ w) : w = [] := by
    cases w with
    | nil => rfl
    | cons c w => exact absurd (by simp [(List.cons_prefix_cons.mp hw).1]) hbw
  rw [List.infix_append_iff, List.infix_cons_iff]
  constructor
  · rintro (h | (h | h) | ⟨front, back, rfl, hfront, hback⟩)
    · exact .inl h
    · rw [hstart h hb]
      exact .inl List.nil_infix
    · exact .inr h
    · -- What crosses the byte would have to hold it.
      rw [hstart hback fun h => hb (List.mem_append_right _ h), List.append_nil]
      exact .inl hfront.isInfix
  · rintro (h | h)
    · exact .inl h
    · exact .inr (.inl (.inr h))

theorem infix_gap_append {gap : Text} (hne : word ≠ []) (hgap : ∀ b ∈ gap, b ∉ word) :
    word <:+: gap ++ s ↔ word <:+: s := by
  induction gap with
  | nil => rfl
  | cons b gap ih =>
    obtain ⟨hb, hgap⟩ := List.forall_mem_cons.mp hgap
    rw [List.cons_append, ← List.nil_append (b :: (gap ++ s)), infix_append_cons hb, List.infix_nil,
      or_iff_right hne, ih hgap]

theorem infix_append_gap {gap : Text} (hne : word ≠ []) (hgap : ∀ b ∈ gap, b ∉ word) :
    word <:+: s ++ gap ↔ word <:+: s := by
  cases gap with
  | nil => rw [List.append_nil]
  | cons b gap =>
    obtain ⟨hb, hgap⟩ := List.forall_mem_cons.mp hgap
    have hnot : ¬word <:+: gap := by
      rw [← List.append_nil gap, infix_gap_append hne hgap, List.infix_nil]
      exact hne
    rw [infix_append_cons hb, or_iff_left hnot]

theorem infix_trim_iff (hne : word ≠ []) (hword : word.any Byte.isBlank = false) :
    word <:+: trim s ↔ word <:+: s := by
  have hnot {gap : Text} (hgap : ∀ b ∈ gap, Byte.isBlank b = true) : ∀ b ∈ gap, b ∉ word :=
    fun b hb h => List.any_eq_false.mp hword b h (hgap b hb)
  obtain ⟨right, hs, hright⟩ := exists_trim s
  conv_rhs => rw [hs]
  rw [infix_gap_append hne (hnot fun b hb => List.mem_takeWhile_imp hb),
    infix_append_gap hne (hnot hright)]

theorem before_append_of_mem {stop : UInt8} (h : stop ∈ s) :
    before stop (s ++ t) = before stop s := by
  obtain ⟨front, back, rfl, hfront⟩ := List.eq_append_cons_of_mem h
  rw [List.append_assoc, List.cons_append, before_append_cons hfront, before_append_cons hfront]

theorem before_append_of_not_mem {stop : UInt8} (h : stop ∉ s) :
    before stop (s ++ t) = s ++ before stop t := by
  rw [before, List.takeWhile_append_of_pos fun c hc => by
    simpa using fun heq : c = stop => h (heq ▸ hc)]
  rfl

/-- A text of parts, each with a separator behind it, and of more separators. -/
inductive Parted (isSep : UInt8 → Bool) : List Text → Text → Prop
  | nil : Parted isSep [] []
  | sep {b : UInt8} {parts : List Text} {s : Text} (hb : isSep b = true)
      (h : Parted isSep parts s) : Parted isSep parts (b :: s)
  | part {b : UInt8} {part : Text} {parts : List Text} {s : Text} (hb : isSep b = true)
      (h : Parted isSep parts s) : Parted isSep (part :: parts) (part ++ b :: s)

/-- The parts before a byte; the one that has it is cut off there. -/
def upTo (stop : UInt8) : List Text → List Text
  | [] => []
  | part :: parts => if stop ∈ part then [before stop part] else part :: upTo stop parts

theorem upTo_of_not_mem {stop : UInt8} {parts : List Text} (h : ∀ part ∈ parts, stop ∉ part) :
    upTo stop parts = parts := by
  induction parts with
  | nil => rfl
  | cons part parts ih =>
    rw [List.forall_mem_cons] at h
    rw [upTo, if_neg h.1, ih h.2]

variable {isSep : UInt8 → Bool} {parts : List Text}

theorem Parted.gap {gap : Text} (hgap : ∀ b ∈ gap, isSep b = true) (h : Parted isSep parts s) :
    Parted isSep parts (gap ++ s) := by
  induction gap with
  | nil => exact h
  | cons b gap ih =>
    rw [List.forall_mem_cons] at hgap
    exact .sep hgap.1 (ih hgap.2)

theorem Parted.partGap {part gap : Text} (hgap : ∀ b ∈ gap, isSep b = true) (hb : isSep b = true)
    (h : Parted isSep parts s) : Parted isSep (part :: parts) (part ++ (gap ++ b :: s)) := by
  cases gap with
  | nil => exact .part hb h
  | cons c gap =>
    rw [List.forall_mem_cons] at hgap
    exact .part hgap.1 (.gap hgap.2 (.sep hb h))

/-- A word without separators occurs before a byte if it does in one of the parts there. -/
theorem Parted.infix_before_iff (h : Parted isSep parts s) {stop : UInt8}
    (hstop : isSep stop = false) (hne : word ≠ []) (hword : word.any isSep = false) :
    word <:+: before stop s ↔ ∃ part ∈ upTo stop parts, word <:+: part := by
  have hsep {b : UInt8} (hb : isSep b = true) : b ∉ word ∧ b ≠ stop :=
    ⟨fun h => List.any_eq_false.mp hword b h hb, fun h => by simp [h, hstop] at hb⟩
  induction h with
  | nil => simpa [before, upTo] using hne
  | @sep b parts s hb _ ih =>
    have hbefore : before stop (b :: s) = [] ++ b :: before stop s :=
      List.takeWhile_cons_of_pos (by simpa using (hsep hb).2)
    rw [hbefore, infix_append_cons (hsep hb).1, List.infix_nil, or_iff_right hne]
    exact ih
  | @part b part parts s hb _ ih =>
    rw [upTo]
    split
    · next hmem => rw [before_append_of_mem hmem]; simp
    · next hmem =>
      have hbefore : before stop (b :: s) = b :: before stop s :=
        List.takeWhile_cons_of_pos (by simpa using (hsep hb).2)
      rw [before_append_of_not_mem hmem, hbefore, infix_append_cons (hsep hb).1]
      exact (or_congr_right ih).trans (by simp)

end Text

/-! ## Keys and values -/

namespace Toml

open Pyproject (isIndent)

/-- Whether a byte may stand on a line: no control byte but the tab. -/
def isInner (b : UInt8) : Bool := b == 9 || (32 ≤ b && b != 127)

def isBareByte (b : UInt8) : Bool := Byte.isLetterOrDigit b || b == '_'.ascii || b == '-'.ascii

/-- Whether a byte may stand in a number, a date or a truth value. -/
def isTokenByte (b : UInt8) : Bool :=
  isBareByte b || b == '+'.ascii || b == '.'.ascii || b == ':'.ascii

/-- The letters that a backslash may stand before, and what they mean. -/
def shortEscapes : List (UInt8 × UInt8) :=
  [('b'.ascii, 8), ('t'.ascii, 9), ('n'.ascii, 10), ('f'.ascii, 12), ('r'.ascii, 13),
    ('"'.ascii, '"'.ascii), ('\\'.ascii, '\\'.ascii)]

/-- What is written between double quotes, and the text it means. -/
inductive Spells : Text → Text → Prop
  | nil : Spells [] []
  | plain {b : UInt8} {written text : Text} (hinner : isInner b = true) (hquote : b ≠ '"'.ascii)
      (hslash : b ≠ '\\'.ascii) (h : Spells written text) : Spells (b :: written) (b :: text)
  | short {letter b : UInt8} {written text : Text} (hletter : (letter, b) ∈ shortEscapes)
      (h : Spells written text) : Spells ('\\'.ascii :: letter :: written) (b :: text)
  | code {mark : UInt8} {digits written text : Text} {c : Char}
      (hmark : (mark, digits.length) ∈ [('u'.ascii, 4), ('U'.ascii, 8)])
      (hdigits : Pattern.hexDigits? digits.length 0 digits = some (c.toNat, []))
      (h : Spells written text) :
      Spells ('\\'.ascii :: mark :: (digits ++ written)) (String.utf8EncodeChar c ++ text)

theorem Spells.of_plain {s : Text}
    (h : ∀ b ∈ s, isInner b = true ∧ b ≠ '"'.ascii ∧ b ≠ '\\'.ascii) : Spells s s := by
  induction s with
  | nil => exact .nil
  | cons b s ih =>
    obtain ⟨⟨hinner, hquote, hslash⟩, h⟩ := List.forall_mem_cons.mp h
    exact .plain hinner hquote hslash (ih h)

/-- What is written between quotes of one kind. -/
inductive IsString : Text → Text → Prop
  | basic {written text : Text} (h : Spells written text) :
      IsString ('"'.ascii :: (written ++ ['"'.ascii])) text
  | literal {text : Text} (h : ∀ b ∈ text, isInner b = true ∧ b ≠ '\''.ascii) :
      IsString ('\''.ascii :: (text ++ ['\''.ascii])) text

/-- A key as it is written, and the first of its names: several may have dots between them. -/
inductive IsPath : Text → Text → Prop
  | bare {name : Text} (hne : name ≠ []) (h : ∀ b ∈ name, isBareByte b = true) : IsPath name name
  | quoted {written name : Text} (h : IsString written name) : IsPath written name
  | dotted {first next name other before behind : Text} (h : IsPath first name)
      (h' : IsPath next other) (hbefore : ∀ b ∈ before, isIndent b = true)
      (hbehind : ∀ b ∈ behind, isIndent b = true) :
      IsPath (first ++ (before ++ '.'.ascii :: (behind ++ next))) name

/-- A value in an array or a table, and the blanks around it. -/
structure Item where
  before : Text
  value : Text
  behind : Text
  isIndent_before : ∀ b ∈ before, isIndent b = true
  isIndent_behind : ∀ b ∈ behind, isIndent b = true

def Item.written (i : Item) : Text := i.before ++ (i.value ++ i.behind)

/-- A key, an equals sign and a value, and the blanks around them. -/
structure Member where
  before : Text
  key : Text
  /-- The first name of the key, which is what it names in the table. -/
  name : Text
  afterKey : Text
  item : Item
  isPath : IsPath key name
  isIndent_before : ∀ b ∈ before, isIndent b = true
  isIndent_afterKey : ∀ b ∈ afterKey, isIndent b = true

def Member.written (m : Member) : Text :=
  m.before ++ (m.key ++ (m.afterKey ++ '='.ascii :: m.item.written))

/-- Texts with commas between them. -/
def row (texts : List Text) : Text := Text.joinWith [','.ascii] texts

inductive IsValue : Text → Prop
  | string {written text : Text} (h : IsString written text) : IsValue written
  | token {token : Text} (hne : token ≠ []) (h : ∀ b ∈ token, isTokenByte b = true) : IsValue token
  | moment {date time : Text} (hdate : ∀ b ∈ date, isTokenByte b = true)
      (htime : ∀ b ∈ time, isTokenByte b = true) : IsValue (date ++ 32 :: time)
  | array {items : List Item} {comma blank : Text} (h : ∀ i ∈ items, IsValue i.value)
      (hcomma : comma = [] ∨ comma = [','.ascii]) (hblank : ∀ b ∈ blank, isIndent b = true) :
      IsValue ('['.ascii :: (row (items.map Item.written) ++ comma ++ blank ++ [']'.ascii]))
  | table {members : List Member} {blank : Text} (h : ∀ m ∈ members, IsValue m.item.value)
      (hblank : ∀ b ∈ blank, isIndent b = true) :
      IsValue ('\x7b'.ascii :: (row (members.map Member.written) ++ blank ++ ['\x7d'.ascii]))

/-- An inline table. -/
structure InlineTable where
  members : List Member
  blank : Text
  isValue : ∀ m ∈ members, IsValue m.item.value
  isIndent_blank : ∀ b ∈ blank, isIndent b = true

/-! ### What may stand on a line -/

/-- All bytes of a text may stand on a line. -/
def OnLine (s : Text) : Prop := ∀ b ∈ s, isInner b = true

section OnLine

variable {b : UInt8} {s s' : Text}

@[simp]
theorem onLine_nil : OnLine [] := List.forall_mem_nil _

@[simp]
theorem onLine_cons : OnLine (b :: s) ↔ isInner b = true ∧ OnLine s := List.forall_mem_cons

@[simp]
theorem onLine_append : OnLine (s ++ s') ↔ OnLine s ∧ OnLine s' := List.forall_mem_append

theorem onLine_of_isIndent (h : ∀ b ∈ s, isIndent b = true) : OnLine s := fun b hb => by
  obtain rfl | rfl := Pyproject.isIndent_iff.mp (h b hb) <;> rfl

theorem onLine_of_isTokenByte (h : ∀ b ∈ s, isTokenByte b = true) : OnLine s := fun b hb => by
  grind [h b hb, isTokenByte, isBareByte, isInner, Byte.isLetterOrDigit, Byte.isLetter,
    Byte.isUpper, Byte.isLower, Byte.isDigit, Char.ascii]

theorem onLine_of_hexDigits? {n value : Nat} {result : Nat × Text}
    (h : Pattern.hexDigits? n value s = some result) (hn : n = s.length) : OnLine s := by
  induction s generalizing n value with
  | nil => exact onLine_nil
  | cons b s ih =>
    subst hn
    rw [List.length_cons, Pattern.hexDigits?] at h
    cases hdigit : Pattern.hexValue? b with
    | none => simp [hdigit] at h
    | some d =>
      rw [hdigit] at h
      refine onLine_cons.mpr ⟨?_, ih h rfl⟩
      unfold Pattern.hexValue? at hdigit
      grind [isInner, Byte.isDigit]

theorem onLine_row {texts : List Text} (h : ∀ s ∈ texts, OnLine s) : OnLine (row texts) := by
  intro b hb
  obtain hb | ⟨s, hs, hb⟩ := Text.mem_joinWith hb
  · rw [List.mem_singleton.mp hb]
    rfl
  · exact h s hs b hb

end OnLine

theorem Spells.onLine {written text : Text} (h : Spells written text) : OnLine written := by
  induction h with
  | nil => exact onLine_nil
  | plain hinner _ _ _ ih => exact onLine_cons.mpr ⟨hinner, ih⟩
  | short hletter _ ih =>
    have hinner : shortEscapes.all (fun escape => isInner escape.1) = true := by decide
    have hletter := List.all_eq_true.mp hinner _ hletter
    exact onLine_cons.mpr ⟨rfl, onLine_cons.mpr ⟨hletter, ih⟩⟩
  | code hmark hdigits _ ih =>
    have hinner : [('u'.ascii, 4), ('U'.ascii, 8)].all (fun mark => isInner mark.1) = true := rfl
    have hmark := List.all_eq_true.mp hinner _ hmark
    have hdigits := onLine_of_hexDigits? hdigits rfl
    exact onLine_cons.mpr ⟨rfl, onLine_cons.mpr ⟨hmark, onLine_append.mpr ⟨hdigits, ih⟩⟩⟩

theorem IsString.onLine {written text : Text} (h : IsString written text) : OnLine written := by
  cases h with
  | basic h => simp +decide [h.onLine]
  | literal h => simp +decide [show OnLine text from fun b hb => (h b hb).1]

theorem IsPath.onLine {written name : Text} (h : IsPath written name) : OnLine written := by
  induction h with
  | bare _ h => exact onLine_of_isTokenByte fun b hb => by simp [isTokenByte, h b hb]
  | quoted h => exact h.onLine
  | dotted _ _ hbefore hbehind ih ih' =>
    simp +decide [ih, ih', onLine_of_isIndent hbefore, onLine_of_isIndent hbehind]

theorem Item.onLine {i : Item} (h : OnLine i.value) : OnLine i.written := by
  simp [written, h, onLine_of_isIndent i.isIndent_before, onLine_of_isIndent i.isIndent_behind]

theorem Member.onLine {m : Member} (h : OnLine m.item.value) : OnLine m.written := by
  simp +decide [written, m.isPath.onLine, Item.onLine h, onLine_of_isIndent m.isIndent_before,
    onLine_of_isIndent m.isIndent_afterKey]

theorem IsValue.onLine {value : Text} (h : IsValue value) : OnLine value := by
  induction h with
  | string h => exact h.onLine
  | token _ h => exact onLine_of_isTokenByte h
  | moment hdate htime =>
    simp +decide [onLine_of_isTokenByte hdate, onLine_of_isTokenByte htime]
  | array _ hcomma hblank ih =>
    have hrow := onLine_row (List.forall_mem_map.mpr fun i hi => Item.onLine (ih i hi))
    obtain rfl | rfl := hcomma
    · simp +decide [hrow, onLine_of_isIndent hblank]
    · simp +decide [hrow, onLine_of_isIndent hblank]
  | table _ hblank ih =>
    have hrow := onLine_row (List.forall_mem_map.mpr fun m hm => Member.onLine (ih m hm))
    simp +decide [hrow, onLine_of_isIndent hblank]

/-! ### What separates keys and values -/

/-- The bytes that stand between keys and values. -/
def isSeparator (b : UInt8) : Bool :=
  isIndent b || b == '\x7b'.ascii || b == '\x7d'.ascii || b == ','.ascii || b == '='.ascii

theorem isSeparator_of_isIndent {s : Text} (h : ∀ b ∈ s, isIndent b = true) :
    ∀ b ∈ s, isSeparator b = true := fun b hb => by simp [isSeparator, h b hb]

/-- The key and the value of a member. -/
def Member.parts (m : Member) : List Text := [m.key, m.item.value]

theorem Member.parted (m : Member) {b : UInt8} (hb : isSeparator b = true) {more : List Text}
    {s : Text} (h : Text.Parted isSeparator more s) :
    Text.Parted isSeparator (m.parts ++ more) (m.written ++ b :: s) := by
  have hvalue : Text.Parted isSeparator (m.item.value :: more)
      (m.item.before ++ (m.item.value ++ (m.item.behind ++ b :: s))) :=
    .gap (isSeparator_of_isIndent m.item.isIndent_before)
      (.partGap (isSeparator_of_isIndent m.item.isIndent_behind) hb h)
  have hkey : Text.Parted isSeparator (m.key :: m.item.value :: more)
      (m.before ++ (m.key ++ (m.afterKey ++ '='.ascii ::
        (m.item.before ++ (m.item.value ++ (m.item.behind ++ b :: s)))))) :=
    .gap (isSeparator_of_isIndent m.isIndent_before)
      (.partGap (isSeparator_of_isIndent m.isIndent_afterKey) rfl hvalue)
  simpa [Member.parts, Member.written, Item.written] using hkey

/-- The members of a table, in front of what stands behind them. -/
theorem parted_row (members : List Member) {b : UInt8} (hb : isSeparator b = true) {s : Text}
    (h : Text.Parted isSeparator [] s) :
    Text.Parted isSeparator (members.flatMap Member.parts)
      (row (members.map Member.written) ++ b :: s) := by
  induction members with
  | nil => exact .sep hb h
  | cons m members ih =>
    rw [List.flatMap_cons]
    cases members with
    | nil => exact m.parted hb h
    | cons next rest =>
      have hrow : row ((m :: next :: rest).map Member.written) ++ b :: s =
          m.written ++ ','.ascii :: (row ((next :: rest).map Member.written) ++ b :: s) := by
        simp [row, Text.joinWith]
      rw [hrow]
      exact m.parted rfl ih

/-! ### Tables -/

namespace InlineTable

variable (t : InlineTable)

def written : Text :=
  '\x7b'.ascii :: (row (t.members.map Member.written) ++ t.blank ++ ['\x7d'.ascii])

def HasKey (name : Text) : Prop := ∃ m ∈ t.members, m.name = name

instance (name : Text) : Decidable (t.HasKey name) :=
  inferInstanceAs (Decidable (∃ m ∈ t.members, m.name = name))

/-- The keys and values as they are written. -/
def parts : List Text := t.members.flatMap Member.parts

/-- A word occurs in a key or a value, in so far as these stand before the first hash. -/
def Mentions (word : Text) : Prop := ∃ part ∈ Text.upTo '#'.ascii t.parts, word <:+: part

theorem onLine : OnLine t.written := (IsValue.table t.isValue t.isIndent_blank).onLine

theorem parted : Text.Parted isSeparator t.parts t.written := by
  have hclosing : Text.Parted isSeparator [] ['\x7d'.ascii] := .sep rfl .nil
  refine .sep rfl ?_
  cases hblank : t.blank with
  | nil =>
    rw [List.append_nil]
    exact parted_row t.members rfl .nil
  | cons b blank =>
    have hindent := isSeparator_of_isIndent t.isIndent_blank
    rw [hblank, List.forall_mem_cons] at hindent
    rw [List.append_assoc, List.cons_append]
    exact parted_row t.members hindent.1 (.gap hindent.2 hclosing)

/-- A word without separators occurs in what stands of a table before its first hash if a key or a
value there has it. -/
theorem mentions_iff {word : Text} (hne : word ≠ []) (hword : word.any isSeparator = false) :
    t.Mentions word ↔ word <:+: Text.before '#'.ascii t.written :=
  (t.parted.infix_before_iff rfl hne hword).symm

end InlineTable

end Toml

end Triage
