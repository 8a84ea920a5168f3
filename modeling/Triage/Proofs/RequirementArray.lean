import Mathlib.Data.List.TakeWhile
import Triage.Manifest
import Triage.Proofs.FileSystem.Path

/-!
The dependency array of a Python project and the two ways to lay it out. An array is a row of
quoted requirements (`RequirementArray`). On one line it always declares each of them. With one
element to a line it does so if and only if no element but the last contains a closing bracket,
because any such bracket on a line that continues an array ends the array, also one that closes
the extras of a requirement.

Reading is line by line, so the module first cuts a reading where the array begins and ends, then
says what one line does in each state, and then what the lines of the elements do together.
-/

namespace Triage

/-! ## Readings that are cut -/

namespace Dependency

variable {σ : Type} {step : σ → Nat → Text → σ × List Dependency}

/-- The state after some lines. -/
def stateAfter (step : σ → Nat → Text → σ × List Dependency) (state : σ) (number : Nat) :
    List Text → σ
  | [] => state
  | line :: rest => stateAfter step (step state number line).1 (number + 1) rest

theorem collect_cons (s : σ) (n : Nat) (line : Text) (rest : List Text) :
    collect step s n (line :: rest) =
      (step s n line).2 ++ collect step (step s n line).1 (n + 1) rest := rfl

theorem collect_append (s : σ) (n : Nat) (above below : List Text) :
    collect step s n (above ++ below) =
      collect step s n above ++
        collect step (stateAfter step s n above) (n + above.length) below := by
  induction above generalizing s n with
  | nil => rfl
  | cons line rest ih =>
    rw [List.cons_append, collect_cons, collect_cons, ih, List.append_assoc, List.length_cons,
      Nat.add_right_comm n 1, Nat.add_assoc n]
    rfl

end Dependency

/-! ## Quotes on a line -/

namespace Dependency

/-- Whether a byte opens and closes a quoted text. -/
def isQuote (b : UInt8) : Bool := b == '"'.ascii || b == '\''.ascii

theorem quotedTexts_cons {b : UInt8} (hb : isQuote b = false) (rest : Text) :
    quotedTexts (b :: rest) = quotedTexts rest := by
  rw [quotedTexts, if_neg]
  simp only [isQuote] at hb
  simp [hb]

theorem quotedTexts_append {gap : Text} (hgap : ∀ b ∈ gap, isQuote b = false) (rest : Text) :
    quotedTexts (gap ++ rest) = quotedTexts rest := by
  induction gap with
  | nil => rfl
  | cons b gap ih =>
    rw [List.cons_append, quotedTexts_cons (hgap b (by simp)),
      ih fun c hc => hgap c (List.mem_cons_of_mem b hc)]

theorem quotedTexts_of_no_quote {s : Text} (h : ∀ b ∈ s, isQuote b = false) :
    quotedTexts s = [] := by
  simpa [quotedTexts] using quotedTexts_append h []

/-- A text in double quotes is found, and reading goes on behind it. -/
theorem quotedTexts_quoted {r : Text} (hr : '"'.ascii ∉ r) (rest : Text) :
    quotedTexts ('"'.ascii :: (r ++ '"'.ascii :: rest)) = r :: quotedTexts rest := by
  rw [quotedTexts, if_pos (by simp), Text.before_append_cons hr, Text.after_append_cons hr]

/-- One double quote alone encloses nothing. -/
theorem quotedTexts_one_quote {a c : Text} (ha : ∀ b ∈ a, isQuote b = false)
    (hc : ∀ b ∈ c, isQuote b = false) : quotedTexts (a ++ '"'.ascii :: c) = [] := by
  have hmem : '"'.ascii ∉ c := fun h => absurd (hc _ h) (by decide)
  rw [quotedTexts_append ha, quotedTexts, if_neg (by simpa using hmem),
    quotedTexts_of_no_quote hc]

end Dependency

/-! ## The written array -/

namespace Pyproject

/-- Whether a byte may stand inside a requirement. -/
def isInner (b : UInt8) : Bool :=
  32 ≤ b && b != 127 && b != '"'.ascii && b != '\''.ascii && b != '#'.ascii && b != '\\'.ascii

/-- Whether a byte may stand between the elements of an array: a comma, a space or a tab. -/
def isGap (b : UInt8) : Bool := b == ','.ascii || b == 32 || b == 9

/-- Whether a byte may stand around the equals sign and before the closing bracket. -/
def isIndent (b : UInt8) : Bool := b == 32 || b == 9

/-- A requirement as it stands in an array: it starts with a letter or a digit, ends with no blank,
and is printable without quotes, hashes and backslashes. -/
structure IsRequirement (r : Text) : Prop where
  start : r.head?.any Byte.isLetterOrDigit = true
  inner : ∀ b ∈ r, isInner b = true
  noBlankAtEnd : r.getLast?.any Byte.isBlank = false

/-- An element of an array as it is written: the quoted requirement, and what separates it from its
neighbours. -/
structure Element where
  before : Text
  requirement : Text
  behind : Text
  isGap_before : ∀ b ∈ before, isGap b = true
  isRequirement : IsRequirement requirement
  isGap_behind : ∀ b ∈ behind, isGap b = true

/-- The array of dependencies in a project section, with the blanks that a layout may choose. -/
structure RequirementArray where
  elements : List Element
  afterName : Text
  afterEquals : Text
  beforeClosing : Text
  isIndent_afterName : ∀ b ∈ afterName, isIndent b = true
  isIndent_afterEquals : ∀ b ∈ afterEquals, isIndent b = true
  isIndent_beforeClosing : ∀ b ∈ beforeClosing, isIndent b = true

def Element.line (e : Element) : Text :=
  e.before ++ '"'.ascii :: (e.requirement ++ '"'.ascii :: e.behind)

namespace RequirementArray

variable (a : RequirementArray)

/-- The line that opens the array, up to its bracket, and what follows the bracket. -/
def opening (rest : Text) : Text :=
  "dependencies".ascii ++ a.afterName ++ '='.ascii :: (a.afterEquals ++ '['.ascii :: rest)

def closing : Text := a.beforeClosing ++ [']'.ascii]

/-- The array on one line. -/
def oneLine : Text := a.opening (a.elements.flatMap Element.line ++ a.closing)

/-- The array with one element to a line and the closing bracket on a line of its own. -/
def onePerLine : List Text := a.opening [] :: a.elements.map Element.line ++ [a.closing]

end RequirementArray

/-- The dependency that a requirement on a line declares. -/
def declared (number : Nat) (r : Text) : Dependency :=
  let version := Dependency.versionAfterName (r.dropWhile Dependency.isNameByte)
  ⟨r.takeWhile Dependency.isNameByte, version, number, Dependency.isExact version⟩

/-- Extras in brackets and a marker belong neither to the name nor to the version. -/
theorem declared_extras {name extras version marker : Text}
    (hname : ∀ b ∈ name, Dependency.isNameByte b = true) (hextras : ']'.ascii ∉ extras)
    (hmarker : ';'.ascii ∉ extras ++ version) (number : Nat) :
    declared number
        (name ++ '['.ascii :: (extras ++ ']'.ascii :: (version ++ ';'.ascii :: marker))) =
      ⟨name, Text.trim version, number, Dependency.isExact (Text.trim version)⟩ := by
  have hbracket : Dependency.isNameByte '['.ascii = false := rfl
  have hopening : ']'.ascii ∉ '['.ascii :: extras := by
    simp [hextras, show ']'.ascii ≠ '['.ascii by decide]
  have hsemicolon : ';'.ascii ∉ ('['.ascii :: extras) ++ ']'.ascii :: version := by
    simp_all [show ';'.ascii ≠ '['.ascii by decide, show ';'.ascii ≠ ']'.ascii by decide]
  have hsplit : '['.ascii :: (extras ++ ']'.ascii :: (version ++ ';'.ascii :: marker)) =
      (('['.ascii :: extras) ++ ']'.ascii :: version) ++ ';'.ascii :: marker := by simp
  have hversion : Dependency.versionAfterName
      ('['.ascii :: (extras ++ ']'.ascii :: (version ++ ';'.ascii :: marker))) =
        Text.trim version := by
    rw [Dependency.versionAfterName, hsplit, Text.before_append_cons hsemicolon]
    exact congrArg Text.trim ((if_pos rfl).trans (Text.after_append_cons hopening version))
  have hstart : name.takeWhile Dependency.isNameByte = name :=
    List.takeWhile_eq_self_iff.mpr hname
  have hrest : name.dropWhile Dependency.isNameByte = [] := List.dropWhile_eq_nil_iff.mpr hname
  rw [declared, Text.takeWhile_append_cons hbracket, Text.dropWhile_append_cons hbracket, hstart,
    hrest, List.nil_append, hversion]

/-! ### What may stand where -/

theorem isGap_iff {b : UInt8} : isGap b = true ↔ b = ','.ascii ∨ b = 32 ∨ b = 9 := by
  simp [isGap, or_assoc]

theorem isIndent_iff {b : UInt8} : isIndent b = true ↔ b = 32 ∨ b = 9 := by simp [isIndent]

theorem takeWhile_indent {s : Text} (h : ∀ b ∈ s, isIndent b = true) :
    s.takeWhile Dependency.isNameByte = [] := by
  cases s with
  | nil => rfl
  | cons b s => rcases isIndent_iff.mp (h b List.mem_cons_self) with rfl | rfl <;> rfl

theorem dropWhile_indent {s : Text} (h : ∀ b ∈ s, isIndent b = true) :
    s.dropWhile Dependency.isNameByte = s := by
  cases s with
  | nil => rfl
  | cons b s => rcases isIndent_iff.mp (h b List.mem_cons_self) with rfl | rfl <;> rfl

theorem dropSpace_indent {s : Text} (h : ∀ b ∈ s, isIndent b = true) :
    s.dropWhile Byte.isSpace = [] :=
  List.dropWhile_eq_nil_iff.mpr fun b hb => by
    rcases isIndent_iff.mp (h b hb) with rfl | rfl <;> rfl

theorem ne_of_isIndent {b c : UInt8} (h : isIndent b = true) (hc : isIndent c = false) :
    b ≠ c := by
  rintro rfl
  simp [h] at hc

theorem not_mem_indent (b : UInt8) (hb : isIndent b = false) {s : Text}
    (h : ∀ c ∈ s, isIndent c = true) : b ∉ s := fun hmem => ne_of_isIndent (h b hmem) hb rfl

theorem skipByte_indent {s : Text} (h : ∀ b ∈ s, isIndent b = true) {b c : UInt8}
    (hb : isIndent b = false) (hc : c ≠ b) (rest : Text) :
    Dependency.skipByte b (s ++ c :: rest) = s ++ c :: rest := by
  cases s with
  | nil => simp [Dependency.skipByte, hc]
  | cons d s =>
    have hd : d ≠ b := ne_of_isIndent (h d List.mem_cons_self) hb
    simp [Dependency.skipByte, hd]

theorem isQuote_of_isGap {b : UInt8} (h : isGap b = true) : Dependency.isQuote b = false := by
  rcases isGap_iff.mp h with rfl | rfl | rfl <;> rfl

theorem isQuote_of_isInner {b : UInt8} (h : isInner b = true) : Dependency.isQuote b = false := by
  simp_all [isInner, Dependency.isQuote]

theorem ne_of_isGap {b c : UInt8} (h : isGap b = true) (hc : isGap c = false) : b ≠ c := by
  rintro rfl
  simp [h] at hc

theorem IsRequirement.exists_cons {r : Text} (h : IsRequirement r) :
    ∃ b rest, r = b :: rest ∧ Byte.isLetterOrDigit b = true := by
  cases r with
  | nil => exact absurd h.start (by simp)
  | cons b rest => exact ⟨b, rest, rfl, by simpa using h.start⟩

theorem IsRequirement.no_quote {r : Text} (h : IsRequirement r) : '"'.ascii ∉ r := fun hmem =>
  absurd (h.inner _ hmem) (by decide)

theorem IsRequirement.ofRequirement? {r : Text} (h : IsRequirement r) (number : Nat) :
    Dependency.ofRequirement? number r = some (declared number r) := by
  obtain ⟨b, rest, rfl, hb⟩ := h.exists_cons
  have hname : Dependency.isNameByte b = true := by simp [Dependency.isNameByte, hb]
  rw [Dependency.ofRequirement?, if_neg (by simp [hname])]
  rfl

theorem Element.mem_line {e : Element} {b : UInt8} (h : b ∈ e.line) :
    isGap b = true ∨ b = '"'.ascii ∨ isInner b = true := by
  simp only [line, List.mem_append, List.mem_cons] at h
  rcases h with h | h | h | h | h
  · exact .inl (e.isGap_before b h)
  · exact .inr (.inl h)
  · exact .inr (.inr (e.isRequirement.inner b h))
  · exact .inr (.inl h)
  · exact .inl (e.isGap_behind b h)

/-- An element brings neither a comment nor a carriage return. -/
theorem Element.ne_of_mem_line {e : Element} {b : UInt8} (h : b ∈ e.line) :
    b ≠ '#'.ascii ∧ b ≠ Byte.carriageReturn := by
  rcases Element.mem_line h with h | rfl | h
  · rcases isGap_iff.mp h with rfl | rfl | rfl <;> decide
  · decide
  · constructor
    · rintro rfl
      exact absurd h (by decide)
    · rintro rfl
      exact absurd h (by decide)

theorem quotedTexts_line (e : Element) (rest : Text) :
    Dependency.quotedTexts (e.line ++ rest) = e.requirement :: Dependency.quotedTexts rest := by
  have hline : e.line ++ rest =
      e.before ++ '"'.ascii :: (e.requirement ++ '"'.ascii :: (e.behind ++ rest)) := by
    simp [Element.line]
  rw [hline, Dependency.quotedTexts_append fun b hb => isQuote_of_isGap (e.isGap_before b hb),
    Dependency.quotedTexts_quoted e.isRequirement.no_quote,
    Dependency.quotedTexts_append fun b hb => isQuote_of_isGap (e.isGap_behind b hb)]

theorem quotedTexts_lines (es : List Element) (rest : Text) :
    Dependency.quotedTexts (es.flatMap Element.line ++ rest) =
      es.map Element.requirement ++ Dependency.quotedTexts rest := by
  induction es with
  | nil => rfl
  | cons e es ih =>
    rw [List.flatMap_cons, List.append_assoc, quotedTexts_line, ih, List.map_cons,
      List.cons_append]

theorem inQuotes_of_quotedTexts {es : List Element} {line : Text} {number : Nat}
    (h : Dependency.quotedTexts line = es.map Element.requirement) :
    inQuotes number line = es.map fun e => declared number e.requirement := by
  have hdeclared : Dependency.ofRequirement? number ∘ Element.requirement =
      some ∘ fun e => declared number e.requirement :=
    funext fun e => e.isRequirement.ofRequirement? number
  rw [inQuotes, h, List.filterMap_map, hdeclared, List.filterMap_eq_map]

/-! ### What one line does -/

/-- The reader in the project section, within an array or not. -/
def inProject (inArray : Bool) : State := ⟨"project".ascii, inArray⟩

/-- A line without a comment is read as it stands, without the blanks at its ends. -/
theorem withoutComment_of_not_mem {line : Text} (h : '#'.ascii ∉ line) :
    Dependency.withoutComment line = Text.trim line := by
  rw [Dependency.withoutComment, Text.before_of_not_mem h]

/-- What is left of an element's line without the blanks at its ends. -/
def Element.trimmed (e : Element) : Text :=
  Text.trimLeft e.before ++
    '"'.ascii :: (e.requirement ++ '"'.ascii :: Text.trimRight e.behind)

theorem Element.withoutComment_line (e : Element) :
    Dependency.withoutComment e.line = e.trimmed := by
  rw [withoutComment_of_not_mem fun h => (Element.ne_of_mem_line h).1 rfl]
  exact Text.trim_append_cons rfl rfl e.before e.requirement e.behind

theorem Element.isGap_trimRight (e : Element) :
    ∀ b ∈ Text.trimRight e.behind, isGap b = true :=
  fun b hb => e.isGap_behind b (Text.mem_of_mem_trimRight hb)

/-- Without the blanks at its start, what separates an element from the one before it is nothing or
starts with a comma. -/
theorem Element.trimLeft_before (e : Element) :
    Text.trimLeft e.before = [] ∨ ∃ rest, Text.trimLeft e.before = ','.ascii :: rest := by
  rcases Text.trimLeft_eq_nil_or e.before with h | ⟨b, rest, h, hb⟩
  · exact .inl h
  · have hmem : b ∈ e.before := Text.mem_of_mem_trimLeft (by simp [h])
    rcases isGap_iff.mp (e.isGap_before b hmem) with rfl | rfl | rfl
    · exact .inr ⟨rest, h⟩
    · exact absurd hb (by decide)
    · exact absurd hb (by decide)

theorem Element.quotedTexts_trimmed (e : Element) :
    Dependency.quotedTexts e.trimmed = [e].map Element.requirement := by
  have hbefore : ∀ b ∈ Text.trimLeft e.before, Dependency.isQuote b = false := fun b hb =>
    isQuote_of_isGap (e.isGap_before b (Text.mem_of_mem_trimLeft hb))
  have hbehind : ∀ b ∈ Text.trimRight e.behind, Dependency.isQuote b = false := fun b hb =>
    isQuote_of_isGap (e.isGap_trimRight b hb)
  rw [trimmed, Dependency.quotedTexts_append hbefore,
    Dependency.quotedTexts_quoted e.isRequirement.no_quote,
    Dependency.quotedTexts_of_no_quote hbehind]
  rfl

theorem Element.contains_trimmed (e : Element) :
    e.trimmed.contains ']'.ascii = e.requirement.contains ']'.ascii := by
  have hbefore : ']'.ascii ∉ Text.trimLeft e.before := fun h =>
    ne_of_isGap (e.isGap_before _ (Text.mem_of_mem_trimLeft h)) rfl rfl
  have hbehind : ']'.ascii ∉ Text.trimRight e.behind := fun h =>
    ne_of_isGap (e.isGap_trimRight _ h) rfl rfl
  have hquote : ']'.ascii ≠ '"'.ascii := by decide
  rw [Bool.eq_iff_iff]
  simp [trimmed, hbefore, hbehind, hquote]

/-- Within an array, the line of an element declares the element, and goes on with the array unless
the requirement contains a closing bracket. -/
theorem step_line_inArray (e : Element) (number : Nat) :
    step (inProject true) number e.line =
      (inProject (!e.requirement.contains ']'.ascii), [declared number e.requirement]) := by
  have hnonempty : e.trimmed.isEmpty = false := by simp [Element.trimmed]
  rw [step]
  simp only [e.withoutComment_line, hnonempty, Bool.false_eq_true, if_false, inProject, if_true,
    arrayLine, e.contains_trimmed, inQuotes_of_quotedTexts e.quotedTexts_trimmed]
  rfl

/-- A byte asked for is found only before a different one that follows. -/
theorem afterByte?_append_cons {b c : UInt8} (hc : c ≠ b) {start tail rest : Text}
    (h : Dependency.afterByte? b (start ++ c :: tail) = some rest) :
    ∃ start', start = b :: start' ∧ rest = start' ++ c :: tail := by
  cases start with
  | nil => simp [Dependency.afterByte?, hc] at h
  | cons d start' =>
    simp only [Dependency.afterByte?, List.cons_append, List.head?_cons, beq_iff_eq,
      Option.some.injEq, List.drop_succ_cons, List.drop_zero, Option.ite_none_right_eq_some] at h
    exact ⟨start', by rw [h.1], h.2.symm⟩

theorem mem_of_afterByte? {b : UInt8} {s rest : Text}
    (h : Dependency.afterByte? b s = some rest) : b ∈ s := by
  simp only [Dependency.afterByte?, beq_iff_eq, Option.ite_none_right_eq_some] at h
  exact List.mem_of_mem_head? (by simp [h.1])

theorem sectionName?_cons {b : UInt8} (hblank : Byte.isBlank b = false) (hb : b ≠ '['.ascii)
    (rest : Text) : Dependency.sectionName? (b :: rest) = none := by
  have htrim : Text.trim (b :: rest) = b :: Text.trimRight rest := by
    rw [Text.trim, ← List.nil_append (b :: rest), Text.trimLeft_append_cons hblank,
      Text.trimRight_append_cons hblank]
    rfl
  simp [Dependency.sectionName?, htrim, hb]

/-- Outside an array the line of an element may pass for an assignment, but then its value has the
closing quote and not the opening one. -/
theorem assignment?_trimmed {e : Element} {name rest : Text}
    (h : Dependency.assignment? true e.trimmed = some (name, rest)) :
    ∃ start, start <:+ e.requirement ∧
      rest = start ++ '"'.ascii :: Text.trimRight e.behind := by
  have hquote : Dependency.isNameByte '"'.ascii = false := rfl
  have hspace : Byte.isSpace '"'.ascii = false := rfl
  rcases e.trimLeft_before with hbefore | ⟨gap, hbefore⟩
  · -- The opening quote is skipped, as one around a name is.
    rw [Element.trimmed, hbefore, List.nil_append] at h
    simp only [Dependency.assignment?, List.dropWhile_cons, hspace, Bool.false_eq_true, if_false,
      if_true, Dependency.skipByte, List.head?_cons, beq_self_eq_true, List.drop_succ_cons,
      List.drop_zero, Text.dropWhile_append_cons hquote] at h
    split at h
    · simp at h
    · obtain ⟨value, hvalue, hpair⟩ := Option.map_eq_some_iff.mp h
      obtain ⟨rfl, rfl⟩ := Prod.mk.inj hpair
      have hsuffix := List.dropWhile_suffix (l := e.requirement) Dependency.isNameByte
      cases hstart : e.requirement.dropWhile Dependency.isNameByte with
      | nil =>
        -- All of the requirement is a name: no equals sign follows the closing quote.
        rw [hstart] at hvalue
        simp only [List.nil_append, List.head?_cons, beq_self_eq_true, if_true,
          List.drop_succ_cons, List.drop_zero] at hvalue
        have hmem : '='.ascii ∈ Text.trimRight e.behind :=
          (List.dropWhile_sublist _).mem (mem_of_afterByte? hvalue)
        exact absurd rfl (ne_of_isGap (e.isGap_trimRight _ hmem) rfl)
      | cons b start =>
        have hb : b ≠ '"'.ascii := fun hb =>
          e.isRequirement.no_quote (hsuffix.mem (by rw [hstart, hb]; exact List.mem_cons_self))
        rw [hstart, if_neg (by simpa using hb), Text.dropWhile_append_cons hspace] at hvalue
        obtain ⟨start', hcons, hrest⟩ := afterByte?_append_cons (by decide) hvalue
        refine ⟨start', ?_, hrest⟩
        have hstart' : start' <:+ (b :: start).dropWhile Byte.isSpace :=
          hcons ▸ List.suffix_cons _ _
        exact (hstart'.trans (List.dropWhile_suffix _)).trans (hstart ▸ hsuffix)
  · rw [Element.trimmed, hbefore] at h
    simp [Dependency.assignment?, Dependency.skipByte, show Byte.isSpace ','.ascii = false from rfl,
      show Dependency.isNameByte ','.ascii = false from rfl,
      show ','.ascii ≠ '"'.ascii by decide] at h

theorem quotedTexts_arrayStart?_trimmed {e : Element} {sectionName rest : Text}
    (h : arrayStart? sectionName e.trimmed = some rest) : Dependency.quotedTexts rest = [] := by
  simp only [arrayStart?, Option.bind_eq_bind, Option.bind_eq_some_iff] at h
  obtain ⟨⟨key, value⟩, hassignment, rest', hbracket, hrest⟩ := h
  obtain ⟨rfl⟩ : rest' = rest := by simpa using (Option.ite_none_right_eq_some.mp hrest).2
  obtain ⟨start, hsuffix, rfl⟩ := assignment?_trimmed hassignment
  rw [Text.dropWhile_append_cons rfl] at hbracket
  obtain ⟨start', hcons, rfl⟩ := afterByte?_append_cons (by decide) hbracket
  have hstart : ∀ b ∈ start', b ∈ e.requirement := fun b hb =>
    hsuffix.mem ((List.dropWhile_sublist _).mem (hcons ▸ List.mem_cons_of_mem _ hb))
  exact Dependency.quotedTexts_one_quote
    (fun b hb => isQuote_of_isInner (e.isRequirement.inner b (hstart b hb)))
    fun b hb => isQuote_of_isGap (e.isGap_trimRight b hb)

/-- Outside an array, the line of an element declares nothing. -/
theorem step_line_outside (e : Element) (number : Nat) :
    ∃ inArray, step (inProject false) number e.line = (inProject inArray, []) := by
  have hnonempty : e.trimmed.isEmpty = false := by simp [Element.trimmed]
  have hsection : Dependency.sectionName? e.trimmed = none := by
    rcases e.trimLeft_before with h | ⟨gap, h⟩
    · rw [Element.trimmed, h]
      exact sectionName?_cons rfl (by decide) _
    · rw [Element.trimmed, h]
      exact sectionName?_cons rfl (by decide) _
  have hpoetry : isPoetrySection "project".ascii = false := rfl
  rw [step]
  simp only [e.withoutComment_line, hnonempty, Bool.false_eq_true, if_false, inProject, hsection,
    hpoetry]
  cases hstart : arrayStart? "project".ascii e.trimmed with
  | none => exact ⟨false, rfl⟩
  | some rest =>
    refine ⟨!rest.contains ']'.ascii, ?_⟩
    simp [arrayLine, inQuotes, quotedTexts_arrayStart?_trimmed hstart]

namespace RequirementArray

variable (a : RequirementArray)

/-- A line that opens the array in the project section is taken for that. -/
theorem arrayStart?_opening {rest : Text} (hrest : Byte.carriageReturn ∉ rest) :
    arrayStart? "project".ascii (a.opening rest) = some rest := by
  have hname : ∀ b ∈ "dependencies".ascii, Dependency.isNameByte b = true :=
    List.all_eq_true.mp rfl
  have hkey : ("dependencies".ascii ++ a.afterName).takeWhile Dependency.isNameByte =
      "dependencies".ascii := by
    rw [List.takeWhile_append_of_pos hname, takeWhile_indent a.isIndent_afterName, List.append_nil]
  have hgap : ("dependencies".ascii ++ a.afterName).dropWhile Dependency.isNameByte =
      a.afterName := by
    rw [List.dropWhile_append_of_pos hname, dropWhile_indent a.isIndent_afterName]
  have hvalue : (a.afterName ++ '='.ascii :: (a.afterEquals ++ '['.ascii :: rest)).dropWhile
      Byte.isSpace = '='.ascii :: (a.afterEquals ++ '['.ascii :: rest) := by
    rw [Text.dropWhile_append_cons rfl, dropSpace_indent a.isIndent_afterName, List.nil_append]
  have hbracket : (a.afterEquals ++ '['.ascii :: rest).dropWhile Byte.isSpace =
      '['.ascii :: rest := by
    rw [Text.dropWhile_append_cons rfl, dropSpace_indent a.isIndent_afterEquals, List.nil_append]
  have hassignment : Dependency.assignment? true (a.opening rest) =
      some ("dependencies".ascii, a.afterEquals ++ '['.ascii :: rest) := by
    have hstart : Dependency.skipByte '"'.ascii ((a.opening rest).dropWhile Byte.isSpace) =
        a.opening rest := rfl
    have hname : Dependency.isNameByte '='.ascii = false := rfl
    simp only [Dependency.assignment?, if_true, hstart]
    rw [opening, Text.takeWhile_append_cons hname, Text.dropWhile_append_cons hname, hkey, hgap,
      skipByte_indent a.isIndent_afterName rfl (by decide), hvalue]
    rfl
  simp [arrayStart?, hassignment, hbracket, Dependency.afterByte?, listsRequirements, hrest]

theorem not_mem_opening {rest : Text} (h : '#'.ascii ∉ rest) : '#'.ascii ∉ a.opening rest := by
  have hname : '#'.ascii ∉ "dependencies".ascii := by decide
  have hequals : '#'.ascii ≠ '='.ascii := by decide
  have hbracket : '#'.ascii ≠ '['.ascii := by decide
  simp [opening, hname, hequals, hbracket, h, not_mem_indent '#'.ascii rfl a.isIndent_afterName,
    not_mem_indent '#'.ascii rfl a.isIndent_afterEquals]

theorem not_mem_append_closing {b : UInt8} {s : Text} (hs : b ∉ s) (hb : isIndent b = false)
    (hbracket : b ≠ ']'.ascii) : b ∉ s ++ a.closing := by
  simp [closing, hs, hbracket, not_mem_indent b hb a.isIndent_beforeClosing]

/-- A line that opens the array and ends with a bracket is read from its first bracket on. -/
theorem step_opening {rest : Text} (hcomment : '#'.ascii ∉ rest)
    (hcarriage : Byte.carriageReturn ∉ rest)
    (hlast : Text.trim (a.opening rest) = a.opening rest) (number : Nat) :
    step (inProject false) number (a.opening rest) =
      arrayLine (inProject false) number rest := by
  have hcut : Dependency.withoutComment (a.opening rest) = a.opening rest := by
    rw [withoutComment_of_not_mem (a.not_mem_opening hcomment), hlast]
  have hnonempty : (a.opening rest).isEmpty = false := rfl
  have hsection : Dependency.sectionName? (a.opening rest) = none :=
    sectionName?_cons rfl (by decide) _
  have hpoetry : isPoetrySection "project".ascii = false := rfl
  rw [step]
  simp only [hcut, hnonempty, Bool.false_eq_true, if_false, inProject, hsection, hpoetry,
    a.arrayStart?_opening hcarriage]

theorem step_opening_nil (number : Nat) :
    step (inProject false) number (a.opening []) = (inProject true, []) := by
  rw [a.step_opening List.not_mem_nil List.not_mem_nil]
  · simp [arrayLine, inProject, inQuotes, Dependency.quotedTexts]
  · have := Text.trim_eq_self (b := 'd'.ascii) (c := '['.ascii) rfl rfl
      ("ependencies".ascii ++ a.afterName ++ '='.ascii :: a.afterEquals)
    simpa [opening, String.ascii, Char.ascii] using this

/-- On one line, all elements are declared, and the array is over. -/
theorem step_oneLine (number : Nat) :
    step (inProject false) number a.oneLine =
      (inProject false, a.elements.map fun e => declared number e.requirement) := by
  have helements {b : UInt8} (hb : b = '#'.ascii ∨ b = Byte.carriageReturn) :
      b ∉ a.elements.flatMap Element.line := fun h => by
    obtain ⟨e, -, he⟩ := List.mem_flatMap.mp h
    obtain ⟨hhash, hcarriage⟩ := Element.ne_of_mem_line he
    exact hb.elim hhash hcarriage
  have hquotes : Dependency.quotedTexts (a.elements.flatMap Element.line ++ a.closing) =
      a.elements.map Element.requirement := by
    rw [quotedTexts_lines, Dependency.quotedTexts_of_no_quote, List.append_nil]
    intro b hb
    rcases List.mem_append.mp hb with hb | hb
    · rcases isIndent_iff.mp (a.isIndent_beforeClosing b hb) with rfl | rfl <;> rfl
    · rw [List.mem_singleton.mp hb]; rfl
  have hclosed : (a.elements.flatMap Element.line ++ a.closing).contains ']'.ascii = true := by
    simp [closing]
  rw [oneLine, step_opening]
  · rw [arrayLine, inQuotes_of_quotedTexts hquotes, hclosed]
    rfl
  · exact a.not_mem_append_closing (helements (.inl rfl)) rfl (by decide)
  · exact a.not_mem_append_closing (helements (.inr rfl)) rfl (by decide)
  · have := Text.trim_eq_self (b := 'd'.ascii) (c := ']'.ascii) rfl rfl
      ("ependencies".ascii ++ a.afterName ++ '='.ascii :: (a.afterEquals ++ '['.ascii ::
        (a.elements.flatMap Element.line ++ a.beforeClosing)))
    simpa [opening, closing, String.ascii, Char.ascii] using this

/-- The line of the closing bracket ends the array, and is passed over where none is open. -/
theorem step_closing (inArray : Bool) (number : Nat) :
    step (inProject inArray) number a.closing = (inProject false, []) := by
  have hblank : Text.trimLeft a.beforeClosing = [] :=
    List.dropWhile_eq_nil_iff.mpr fun b hb => by
      rcases isIndent_iff.mp (a.isIndent_beforeClosing b hb) with rfl | rfl <;> rfl
  have hcut : Dependency.withoutComment a.closing = [']'.ascii] := by
    have hcomment : '#'.ascii ∉ a.closing :=
      a.not_mem_append_closing List.not_mem_nil rfl (by decide)
    rw [withoutComment_of_not_mem hcomment, closing, Text.trim, Text.trimLeft_append_cons rfl,
      hblank]
    rfl
  have hsection : Dependency.sectionName? [']'.ascii] = none := rfl
  have hstart : arrayStart? "project".ascii [']'.ascii] = none := by decide
  have hquotes : inQuotes number [']'.ascii] = [] := by
    simp [inQuotes, Dependency.quotedTexts, Char.ascii]
  have hpoetry : isPoetrySection "project".ascii = false := rfl
  rw [step, hcut]
  cases inArray with
  | false => simp [inProject, hsection, hstart, hpoetry]
  | true => simp [inProject, arrayLine, hquotes]

end RequirementArray

/-! ### What the lines of the elements do together -/

/-- The state after the lines of some elements, whatever brackets they contain. -/
theorem stateAfter_lines (es : List Element) (inArray : Bool) (number : Nat) :
    ∃ after, Dependency.stateAfter step (inProject inArray) number (es.map Element.line) =
      inProject after := by
  induction es generalizing inArray number with
  | nil => exact ⟨inArray, rfl⟩
  | cons e es ih =>
    rw [List.map_cons, Dependency.stateAfter]
    cases inArray with
    | true => rw [step_line_inArray]; exact ih _ _
    | false =>
      obtain ⟨next, h⟩ := step_line_outside e number
      rw [h]
      exact ih _ _

/-- At most one dependency is declared for each element. -/
theorem length_collect_lines_le (es : List Element) (inArray : Bool) (number : Nat) :
    (Dependency.collect step (inProject inArray) number (es.map Element.line)).length ≤
      es.length := by
  induction es generalizing inArray number with
  | nil => exact Nat.le_refl 0
  | cons e es ih =>
    rw [List.map_cons, Dependency.collect_cons]
    cases inArray with
    | true =>
      rw [step_line_inArray]
      simpa using ih _ _
    | false =>
      obtain ⟨next, h⟩ := step_line_outside e number
      rw [h]
      exact (ih _ _).trans (Nat.le_succ _)

/-- Once the array is taken to be over, the next element is lost. -/
theorem length_collect_lines_lt {es : List Element} (hes : es ≠ []) (number : Nat) :
    (Dependency.collect step (inProject false) number (es.map Element.line)).length <
      es.length := by
  cases es with
  | nil => exact absurd rfl hes
  | cons e es =>
    obtain ⟨next, h⟩ := step_line_outside e number
    rw [List.map_cons, Dependency.collect_cons, h]
    exact Nat.lt_succ_of_le (length_collect_lines_le es next (number + 1))

/-- The dependencies that elements declare, each on a line of its own. -/
def declaredFrom (number : Nat) : List Element → List Dependency
  | [] => []
  | e :: es => declared number e.requirement :: declaredFrom (number + 1) es

theorem length_declaredFrom (number : Nat) (es : List Element) :
    (declaredFrom number es).length = es.length := by
  induction es generalizing number with
  | nil => rfl
  | cons e es ih => rw [declaredFrom, List.length_cons, ih, List.length_cons]

/-- If no element but the last contains a closing bracket, all are declared. -/
theorem collect_lines {es : List Element} (h : ∀ e ∈ es.dropLast, ']'.ascii ∉ e.requirement)
    (number : Nat) :
    Dependency.collect step (inProject true) number (es.map Element.line) =
      declaredFrom number es := by
  induction es generalizing number with
  | nil => rfl
  | cons e es ih =>
    rw [List.map_cons, Dependency.collect_cons, step_line_inArray, declaredFrom,
      List.singleton_append, List.cons_inj_right]
    by_cases hlast : es = []
    · subst hlast
      rfl
    · rw [List.dropLast_cons_of_ne_nil hlast, List.forall_mem_cons] at h
      have hopen : (!e.requirement.contains ']'.ascii) = true := by simp [h.1]
      rw [hopen]
      exact ih h.2 (number + 1)

/-- If an element but the last contains a closing bracket, one is lost. -/
theorem length_collect_lines_lt_of_bracket {es : List Element} {e : Element}
    (he : e ∈ es.dropLast) (hbracket : ']'.ascii ∈ e.requirement) (number : Nat) :
    (Dependency.collect step (inProject true) number (es.map Element.line)).length <
      es.length := by
  induction es generalizing number with
  | nil => simp at he
  | cons first es ih =>
    have hes : es ≠ [] := by
      rintro rfl
      simp at he
    rw [List.dropLast_cons_of_ne_nil hes, List.mem_cons] at he
    rw [List.map_cons, Dependency.collect_cons, step_line_inArray, List.singleton_append,
      List.length_cons, List.length_cons, Nat.succ_lt_succ_iff]
    -- The first bracket ends the array as it is read, and what comes behind it is not declared.
    by_cases hfirst : ']'.ascii ∈ first.requirement
    · have hclosed : (!first.requirement.contains ']'.ascii) = false := by simp [hfirst]
      rw [hclosed]
      exact length_collect_lines_lt hes (number + 1)
    · have hopen : (!first.requirement.contains ']'.ascii) = true := by simp [hfirst]
      rw [hopen]
      refine ih (he.resolve_left ?_) (number + 1)
      rintro rfl
      exact hfirst hbracket

end Pyproject

/-! ## The two layouts -/

/-- A manifest could be read and tells just these dependencies: it counts all of them and lists the
unpinned ones, in their order. -/
def Manifest.Reports (m : Manifest) (ds : List Dependency) : Prop :=
  m.error = [] ∧ m.packages = ds.length ∧ m.unpinned = ds.filter fun d => !d.pinned

namespace Pyproject

/-- The dependencies that the lines above an array declare. -/
def declaredAbove (above : List Text) : List Dependency :=
  Dependency.collect step ⟨[], false⟩ 1 above

/-- The dependencies that the lines below an array declare, of which the first has that number. -/
def declaredBelow (number : Nat) (below : List Text) : List Dependency :=
  Dependency.collect step (inProject false) number below

/-- Whether some lines end in the project section and outside an array. -/
def EndsInProject (above : List Text) : Prop :=
  Dependency.stateAfter step ⟨[], false⟩ 1 above = inProject false

theorem ofFile?_eq {path : Text} (hpath : ManifestKind.ofPath? path = some .pyproject)
    (text : Text) (document : Text → Option Document) :
    Manifest.ofFile? path text document = some ⟨path, .pyproject, dependencies text, []⟩ := by
  rw [Manifest.ofFile?, hpath]
  rfl

variable {above : List Text} (habove : EndsInProject above) (a : RequirementArray)
  (below : List Text)

include habove

theorem dependencies_oneLine {text : Text}
    (htext : Text.lines text = above ++ a.oneLine :: below) :
    dependencies text = declaredAbove above ++
      (a.elements.map (fun e => declared (above.length + 1) e.requirement) ++
        declaredBelow (above.length + 2) below) := by
  rw [dependencies, htext, Dependency.collect_append, show Dependency.stateAfter step _ 1 above = _
    from habove, Dependency.collect_cons, a.step_oneLine, Nat.add_comm 1]
  rfl

/-- What is read of an array with one element to a line stands between what is read above and
below it. -/
theorem dependencies_onePerLine {text : Text}
    (htext : Text.lines text = above ++ (a.onePerLine ++ below)) :
    dependencies text = declaredAbove above ++
      (Dependency.collect step (inProject true) (above.length + 2)
          (a.elements.map Element.line) ++
        declaredBelow (above.length + a.elements.length + 3) below) := by
  obtain ⟨inArray, hafter⟩ := stateAfter_lines a.elements true (above.length + 2)
  have hlines : a.onePerLine ++ below =
      a.opening [] :: (a.elements.map Element.line ++ (a.closing :: below)) := by
    simp [RequirementArray.onePerLine]
  rw [dependencies, htext, Dependency.collect_append, show Dependency.stateAfter step _ 1 above = _
    from habove, hlines, Dependency.collect_cons, a.step_opening_nil, List.nil_append,
    Nat.add_comm 1, Dependency.collect_append, hafter, Dependency.collect_cons, a.step_closing,
    List.nil_append, List.length_map]
  have hnumber : above.length + 1 + 1 + a.elements.length + 1 =
      above.length + a.elements.length + 3 := by omega
  rw [hnumber]
  rfl

/-- The array on one line is reported as it stands. With one element to a line it is if and only if
no element but the last contains a closing bracket. -/
theorem layouts_reported {path : Text} (hpath : ManifestKind.ofPath? path = some .pyproject)
    (document : Text → Option Document) :
    (∀ text, Text.lines text = above ++ a.oneLine :: below →
      ∃ m, Manifest.ofFile? path text document = some m ∧
        m.Reports (declaredAbove above ++
          (a.elements.map (fun e => declared (above.length + 1) e.requirement) ++
            declaredBelow (above.length + 2) below))) ∧
    ∀ text, Text.lines text = above ++ (a.onePerLine ++ below) →
      ∃ m, Manifest.ofFile? path text document = some m ∧
        (m.Reports (declaredAbove above ++
          (declaredFrom (above.length + 2) a.elements ++
            declaredBelow (above.length + a.elements.length + 3) below)) ↔
          ∀ e ∈ a.elements.dropLast, ']'.ascii ∉ e.requirement) := by
  constructor
  · intro text htext
    refine ⟨_, ofFile?_eq hpath text document, ?_⟩
    rw [dependencies_oneLine habove a below htext]
    exact ⟨rfl, rfl, rfl⟩
  · intro text htext
    refine ⟨_, ofFile?_eq hpath text document, ?_⟩
    rw [dependencies_onePerLine habove a below htext]
    constructor
    · rintro ⟨-, hpackages, -⟩ e he hbracket
      have hlt := length_collect_lines_lt_of_bracket he hbracket (above.length + 2)
      simp only [Manifest.packages, List.length_append, length_declaredFrom] at hpackages
      omega
    · intro h
      rw [collect_lines h]
      exact ⟨rfl, rfl, rfl⟩

omit habove

/-! ### An array with extras -/

/-- An element with four spaces before it and a comma behind it. -/
def indented (r : Text) (h : IsRequirement r) : Element where
  before := "    ".ascii
  requirement := r
  behind := ",".ascii
  isGap_before := List.all_eq_true.mp rfl
  isRequirement := h
  isGap_behind := List.all_eq_true.mp rfl

/-- The array of some elements with one space on each side of the equals sign. -/
def spaced (es : List Element) : RequirementArray where
  elements := es
  afterName := " ".ascii
  afterEquals := " ".ascii
  beforeClosing := []
  isIndent_afterName := List.all_eq_true.mp rfl
  isIndent_afterEquals := List.all_eq_true.mp rfl
  isIndent_beforeClosing := List.all_eq_true.mp rfl

def flask : Element := indented "flask".ascii ⟨rfl, List.all_eq_true.mp rfl, rfl⟩

def requests : Element :=
  indented "requests[security]==2.31.0".ascii ⟨rfl, List.all_eq_true.mp rfl, rfl⟩

theorem endsInProject_header : EndsInProject ["[project]".ascii] := by
  unfold EndsInProject
  rfl

/-- A project file with that array and nothing else. -/
def fileWith (array : List Text) : Text :=
  Text.joinWith [Byte.lineFeed] ("[project]".ascii :: array)

/-- With the extras in the last place both layouts declare both packages, of which `flask` alone has
no exact version. -/
theorem layouts_reported_extrasLast :
    (∃ m, Manifest.ofFile? "pyproject.toml".ascii
        (fileWith [(spaced [flask, requests]).oneLine]) = some m ∧
      m.packages = 2 ∧ m.unpinned = [⟨"flask".ascii, [], 2, false⟩]) ∧
    ∃ m, Manifest.ofFile? "pyproject.toml".ascii
        (fileWith (spaced [flask, requests]).onePerLine) = some m ∧
      m.packages = 2 ∧ m.unpinned = [⟨"flask".ascii, [], 3, false⟩] := by
  have hpath : ManifestKind.ofPath? "pyproject.toml".ascii = some .pyproject := by decide
  have h := layouts_reported endsInProject_header (spaced [flask, requests]) [] hpath fun _ => none
  constructor
  · obtain ⟨m, hm, -, hpackages, hunpinned⟩ :=
      h.1 (fileWith [(spaced [flask, requests]).oneLine]) (by decide +kernel)
    exact ⟨m, hm, hpackages.trans (by decide +kernel), hunpinned.trans (by decide +kernel)⟩
  · obtain ⟨m, hm, hreports⟩ :=
      h.2 (fileWith (spaced [flask, requests]).onePerLine) (by decide +kernel)
    obtain ⟨-, hpackages, hunpinned⟩ := hreports.mpr (by decide)
    exact ⟨m, hm, hpackages.trans (by decide +kernel), hunpinned.trans (by decide +kernel)⟩

/-- With the extras in the first place of two lines `flask` is lost. -/
theorem extrasFirst_lost :
    let array := spaced [requests, flask]
    Text.lines (fileWith array.onePerLine) = ["[project]".ascii] ++ (array.onePerLine ++ []) ∧
      ∃ m, Manifest.ofFile? "pyproject.toml".ascii (fileWith array.onePerLine) = some m ∧
        m.packages = 1 ∧ m.unpinned = [] ∧
        ¬m.Reports (declaredAbove ["[project]".ascii] ++
          (declaredFrom 3 array.elements ++ declaredBelow 6 [])) := by
  refine ⟨by decide +kernel, _, rfl, by decide +kernel, by decide +kernel, fun h => ?_⟩
  have hcount := h.2.1
  revert hcount
  decide +kernel

end Pyproject

end Triage
