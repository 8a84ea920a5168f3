import Triage.Proofs.ManifestLines

/-!
One line of a requirements file: a name, perhaps extras in brackets, a version, and perhaps a marker
behind a semicolon.

Comment, name, marker and extras are cut off in this order, and what is left is the version. The
marker goes before a bracket is looked for, and the extras up to their own bracket, so neither can
lend the version an `==` or hide one (`versionAfterName_written`). A line therefore declares one
package, which is pinned just if its version is exact (`pinned_by_version`).
-/

namespace Triage

namespace Requirements

open Byte (lineFeed carriageReturn isBlank)
open Dependency (isNameByte isExact versionAfterName withoutComment)

/-! ## The written line -/

/-- Extras as they are written: in brackets, or not at all. -/
def bracketed : Option Text → Text
  | none => []
  | some extras => '['.ascii :: (extras ++ [']'.ascii])

/-- A line that asks for one package by its name. The version may be empty. -/
structure Line where
  name : Text
  extras : Option Text
  version : Text
  marker : Text
  name_start : name.head?.any Byte.isLetterOrDigit = true
  isName : ∀ b ∈ name, isNameByte b = true
  extras_inner : ∀ inner ∈ extras, ∀ b ∈ inner,
    b ≠ ']'.ascii ∧ b ≠ ';'.ascii ∧ b ≠ '#'.ascii ∧ b ≠ lineFeed
  version_start : ∀ b ∈ version.head?, b ≠ '['.ascii ∧ isNameByte b = false
  version_inner : ∀ b ∈ version, b ≠ ';'.ascii ∧ b ≠ '#'.ascii ∧ b ≠ lineFeed
  marker_inner : ∀ b ∈ marker, b ≠ '#'.ascii ∧ b ≠ lineFeed

namespace Line

variable (l : Line)

/-- The line up to its version, which may have lost blanks, and what stands behind that. -/
def upTo (version behind : Text) : Text := l.name ++ (bracketed l.extras ++ (version ++ behind))

def unmarked : Text := l.upTo l.version []

def marked : Text := l.upTo l.version (';'.ascii :: l.marker)

/-- What may follow the version: nothing, or a marker behind a semicolon. -/
inductive Behind : Text → Prop where
  | nothing : Behind []
  | marker : Behind (';'.ascii :: l.marker)

/-! ## Reading it -/

theorem mem_bracketed {b : UInt8} (h : b ∈ bracketed l.extras) :
    b = '['.ascii ∨ b = ']'.ascii ∨
      b ≠ ']'.ascii ∧ b ≠ ';'.ascii ∧ b ≠ '#'.ascii ∧ b ≠ lineFeed := by
  cases hextras : l.extras with
  | none =>
    rw [hextras] at h
    exact nomatch h
  | some inner =>
    rw [hextras] at h
    simp only [bracketed, List.mem_cons, List.mem_append, List.not_mem_nil, or_false] at h
    rcases h with h | h | h
    · exact .inl h
    · exact .inr (.inr (l.extras_inner inner hextras b h))
    · exact .inr (.inl h)

theorem not_mem_bracketed {b : UInt8} (hb : b ∈ [';'.ascii, '#'.ascii, lineFeed]) :
    b ∉ bracketed l.extras := by
  simp only [List.mem_cons, List.not_mem_nil, or_false] at hb
  intro h
  rcases l.mem_bracketed h with rfl | rfl | ⟨-, hsemicolon, hhash, hfeed⟩
  · rcases hb with hb | hb | hb <;> exact absurd hb (by decide)
  · rcases hb with hb | hb | hb <;> exact absurd hb (by decide)
  · rcases hb with hb | hb | hb
    · exact hsemicolon hb
    · exact hhash hb
    · exact hfeed hb

/-- The line is one line and has no comment. -/
theorem not_mem_upTo {behind : Text} (hbehind : l.Behind behind) {b : UInt8}
    (hb : b = '#'.ascii ∨ b = lineFeed) : b ∉ l.upTo l.version behind := by
  have hname : b ∉ l.name := by
    intro h
    have hbyte := l.isName b h
    rcases hb with rfl | rfl <;> exact absurd hbyte (by decide)
  have hextras : b ∉ bracketed l.extras :=
    l.not_mem_bracketed (by rcases hb with rfl | rfl <;> simp)
  have hversion : b ∉ l.version := by
    intro h
    obtain ⟨-, hhash, hfeed⟩ := l.version_inner b h
    exact hb.elim hhash hfeed
  have hafter : b ∉ behind := by
    cases hbehind with
    | nothing => exact List.not_mem_nil
    | marker =>
      refine List.not_mem_cons_of_ne_of_not_mem ?_ fun h => ?_
      · rcases hb with rfl | rfl <;> decide
      · obtain ⟨hhash, hfeed⟩ := l.marker_inner b h
        exact hb.elim hhash hfeed
  exact List.not_mem_append hname
    (List.not_mem_append hextras (List.not_mem_append hversion hafter))

/-- What is behind the name, up to the semicolon and behind the extras, is the version. -/
theorem versionAfterName_written {version behind : Text} (hversion : version <+: l.version)
    (hbehind : behind.head?.any (· != ';'.ascii) = false) :
    versionAfterName (bracketed l.extras ++ (version ++ behind)) = Text.trim version := by
  have hsemicolon : ∀ b ∈ bracketed l.extras ++ version, (b != ';'.ascii) = true := by
    intro b hb
    rw [bne_iff_ne]
    rintro rfl
    rcases List.mem_append.mp hb with hb | hb
    · exact l.not_mem_bracketed (by simp) hb
    · exact (l.version_inner _ (hversion.subset hb)).1 rfl
  have hbefore : Text.before ';'.ascii (bracketed l.extras ++ (version ++ behind)) =
      bracketed l.extras ++ version := by
    rw [← List.append_assoc]
    exact (Text.span_append hsemicolon hbehind).1
  rw [versionAfterName, hbefore]
  -- A version that began with a bracket would be taken for extras.
  cases hextras : l.extras with
  | none =>
    have hstart : ¬(version.head? == some '['.ascii) = true := by
      intro h
      obtain ⟨rest, rfl⟩ := List.head?_eq_some_iff.mp (eq_of_beq h)
      obtain ⟨more, hmore⟩ := hversion
      exact (l.version_start '['.ascii (by rw [← hmore]; rfl)).1 rfl
    exact congrArg Text.trim (if_neg hstart)
  | some inner =>
    have hopening : ']'.ascii ∉ '['.ascii :: inner := by
      refine List.not_mem_cons_of_ne_of_not_mem (by decide) fun h => ?_
      exact (l.extras_inner inner hextras _ h).1 rfl
    have hwritten : bracketed (some inner) ++ version =
        ('['.ascii :: inner) ++ ']'.ascii :: version := by simp [bracketed]
    rw [hwritten]
    exact congrArg Text.trim ((if_pos rfl).trans (Text.after_append_cons hopening version))

/-- The name ends where the extras or the version begin. -/
theorem span_upTo {version behind : Text} (hversion : version <+: l.version)
    (hbehind : behind.head?.any (· != ';'.ascii) = false) :
    (l.upTo version behind).takeWhile isNameByte = l.name ∧
      (l.upTo version behind).dropWhile isNameByte =
        bracketed l.extras ++ (version ++ behind) := by
  refine Text.span_append l.isName ?_
  cases l.extras with
  | some inner => rfl
  | none =>
    cases version with
    | nil =>
      cases behind with
      | nil => rfl
      | cons b behind =>
        obtain rfl : b = ';'.ascii := by simpa using hbehind
        rfl
    | cons b version =>
      obtain ⟨more, hmore⟩ := hversion
      simpa [bracketed] using (l.version_start b (by rw [← hmore]; rfl)).2

theorem ofRequirement?_upTo {version behind : Text} (hversion : version <+: l.version)
    (htrim : Text.trim version = Text.trim l.version)
    (hbehind : behind.head?.any (· != ';'.ascii) = false) (number : Nat) :
    Dependency.ofRequirement? number (l.upTo version behind) =
      some ⟨l.name, Text.trim l.version, number, isExact l.version⟩ := by
  obtain ⟨hname, hrest⟩ := l.span_upTo hversion hbehind
  have hne : ¬l.name.isEmpty = true := by
    intro h
    have hstart := l.name_start
    rw [List.isEmpty_iff.mp h] at hstart
    exact absurd hstart (by decide)
  have hexact : isExact (Text.trim l.version) = isExact l.version := by
    simp only [isExact, Text.trim_trim]
  rw [Dependency.ofRequirement?, hname, if_neg hne, hrest,
    l.versionAfterName_written hversion hbehind, htrim]
  exact congrArg (fun pinned => some (Dependency.mk l.name (Text.trim l.version) number pinned))
    hexact

/-! ## Blanks at the end -/

theorem isBlank_of_isNameByte {b : UInt8} (h : isNameByte b = true) : isBlank b = false := by
  grind [isNameByte, Byte.isLetterOrDigit, Byte.isLetter, Byte.isUpper, Byte.isLower,
    Byte.isDigit, Byte.isBlank, Char.ascii]

theorem exists_name_cons : ∃ b rest, l.name = b :: rest ∧ Byte.isLetterOrDigit b = true := by
  have hstart := l.name_start
  cases hname : l.name with
  | nil =>
    rw [hname] at hstart
    exact absurd hstart (by decide)
  | cons b rest =>
    rw [hname] at hstart
    exact ⟨b, rest, rfl, by simpa using hstart⟩

/-- Only what stands behind the extras can lose blanks. -/
theorem trim_upTo (version behind : Text) : Text.trim (l.upTo version behind) =
    l.name ++ (bracketed l.extras ++ Text.trimRight (version ++ behind)) := by
  obtain ⟨b, rest, hname, -⟩ := l.exists_name_cons
  have hb : isBlank b = false :=
    isBlank_of_isNameByte (l.isName b (by rw [hname]; exact List.mem_cons_self))
  have hleft : Text.trimLeft (l.upTo version behind) = l.upTo version behind := by
    rw [upTo, hname]
    exact Text.trimLeft_append_cons hb [] _
  have hextras : Text.trimRight (bracketed l.extras ++ (version ++ behind)) =
      bracketed l.extras ++ Text.trimRight (version ++ behind) := by
    refine Text.trimRight_append (fun c hc => ?_) _
    cases hextras : l.extras with
    | none =>
      rw [hextras] at hc
      exact nomatch hc
    | some inner =>
      rw [hextras] at hc
      obtain rfl : ']'.ascii = c := by simpa [bracketed, List.getLast?_cons] using hc
      rfl
  rw [Text.trim, hleft, upTo, Text.trimRight_append fun c hc =>
    isBlank_of_isNameByte (l.isName c (List.mem_of_getLast? hc)), hextras]

/-- Reading leaves the line with a version that has lost blanks at most. -/
theorem exists_withoutComment {behind : Text} (hbehind : l.Behind behind) :
    ∃ version tail, withoutComment (Text.dropLastIf carriageReturn (l.upTo l.version behind)) =
        l.upTo version tail ∧ version <+: l.version ∧
      Text.trim version = Text.trim l.version ∧ tail.head?.any (· != ';'.ascii) = false := by
  have hhash := l.not_mem_upTo hbehind (.inl rfl)
  have hline : withoutComment (Text.dropLastIf carriageReturn (l.upTo l.version behind)) =
      Text.trim (l.upTo l.version behind) := by
    have hkept := Text.dropLastIf_prefix carriageReturn (l.upTo l.version behind)
    rw [withoutComment, Text.before_of_not_mem fun h => hhash (hkept.subset h)]
    rcases Text.exists_dropLastIf carriageReturn (l.upTo l.version behind) with h | h
    · rw [← h]
    · conv_rhs => rw [h, Text.trim_append_blank (by simp [isBlank, carriageReturn])]
  rw [hline, l.trim_upTo]
  cases hbehind with
  | nothing =>
    refine ⟨Text.trimRight l.version, [], ?_, Text.trimRight_prefix _, Text.trim_trimRight _, rfl⟩
    rw [upTo, List.append_nil, List.append_nil]
  | marker =>
    refine ⟨l.version, ';'.ascii :: Text.trimRight l.marker, ?_, List.prefix_refl _, rfl, rfl⟩
    rw [upTo, Text.trimRight_append_cons rfl]

/-! ## What the line declares -/

theorem dependencies_upTo {behind : Text} (hbehind : l.Behind behind)
    (hurl : Text.occursIn "://".ascii (l.upTo l.version behind) = false) :
    dependencies (l.upTo l.version behind) =
      [⟨l.name, Text.trim l.version, 1, isExact l.version⟩] := by
  obtain ⟨b, rest, hname, hb⟩ := l.exists_name_cons
  have hlines : Text.lines (l.upTo l.version behind) =
      [Text.dropLastIf carriageReturn (l.upTo l.version behind)] :=
    Text.lines_of_not_mem (l.not_mem_upTo hbehind (.inr rfl)) (by simp [upTo, hname])
  obtain ⟨version, tail, hline, hversion, htrim, htail⟩ := l.exists_withoutComment hbehind
  have hempty : (l.upTo version tail).isEmpty = false := by simp [upTo, hname]
  have hdash : ((l.upTo version tail).head? == some '-'.ascii) = false := by
    have hne : b ≠ '-'.ascii := by
      rintro rfl
      exact absurd hb (by decide)
    simpa [upTo, hname] using hne
  have hbare : isBareUrl (l.upTo version tail) = false := by
    have hinfix : l.upTo version tail <:+: l.upTo l.version behind := by
      rw [← hline]
      exact (Dependency.withoutComment_isInfix _).trans (Text.dropLastIf_prefix _ _).isInfix
    have hno : Text.occursIn "://".ascii (l.upTo version tail) = false := by
      rw [Bool.eq_false_iff, Ne, Text.occursIn_iff]
      intro h
      rw [Text.occursIn_iff _ _ |>.mpr (h.trans hinfix)] at hurl
      exact Bool.noConfusion hurl
    rw [isBareUrl, hno, Bool.false_and]
  have hread : ofLine? 1 (Text.dropLastIf carriageReturn (l.upTo l.version behind)) =
      some ⟨l.name, Text.trim l.version, 1, isExact l.version⟩ := by
    rw [ofLine?, hline, hempty, hdash, hbare]
    exact l.ofRequirement?_upTo hversion htrim htail 1
  rw [dependencies, hlines, Dependency.collect, hread]
  rfl

/-- **Extras and markers do not decide about pinning.** A line declares one package, with or without
its marker; the package is listed as unpinned, under its name and with the version alone, just if
that version is not exact. -/
theorem pinned_by_version (hurl : Text.occursIn "://".ascii l.marked = false) {path : Text}
    (hpath : ManifestKind.ofPath? path = some .requirements) (document : Text → Option Document) :
    ∀ line ∈ [l.marked, l.unmarked], ∃ m, Manifest.ofFile? path line document = some m ∧
      m.packages = 1 ∧
      m.unpinned =
        if isExact l.version then [] else [⟨l.name, Text.trim l.version, 1, false⟩] := by
  have hurl' : Text.occursIn "://".ascii l.unmarked = false := by
    have hinfix : l.unmarked <:+: l.marked :=
      ⟨[], ';'.ascii :: l.marker, by simp [unmarked, marked, upTo]⟩
    rw [Bool.eq_false_iff, Ne, Text.occursIn_iff] at hurl ⊢
    exact fun h => hurl (h.trans hinfix)
  have hreads : ∀ line ∈ [l.marked, l.unmarked],
      dependencies line = [⟨l.name, Text.trim l.version, 1, isExact l.version⟩] := by
    intro line hline
    simp only [List.mem_cons, List.not_mem_nil, or_false] at hline
    rcases hline with rfl | rfl
    · exact l.dependencies_upTo .marker hurl
    · exact l.dependencies_upTo .nothing hurl'
  intro line hline
  refine ⟨⟨path, .requirements, dependencies line, []⟩, ?_, ?_, ?_⟩
  · rw [Manifest.ofFile?, hpath]
    rfl
  · rw [Manifest.packages, hreads line hline]
    rfl
  · rw [Manifest.unpinned, hreads line hline]
    cases isExact l.version <;> rfl

/-- A line of which the extras and the marker, but not the version, have an `==`. -/
def flask : Line where
  name := "flask".ascii
  extras := some "async==1".ascii
  version := " >=2.0 ".ascii
  marker := " python_version == '3.8'".ascii
  name_start := rfl
  isName := List.all_eq_true.mp rfl
  extras_inner := by simp [String.ascii, Char.ascii, lineFeed]
  version_start := by simp [String.ascii, Char.ascii, isNameByte, Byte.isLetterOrDigit,
    Byte.isLetter, Byte.isUpper, Byte.isLower, Byte.isDigit]
  version_inner := by simp [String.ascii, Char.ascii, lineFeed]
  marker_inner := by simp [String.ascii, Char.ascii, lineFeed]

theorem pinned_by_version_flask :
    flask.marked = "flask[async==1] >=2.0 ; python_version == '3.8'".ascii ∧
      ∀ line ∈ [flask.marked, flask.unmarked],
        ∃ m, Manifest.ofFile? "requirements.txt".ascii line = some m ∧ m.packages = 1 ∧
          m.unpinned = [⟨"flask".ascii, ">=2.0".ascii, 1, false⟩] :=
  ⟨by decide, flask.pinned_by_version (by decide) (by decide) fun _ => none⟩

end Line

end Requirements

end Triage
