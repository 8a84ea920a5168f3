import Triage.Proofs.ConfigNormalForm
import Triage.Proofs.Ranking

/-!
The names of log levels and severities that the settings may hold.

A text spells a name if nothing but blanks stands around it and only the case of letters differs
(`Text.Spells`). A severity goes by one name, for the checks and for the text form alike. A log level
goes by its name too, but `warn` has a second one, which the checks do not know
(`LogLevel.ofName?_eq_some_iff`, `Config.acceptsLogLevel_iff_spells`); so exactly with that one, the
settings are refused although the level is known.
-/

namespace Triage

/-! ## Spelling a name -/

namespace Text

/-- The text is the word in letters of any case, between blanks. -/
def Spells (s word : Text) : Prop :=
  ∃ left middle right : Text, s = left ++ (middle ++ right) ∧ toLower middle = word ∧
    (∀ b ∈ left, Byte.isBlank b) ∧ ∀ b ∈ right, Byte.isBlank b

theorem toLower_of_isBlank {b : UInt8} (h : Byte.isBlank b) : Byte.toLower b = b := by
  simp only [Byte.isBlank, Bool.or_eq_true, beq_iff_eq] at h
  rcases h with ((rfl | rfl) | rfl) | rfl <;> rfl

/-- Trimming drops the blanks around a text that has none. -/
theorem trim_between {left middle right : Text} (hleft : ∀ b ∈ left, Byte.isBlank b)
    (hmiddle : ∀ b ∈ middle, Byte.isBlank b = false) (hright : ∀ b ∈ right, Byte.isBlank b) :
    trim (left ++ (middle ++ right)) = middle := by
  have hself : ∀ s : Text, (∀ b ∈ s, Byte.isBlank b = false) → s.dropWhile Byte.isBlank = s := by
    intro s hs
    cases s with
    | nil => rfl
    | cons b s => exact List.dropWhile_cons_of_neg (by simp [hs b List.mem_cons_self])
  have hreverse : ∀ b ∈ middle.reverse, Byte.isBlank b = false :=
    fun b hb => hmiddle b (List.mem_reverse.mp hb)
  rw [← List.append_assoc, trim_append_blank hright, trim, trimLeft,
    List.dropWhile_append_of_pos hleft, hself middle hmiddle, trimRight,
    hself middle.reverse hreverse, List.reverse_reverse]

/-- A word without blanks is spelled by the texts from which trimming leaves it. -/
theorem spells_iff {word : Text} (hword : ∀ b ∈ word, Byte.isBlank b = false) (s : Text) :
    Spells s word ↔ toLower (trim s) = word := by
  constructor
  · rintro ⟨left, middle, right, rfl, rfl, hleft, hright⟩
    have hmiddle : ∀ b ∈ middle, Byte.isBlank b = false := by
      intro b hb
      by_contra hblank
      have hlower := hword _ (List.mem_map_of_mem hb)
      rw [toLower_of_isBlank (by simpa using hblank)] at hlower
      exact hblank hlower
    rw [trim_between hleft hmiddle hright]
  · intro h
    obtain ⟨right, hs, hright⟩ := exists_trim s
    exact ⟨_, trim s, right, hs, h, fun b hb => List.mem_takeWhile_imp hb, hright⟩

theorem trim_eq_nil_iff (s : Text) : trim s = [] ↔ ∀ b ∈ s, Byte.isBlank b := by
  refine ⟨isBlank_of_trim_eq_nil, fun h => ?_⟩
  simpa using @trim_between s [] [] h nofun nofun

end Text

namespace Severity

theorem isBlank_name (severity : Severity) : ∀ b ∈ severity.name, Byte.isBlank b = false := by
  cases severity <;> decide +kernel

/-- The severity of a text is the one whose name it spells. -/
theorem ofName?_eq_some_iff (s : Text) (severity : Severity) :
    ofName? s = some severity ↔ Text.Spells s severity.name := by
  rw [Text.spells_iff severity.isBlank_name, ofName?]
  generalize Text.toLower (Text.trim s) = name
  constructor
  · intro h
    have hname := List.find?_some h
    exact (beq_iff_eq.mp hname).symm
  · rintro rfl
    cases severity <;> decide

end Severity

namespace LogLevel

theorem isBlank_name (level : LogLevel) : ∀ b ∈ level.name, Byte.isBlank b = false := by
  cases level <;> decide +kernel

/-- The level of a text is the one whose name it spells; `warning` is another name of one. -/
theorem ofName?_eq_some_iff (s : Text) (level : LogLevel) : ofName? s = some level ↔
    Text.Spells s level.name ∨ level = warn ∧ Text.Spells s "warning".ascii := by
  rw [Text.spells_iff level.isBlank_name, Text.spells_iff (by decide +kernel), ofName?]
  generalize Text.toLower (Text.trim s) = name
  by_cases hwarning : name = "warning".ascii
  · subst hwarning
    cases level <;> decide
  · simp only [beq_iff_eq, hwarning, if_false, and_false, or_false]
    constructor
    · intro h
      have hname := List.find?_some h
      exact (beq_iff_eq.mp hname).symm
    · rintro rfl
      cases level <;> decide

end LogLevel

/-! ## The checks -/

namespace Config

theorem acceptsLogLevel_iff_spells (s : Text) :
    acceptsLogLevel s ↔ ∃ level : LogLevel, Text.Spells s level.name := by
  simp only [Text.spells_iff (LogLevel.isBlank_name _), acceptsLogLevel]
  generalize Text.toLower (Text.trim s) = name
  have hnames : logLevelNames = LogLevel.all.map LogLevel.name := rfl
  have hall : ∀ level : LogLevel, level ∈ LogLevel.all := by
    intro level
    cases level <;> decide
  rw [hnames, List.contains_iff_mem, List.mem_map]
  constructor
  · rintro ⟨level, -, h⟩
    exact ⟨level, h.symm⟩
  · rintro ⟨level, h⟩
    exact ⟨level, hall level, h.symm⟩

/-- A level that is accepted is known, and a known one is accepted unless it goes by the name that
the checks do not have. -/
theorem acceptsLogLevel_iff_known (s : Text) : acceptsLogLevel s ↔
    (LogLevel.ofName? s).isSome ∧ ¬Text.Spells s "warning".ascii := by
  rw [acceptsLogLevel_iff_spells, Option.isSome_iff_exists]
  simp only [LogLevel.ofName?_eq_some_iff]
  constructor
  · rintro ⟨level, hlevel⟩
    refine ⟨⟨level, .inl hlevel⟩, fun hwarning => ?_⟩
    rw [Text.spells_iff level.isBlank_name] at hlevel
    rw [Text.spells_iff (by decide +kernel), hlevel] at hwarning
    cases level <;> exact absurd hwarning (by decide)
  · rintro ⟨⟨level, hlevel | ⟨-, hwarning⟩⟩, hother⟩
    · exact ⟨level, hlevel⟩
    · exact absurd hwarning hother

theorem acceptsSeverity_iff_known (s : Text) : acceptsSeverity s ↔
    (∀ b ∈ s, Byte.isBlank b) ∨ (Severity.ofName? s).isSome := by
  rw [acceptsSeverity_iff, Text.trim_eq_nil_iff]

theorem validate_snd_eq_ok_none_iff (c : Config) : c.validate.2 = .ok none ↔ c.PassesChecks := by
  have h := validate_eq_ok_none_iff c c.validate.1
  constructor
  · exact fun hok => (h.mp (Prod.ext rfl hok)).1
  · exact fun hpasses => congrArg Prod.snd ((validate_eq_ok_none_iff c _).mpr ⟨hpasses, rfl⟩)

/-- Of settings that pass the checks, the least severity and the log level are checked for
themselves, the severity first. -/
theorem validate_names {c : Config} (h : c.PassesChecks) (least level : Text) :
    { c with minSeverity := least, logLevel := level }.validate.2 =
      .ok (if !acceptsSeverity least then some (.severity least)
        else if !acceptsLogLevel level then some (.logLevel level) else none) := by
  let named : Config := { c with minSeverity := least, logLevel := level }
  have hformat : formats.contains (Text.toLower (Text.trim c.format)) = true :=
    ((choiceProblem?_eq_none_iff _).mp h.choices).1
  have hchoices : { named with format := Text.toLower (Text.trim c.format) }.choiceProblem? =
      if !acceptsSeverity least then some (.severity least)
      else if !acceptsLogLevel level then some (.logLevel level) else none := by
    simp only [choiceProblem?, hformat, Bool.not_true, Bool.false_eq_true, if_false, named]
  have hnumbers : named.numberProblem? = none := h.numbers
  rw [← hchoices]
  cases hproblem : { named with format := Text.toLower (Text.trim c.format) }.choiceProblem? with
  | none => exact (validate_snd_eq_ok_none_iff named).mpr ⟨hnumbers, hproblem, h.endpoint, h.names⟩
  | some problem => simp only [validate, hnumbers, hproblem, named]

/-! ## The filter -/

/-- Under the settings the text form lists what it would list, without a filter, of the findings
that have these severities. -/
def ListsOnly (c : Config) (keep : Severity → Bool) : Prop :=
  ∀ findings, Report.shown c.leastSeverity findings =
    Report.shown none (findings.filter fun f => keep f.severity)

theorem listsOnly_of_leastSeverity {c : Config} {least : Option Severity}
    (h : c.leastSeverity = least) :
    c.ListsOnly fun severity => least.all fun least => least.rank ≤ severity.rank := by
  intro findings
  have hkeep : Report.visible least =
      fun f => least.all fun least => least.rank ≤ f.severity.rank := by
    funext f
    cases least <;> rfl
  have hall : Report.visible none = fun _ => true := rfl
  rw [h, Report.shown, Report.shown, Report.ranked, Report.ranked, hkeep, hall, List.filter_true]

theorem leastSeverity_of_blank {c : Config} (h : ∀ b ∈ c.minSeverity, Byte.isBlank b) :
    c.leastSeverity = none := by
  rw [leastSeverity, Severity.ofName?, (Text.trim_eq_nil_iff _).mpr h]
  decide

/-- **The checks know the names that the program knows, but for one.** A log level is accepted if and
only if it is known and not spelled `warning`. A least severity is accepted if and only if it is
blank or known; the text form then lists all findings, or those that are at least as severe as it
says. Of settings that pass the checks, these two may be replaced by whatever is accepted, and by
nothing else. -/
theorem accepts_known_names (c : Config) (least level : Text) :
    let named : Config := { c with minSeverity := least, logLevel := level }
    (acceptsLogLevel level ↔ (LogLevel.ofName? level).isSome ∧ ¬Text.Spells level "warning".ascii) ∧
    (acceptsSeverity least ↔ (∀ b ∈ least, Byte.isBlank b) ∨ (Severity.ofName? least).isSome) ∧
    (acceptsSeverity least →
      ((∀ b ∈ least, Byte.isBlank b) ∧ named.ListsOnly fun _ => true) ∨
      ∃ mildest : Severity, Text.Spells least mildest.name ∧
        named.ListsOnly fun severity => mildest.rank ≤ severity.rank) ∧
    (c.validate.2 = .ok none →
      named.validate.2 = .ok (if !acceptsSeverity least then some (.severity least)
        else if !acceptsLogLevel level then some (.logLevel level) else none)) := by
  intro named
  refine ⟨acceptsLogLevel_iff_known level, acceptsSeverity_iff_known least, fun haccepted => ?_,
    fun hc => ?_⟩
  · rcases (acceptsSeverity_iff_known least).mp haccepted with hblank | hknown
    · exact .inl ⟨hblank, listsOnly_of_leastSeverity (leastSeverity_of_blank hblank)⟩
    · obtain ⟨mildest, hleast⟩ := Option.isSome_iff_exists.mp hknown
      have hnamed : named.leastSeverity = some mildest := hleast
      exact .inr ⟨mildest, (Severity.ofName?_eq_some_iff _ _).mp hleast,
        listsOnly_of_leastSeverity hnamed⟩
  · exact validate_names ((validate_snd_eq_ok_none_iff c).mp hc) least level

/-- Names in other letters and between blanks. -/
theorem accepts_known_names_padded :
    let c : Config :=
      { Config.default with minSeverity := " High\n".ascii, logLevel := "\tTRACE".ascii }
    acceptsSeverity c.minSeverity ∧ c.ListsOnly (fun severity => Severity.high.rank ≤ severity.rank) ∧
      Config.default.validate.2 = .ok none ∧ c.validate.2 = .ok none := by
  intro c
  obtain ⟨-, -, hfilter, hchecks⟩ :=
    accepts_known_names Config.default " High\n".ascii "\tTRACE".ascii
  have haccepted : acceptsSeverity c.minSeverity := by decide
  have hdefault : Config.default.validate.2 = .ok none := by decide +kernel
  refine ⟨haccepted, ?_, hdefault, ?_⟩
  · rcases hfilter haccepted with ⟨hblank, -⟩ | ⟨least, hspells, hlists⟩
    · exact absurd (hblank 'H'.ascii (by decide)) (by decide)
    · have hleast : least = .high := by
        have h := (Severity.ofName?_eq_some_iff _ _).mpr hspells
        exact Option.some.inj (h.symm.trans (by decide))
      exact hleast ▸ hlists
  · rw [hchecks hdefault]
    decide

/-- The second name of a level is known, yet otherwise sound settings are refused for it. -/
theorem warning_refused :
    LogLevel.ofName? "warning".ascii = some .warn ∧ acceptsLogLevel "warning".ascii = false ∧
      { Config.default with logLevel := "warning".ascii }.validate.2 =
        .ok (some (.logLevel "warning".ascii)) ∧
      ¬∀ s, acceptsLogLevel s ↔ (LogLevel.ofName? s).isSome := by
  have hknown : LogLevel.ofName? "warning".ascii = some .warn := by decide
  have hrefused : acceptsLogLevel "warning".ascii = false := by decide
  refine ⟨hknown, hrefused, by decide +kernel, fun h => ?_⟩
  have haccepted := (h "warning".ascii).mpr (by rw [hknown]; rfl)
  rw [hrefused] at haccepted
  contradiction

end Config

end Triage
