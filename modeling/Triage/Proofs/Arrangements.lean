import Mathlib.Data.List.Forall2
import Triage.CommandLine
import Triage.Proofs.Text

/-!
Command lines that say the same.

A command line is a row of complete options and positional words (`Arranged`). Where the positional
words stand among the options does not matter, and neither does it whether the value of an option
follows it or stands after its equals sign (`interpretWords_arranged`). What one option does is said
without the words behind it (`IsOption.exists_effect`); a positional word does nothing but wait for
the end.
-/

namespace Triage

/-- Whether an option needs a value. -/
def OptionEffect.takesValue : OptionEffect → Bool
  | flag _ => false
  | value _ => true

namespace CommandLine

/-! ## Options and positional words -/

/-- A flag that comes with a value. -/
def TakesValue (flag : Text) : Prop := ∃ effect ∈ effect? flag, effect.takesValue

instance (flag : Text) : Decidable (TakesValue flag) :=
  inferInstanceAs (Decidable (∃ effect ∈ effect? flag, effect.takesValue))

/-- The words of a complete option: a flag with its value, or any other word that starts with a
dash. -/
inductive IsOption : List Text → Prop where
  | separate {flag : Text} (h : TakesValue flag) (value : Text) : IsOption [flag, value]
  | inline {flag : Text} (h : TakesValue flag) (value : Text) :
      IsOption [flag ++ '='.ascii :: value]
  | single {word : Text} (hdash : word.head? = some '-'.ascii) (hword : word ≠ "-".ascii)
      (hend : word ≠ "--".ascii) (hvalue : ¬TakesValue word) : IsOption [word]

/-- A word that does not start with a dash, or a dash alone. -/
def IsPositional (word : Text) : Prop := word.head? ≠ some '-'.ascii ∨ word = "-".ascii

/-- Words that consist of these options and these positional words, each in their order. -/
inductive Arranged : (options : List (List Text)) → (positionals words : List Text) → Prop where
  | nil : Arranged [] [] []
  | option {o : List Text} {options : List (List Text)} {positionals words : List Text} :
      IsOption o → Arranged options positionals words →
        Arranged (o :: options) positionals (o ++ words)
  | positional {word : Text} {options : List (List Text)} {positionals words : List Text} :
      IsPositional word → Arranged options positionals words →
        Arranged options (word :: positionals) (word :: words)

/-- Two spellings of an option. -/
inductive SameOption : List Text → List Text → Prop where
  | refl (o : List Text) : SameOption o o
  | inline {flag : Text} (h : TakesValue flag) (value : Text) :
      SameOption [flag, value] [flag ++ '='.ascii :: value]
  | separate {flag : Text} (h : TakesValue flag) (value : Text) :
      SameOption [flag ++ '='.ascii :: value] [flag, value]

/-! ## What a word is -/

theorem IsPositional.wordOf {word : Text} (h : IsPositional word) :
    wordOf word = .positional := by
  rw [CommandLine.wordOf, if_pos]
  simpa [IsPositional] using h

/-- All flags with a value are long, and none of them has a meaning of its own. -/
theorem long_of_takesValue : ∀ o ∈ options, o.effect.takesValue →
    o.short = none ∧ o.name.startsWith "--".ascii ∧ '='.ascii ∉ o.name ∧
      wordOf o.name = .option o.name none := by
  decide

theorem TakesValue.exists_apply {flag : Text} (h : TakesValue flag) :
    ∃ apply, effect? flag = some (.value apply) := by
  obtain ⟨effect, heffect, hvalue⟩ := h
  cases effect with
  | flag apply => cases hvalue
  | value apply => exact ⟨apply, heffect⟩

theorem TakesValue.isLong {flag : Text} (h : TakesValue flag) :
    flag.startsWith "--".ascii ∧ '='.ascii ∉ flag ∧ wordOf flag = .option flag none := by
  obtain ⟨effect, heffect, hvalue⟩ := h
  obtain ⟨o, ho, rfl⟩ := Option.map_eq_some_iff.mp heffect
  obtain ⟨hshort, hlong⟩ := long_of_takesValue o (List.mem_of_find?_eq_some ho) hvalue
  have hname : o.name = flag := by simpa [hshort] using List.find?_some ho
  exact hname ▸ hlong

/-- Behind an equals sign anything may stand. -/
theorem TakesValue.wordOf_inline {flag : Text} (h : TakesValue flag) (value : Text) :
    wordOf (flag ++ '='.ascii :: value) = .option flag (some value) := by
  obtain ⟨hlong, hequals, -⟩ := h.isLong
  have hmem : '='.ascii ∈ flag ++ '='.ascii :: value := by simp
  have hne {word : Text} (hword : '='.ascii ∉ word) : flag ++ '='.ascii :: value ≠ word :=
    fun heq => hword (heq ▸ hmem)
  obtain ⟨rest, hrest⟩ := List.isPrefixOf_iff_prefix.mp hlong
  have hdash : (flag ++ '='.ascii :: value).head? = some '-'.ascii := by
    rw [← hrest]
    rfl
  have hstart : (flag ++ '='.ascii :: value).startsWith "--".ascii = true := by
    rw [← hrest, Text.startsWith, List.isPrefixOf_iff_prefix, List.append_assoc]
    exact List.prefix_append _ _
  rw [wordOf, if_neg (by simp [hdash, hne (by decide : '='.ascii ∉ "-".ascii)]),
    if_neg (by simp [hne (by decide : '='.ascii ∉ "--".ascii)]),
    if_neg (by simp [hne (by decide : '='.ascii ∉ "--help".ascii),
      hne (by decide : '='.ascii ∉ "-h".ascii)]),
    if_neg (by simp [hne (by decide : '='.ascii ∉ "--version".ascii)]),
    if_neg (by simp [hne (by decide : '='.ascii ∉ "-vv".ascii)]),
    if_pos (by simp [hstart]), Text.before_append_cons hequals, Text.after_append_cons hequals]

/-! ## What an option does -/

section Words

variable {word name : Text} {apply : Parsing Unit} {applyTo : Text → Parsing Unit}

theorem read_unknown {value : Option Text} (hword : wordOf word = .option name value)
    (heffect : effect? name = none) (rest : List Text) :
    read (word :: rest) = Parsing.refuse (.unknownOption name) := by
  rw [read]
  simp only [hword, heffect]

theorem read_flag (hword : wordOf word = .option name none)
    (heffect : effect? name = some (.flag apply)) (rest : List Text) :
    read (word :: rest) = apply >>= fun _ => read rest := by
  rw [read]
  simp only [hword, heffect]

theorem read_unexpected {value : Text} (hword : wordOf word = .option name (some value))
    (heffect : effect? name = some (.flag apply)) (rest : List Text) :
    read (word :: rest) = Parsing.refuse (.unexpectedValue name) := by
  rw [read]
  simp only [hword, heffect]

theorem read_inline {value : Text} (hword : wordOf word = .option name (some value))
    (heffect : effect? name = some (.value applyTo)) (rest : List Text) :
    read (word :: rest) = applyTo value >>= fun _ => read rest := by
  rw [read]
  simp only [hword, heffect]

theorem read_separate (hword : wordOf word = .option name none)
    (heffect : effect? name = some (.value applyTo)) (value : Text) (rest : List Text) :
    read (word :: value :: rest) = applyTo value >>= fun _ => read rest := by
  rw [read]
  simp only [hword, heffect]

end Words

/-- A value has the same effect after its flag and behind an equals sign. -/
theorem TakesValue.exists_effect {flag : Text} (h : TakesValue flag) (value : Text) :
    ∃ effect : Parsing Unit, ∀ rest,
      read (flag :: value :: rest) = (effect >>= fun _ => read rest) ∧
        read ((flag ++ '='.ascii :: value) :: rest) = (effect >>= fun _ => read rest) := by
  obtain ⟨applyTo, heffect⟩ := h.exists_apply
  refine ⟨applyTo value, fun rest => ⟨?_, ?_⟩⟩
  · exact read_separate h.isLong.2.2 heffect value rest
  · exact read_inline (h.wordOf_inline value) heffect rest

/-- What a word with a dash can be, if it is not a dash alone or two of them. -/
theorem wordOf_of_dash {word : Text} (hdash : word.head? = some '-'.ascii)
    (hword : word ≠ "-".ascii) (hend : word ≠ "--".ascii) :
    wordOf word ∈ [Word.help, .version, .traceAll] ∨
      (∃ name value, wordOf word = .option name (some value)) ∨
        wordOf word = .option word none := by
  rw [wordOf, if_neg (by simp [hdash, hword]), if_neg (by simpa using hend)]
  split
  · exact .inl (by simp)
  split
  · exact .inl (by simp)
  split
  · exact .inl (by simp)
  split
  · exact .inr (.inl ⟨_, _, rfl⟩)
  · exact .inr (.inr rfl)

/-- What is read behind an option: nothing if it shows a text, all words otherwise. -/
def readBehind (rest : List Text) : Option Text → Parsing Reading
  | some output => pure (.shown output)
  | none => read rest

/-- An option that shows no text. -/
theorem bind_readBehind (effect : Parsing Unit) (rest : List Text) :
    ((effect >>= fun _ => pure none) >>= readBehind rest) = effect >>= fun _ => read rest := by
  rw [bind_assoc]
  rfl

/-- A word that is complete as an option does the same whatever stands behind it. -/
theorem exists_effect_of_word {word : Text} (hdash : word.head? = some '-'.ascii)
    (hword : word ≠ "-".ascii) (hend : word ≠ "--".ascii) (hvalue : ¬TakesValue word) :
    ∃ effect : Parsing (Option Text), ∀ rest, read (word :: rest) = effect >>= readBehind rest := by
  obtain hfixed | ⟨name, value, hoption⟩ | hoption := wordOf_of_dash hdash hword hend
  · simp only [List.mem_cons, List.not_mem_nil, or_false] at hfixed
    obtain hhelp | hversion | htrace := hfixed
    · exact ⟨pure (some Help.text), fun rest => by rw [read, hhelp]; rfl⟩
    · exact ⟨pure (some Help.version), fun rest => by rw [read, hversion]; rfl⟩
    · exact ⟨_, fun rest => by rw [read, htrace]; exact (bind_readBehind _ rest).symm⟩
  · cases heffect : effect? name with
    | none => exact ⟨Parsing.refuse (.unknownOption name), read_unknown hoption heffect⟩
    | some effect =>
      cases effect with
      | flag apply =>
        exact ⟨Parsing.refuse (.unexpectedValue name), read_unexpected hoption heffect⟩
      | value applyTo =>
        exact ⟨_, fun rest =>
          (read_inline hoption heffect rest).trans (bind_readBehind _ rest).symm⟩
  · cases heffect : effect? word with
    | none => exact ⟨Parsing.refuse (.unknownOption word), read_unknown hoption heffect⟩
    -- A flag without a value is all the word says; an option that takes one is excluded.
    | some effect =>
      cases effect with
      | flag apply =>
        exact ⟨_, fun rest => (read_flag hoption heffect rest).trans (bind_readBehind _ rest).symm⟩
      | value applyTo => exact absurd ⟨_, heffect, rfl⟩ hvalue

/-- An option does the same whatever stands behind it. -/
theorem IsOption.exists_effect {o : List Text} (h : IsOption o) :
    ∃ effect : Parsing (Option Text), ∀ rest, read (o ++ rest) = effect >>= readBehind rest := by
  cases h with
  | separate h value =>
    obtain ⟨effect, heffect⟩ := h.exists_effect value
    exact ⟨_, fun rest => (heffect rest).1.trans (bind_readBehind effect rest).symm⟩
  | inline h value =>
    obtain ⟨effect, heffect⟩ := h.exists_effect value
    exact ⟨_, fun rest => (heffect rest).2.trans (bind_readBehind effect rest).symm⟩
  | single hdash hword hend hvalue => exact exists_effect_of_word hdash hword hend hvalue

/-! ## What a command line does -/

/-- A reading with the positional words that were left, if words were left at all. -/
def Reading.withPositionals (positionals : List Text) : Reading → Reading
  | shown output => shown output
  | positional _ => positional positionals

/-- The options are applied as if no positional words stood between them. -/
theorem Arranged.read_eq {options : List (List Text)} {positionals words : List Text}
    (h : Arranged options positionals words) :
    read words = Reading.withPositionals positionals <$> read options.flatten := by
  induction h with
  | nil => rfl
  | option ho _ ih =>
    obtain ⟨effect, heffect⟩ := ho.exists_effect
    rw [List.flatten_cons, heffect, heffect, map_bind]
    refine bind_congr fun output => ?_
    cases output with
    | some output => rfl
    | none => exact ih
  | @positional word options positionals words hword _ ih =>
    have hread : read (word :: words) = Reading.cons word <$> read words := by
      rw [read, hword.wordOf, map_eq_pure_bind]
    have hcons : Reading.cons word ∘ Reading.withPositionals positionals =
        Reading.withPositionals (word :: positionals) := by
      funext r
      cases r <;> rfl
    rw [hread, ih, ← comp_map, hcons]

theorem Arranged.isOption {options : List (List Text)} {positionals words : List Text}
    (h : Arranged options positionals words) : ∀ o ∈ options, IsOption o := by
  induction h with
  | nil => simp
  | option ho _ ih => exact List.forall_mem_cons.mpr ⟨ho, ih⟩
  | positional _ _ ih => exact ih

/-- Two spellings of an option do the same, if the words behind them do. -/
theorem SameOption.read_congr {o o' : List Text} (h : SameOption o o') (ho : IsOption o)
    {rest rest' : List Text} (hrest : read rest = read rest') :
    read (o ++ rest) = read (o' ++ rest') := by
  cases h with
  | refl =>
    obtain ⟨effect, heffect⟩ := ho.exists_effect
    rw [heffect, heffect]
    refine bind_congr fun output => ?_
    cases output with
    | some output => rfl
    | none => exact hrest
  | inline h value =>
    obtain ⟨effect, heffect⟩ := h.exists_effect value
    simp only [List.cons_append, List.nil_append, (heffect _).1, (heffect _).2, hrest]
  | separate h value =>
    obtain ⟨effect, heffect⟩ := h.exists_effect value
    simp only [List.cons_append, List.nil_append, (heffect _).1, (heffect _).2, hrest]

theorem read_flatten_congr {options options' : List (List Text)}
    (hsame : List.Forall₂ SameOption options options') (hoptions : ∀ o ∈ options, IsOption o) :
    read options.flatten = read options'.flatten := by
  induction hsame with
  | nil => rfl
  | cons h _ ih =>
    obtain ⟨ho, hrest⟩ := List.forall_mem_cons.mp hoptions
    exact h.read_congr ho (ih hrest)

/-- Two command lines with the same options, however their values are attached, and the same
positional words, wherever these stand, come to the same: the result or the error, the settings that
are left, and the text that is shown. -/
theorem interpretWords_arranged {options options' : List (List Text)}
    {positionals words words' : List Text}
    (h : Arranged options positionals (words.map (Text.before 0)))
    (h' : Arranged options' positionals (words'.map (Text.before 0)))
    (hsame : List.Forall₂ SameOption options options') (s : Settings) :
    (interpretWords words).run.run s = (interpretWords words').run.run s := by
  have hread : read (words.map (Text.before 0)) = read (words'.map (Text.before 0)) := by
    rw [h.read_eq, h'.read_eq, read_flatten_congr hsame h.isOption]
  rw [interpretWords, interpretWords, hread]

/-- A value may start with dashes and hold an equals sign of its own. -/
theorem interpretWords_arranged_baseline :
    let options := [["--baseline".ascii, "--a=b".ascii], ["-v".ascii]]
    let options' := [["--baseline=--a=b".ascii], ["-v".ascii]]
    let words := ["diff", "--baseline", "--a=b", "x", "-v"].map String.ascii
    let words' := ["--baseline=--a=b", "-v", "diff", "x"].map String.ascii
    Arranged options ["diff".ascii, "x".ascii] (words.map (Text.before 0)) ∧
      Arranged options' ["diff".ascii, "x".ascii] (words'.map (Text.before 0)) ∧
      List.Forall₂ SameOption options options' ∧
      (interpretWords words).run.run ⟨{}, {}⟩ = (interpretWords words').run.run ⟨{}, {}⟩ := by
  intro options options' words words'
  have hvalue : TakesValue "--baseline".ascii := by decide
  have hverbose : IsOption ["-v".ascii] := .single rfl (by decide) (by decide) (by decide)
  have hdiff : IsPositional "diff".ascii := .inl (by decide)
  have hx : IsPositional "x".ascii := .inl (by decide)
  have h : Arranged options ["diff".ascii, "x".ascii] (words.map (Text.before 0)) :=
    .positional hdiff (.option (.separate hvalue _) (.positional hx (.option hverbose .nil)))
  have h' : Arranged options' ["diff".ascii, "x".ascii] (words'.map (Text.before 0)) :=
    .option (.inline hvalue "--a=b".ascii)
      (.option hverbose (.positional hdiff (.positional hx .nil)))
  have hsame : List.Forall₂ SameOption options options' :=
    .cons (.inline hvalue _) (.cons (.refl _) .nil)
  exact ⟨h, h', hsame, interpretWords_arranged h h' hsame ⟨{}, {}⟩⟩

end CommandLine

end Triage
