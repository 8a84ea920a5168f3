import Triage.Proofs.InlineTables

/-!
Entries of a Pipfile whose value is an inline table on the line of the entry.

Of such a table only what stands before the first hash is looked at (`Entry.withoutComment_line`),
and there only for words: a version is any `version = "..."` that does not start amid a word
(`versionFrom?_none_eq_some_iff`), and without one the table counts as pinned if `ref` stands in any
of its keys and values. So an entry counts as pinned just for a key `ref` only where no other key or
value mimics that key and none hides it (`pinned_iff_hasKey_ref_iff`).
-/

namespace Triage

/-! ## Versions -/

namespace Text

theorem dropWhile_eq_cons_iff {p : UInt8 → Bool} {b : UInt8} (hb : p b = false) {s rest : Text} :
    s.dropWhile p = b :: rest ↔ ∃ gap, s = gap ++ b :: rest ∧ ∀ c ∈ gap, p c = true := by
  constructor
  · intro h
    exact ⟨s.takeWhile p, by rw [← h, List.takeWhile_append_dropWhile],
      fun c hc => List.mem_takeWhile_imp hc⟩
  · rintro ⟨gap, rfl, hgap⟩
    rw [dropWhile_append_cons hb, List.dropWhile_eq_nil_iff.mpr hgap, List.nil_append]

end Text

namespace Dependency

theorem afterByte?_eq_some_iff {b : UInt8} {s rest : Text} :
    afterByte? b s = some rest ↔ s = b :: rest := by
  cases s with
  | nil => simp [afterByte?]
  | cons c s => simp [afterByte?]

end Dependency

namespace Pipfile

open Dependency

/-- The word `version`, an equals sign and a text in double quotes, with any white space between
them. -/
def IsVersion (spec tail : Text) : Prop :=
  ∃ gap gap' rest, tail = "version".ascii ++
      (gap ++ '='.ascii :: (gap' ++ '"'.ascii :: (spec ++ '"'.ascii :: rest))) ∧
    (∀ b ∈ gap, Byte.isSpace b = true) ∧ (∀ b ∈ gap', Byte.isSpace b = true) ∧ '"'.ascii ∉ spec

/-- A version stands behind a text that does not end in the middle of a word. -/
def VersionAt (ahead tail spec : Text) : Prop :=
  ahead.getLast?.any isWordByte = false ∧ IsVersion spec tail

/-- The version that stands first in a text. -/
def FirstVersion (s spec : Text) : Prop :=
  ∃ ahead tail, s = ahead ++ tail ∧ VersionAt ahead tail spec ∧
    ∀ ahead' tail' spec', s = ahead' ++ tail' → VersionAt ahead' tail' spec' →
      ahead.length ≤ ahead'.length

theorem versionHere?_eq_some_iff {s spec : Text} :
    versionHere? s = some spec ↔ IsVersion spec s := by
  have hequals : Byte.isSpace '='.ascii = false := rfl
  have hquote : Byte.isSpace '"'.ascii = false := rfl
  constructor
  · intro h
    rw [versionHere?] at h
    split at h
    · next hstart =>
      obtain ⟨s, rfl⟩ := List.isPrefixOf_iff_prefix.mp hstart
      simp only [Option.bind_eq_bind, Option.bind_eq_some_iff, afterByte?_eq_some_iff] at h
      obtain ⟨s₁, h₁, s₂, h₂, h⟩ := h
      obtain ⟨gap, hgap, hspace⟩ := (Text.dropWhile_eq_cons_iff hequals).mp h₁
      obtain ⟨gap', rfl, hspace'⟩ := (Text.dropWhile_eq_cons_iff hquote).mp h₂
      split at h
      · next hclosed =>
        obtain ⟨text, rest, rfl, htext⟩ := List.eq_append_cons_of_mem (by simpa using hclosed)
        rw [Text.before_append_cons htext] at h
        obtain rfl := Option.some.inj h
        refine ⟨gap, gap', rest, ?_, hspace, hspace', htext⟩
        rw [← hgap]
        rfl
      · cases h
    · cases h
  · rintro ⟨gap, gap', rest, rfl, hspace, hspace', hspec⟩
    have h₁ : (gap ++ '='.ascii :: (gap' ++ '"'.ascii :: (spec ++ '"'.ascii :: rest))).dropWhile
        Byte.isSpace = '='.ascii :: (gap' ++ '"'.ascii :: (spec ++ '"'.ascii :: rest)) :=
      (Text.dropWhile_eq_cons_iff hequals).mpr ⟨gap, rfl, hspace⟩
    have h₂ : (gap' ++ '"'.ascii :: (spec ++ '"'.ascii :: rest)).dropWhile Byte.isSpace =
        '"'.ascii :: (spec ++ '"'.ascii :: rest) :=
      (Text.dropWhile_eq_cons_iff hquote).mpr ⟨gap', rfl, hspace'⟩
    have hstart (s : Text) : Text.startsWith ("version".ascii ++ s) "version".ascii = true :=
      List.isPrefixOf_iff_prefix.mpr (List.prefix_append ..)
    have hdrop (s : Text) : ("version".ascii ++ s).drop 7 = s := rfl
    rw [versionHere?, if_pos (hstart _), hdrop, h₁]
    simp [afterByte?, h₂, Text.before_append_cons hspec]

theorem ite_versionHere?_eq_some_iff {ahead s spec : Text} :
    (if ahead.getLast?.any isWordByte then none else versionHere? s) = some spec ↔
      VersionAt ahead s spec := by
  rw [VersionAt, ← versionHere?_eq_some_iff]
  cases ahead.getLast?.any isWordByte <;> simp

/-- The search behind a text finds the version that stands first. -/
theorem versionFrom?_eq_some_iff (ahead s spec : Text) :
    versionFrom? ahead.getLast? s = some spec ↔
      ∃ skipped tail, s = skipped ++ tail ∧ VersionAt (ahead ++ skipped) tail spec ∧
        ∀ skipped' tail' spec', s = skipped' ++ tail' →
          VersionAt (ahead ++ skipped') tail' spec' → skipped.length ≤ skipped'.length := by
  induction s generalizing ahead with
  | nil =>
    refine iff_of_false (by simp [versionFrom?]) ?_
    rintro ⟨skipped, tail, hs, ⟨-, gap, gap', rest, rfl, -⟩, -⟩
    simp [String.ascii] at hs
  | cons b s ih =>
    have hlast : (ahead ++ [b]).getLast? = some b := List.getLast?_concat
    rw [versionFrom?]
    -- Either a version stands here, and none can stand before it, or the byte is passed over.
    cases hhere : if ahead.getLast?.any isWordByte then none else versionHere? (b :: s) with
    | some found =>
      have hfound := ite_versionHere?_eq_some_iff.mp hhere
      constructor
      · intro h
        obtain rfl := Option.some.inj h
        exact ⟨[], b :: s, rfl, by rwa [List.append_nil], fun _ _ _ _ _ => Nat.zero_le _⟩
      · rintro ⟨skipped, tail, hs, hversion, hfirst⟩
        have hnil := hfirst [] (b :: s) found rfl (by rwa [List.append_nil])
        obtain rfl := List.length_eq_zero_iff.mp (Nat.le_zero.mp hnil)
        obtain rfl : b :: s = tail := hs
        rw [List.append_nil] at hversion
        rw [← hhere, ite_versionHere?_eq_some_iff.mpr hversion]
        rfl
    | none =>
      have hnone (spec : Text) : ¬VersionAt ahead (b :: s) spec := fun h => by
        rw [ite_versionHere?_eq_some_iff.mpr h] at hhere
        cases hhere
      have hbehind (skipped : Text) : ahead ++ [b] ++ skipped = ahead ++ b :: skipped := by simp
      rw [show (none <|> versionFrom? (some b) s) = versionFrom? (some b) s from rfl, ← hlast, ih]
      constructor
      · rintro ⟨skipped, tail, rfl, hversion, hfirst⟩
        refine ⟨b :: skipped, tail, rfl, by rwa [← hbehind], fun skipped' tail' spec' hs h => ?_⟩
        cases skipped' with
        | nil =>
          obtain rfl : _ = tail' := hs
          exact absurd (by rwa [List.append_nil] at h) (hnone spec')
        | cons c skipped' =>
          obtain ⟨rfl, hrest⟩ := List.cons.inj hs
          exact Nat.succ_le_succ (hfirst skipped' tail' spec' hrest (by rwa [hbehind]))
      · rintro ⟨skipped, tail, hs, hversion, hfirst⟩
        cases skipped with
        | nil =>
          obtain rfl : _ = tail := hs
          exact absurd (by rwa [List.append_nil] at hversion) (hnone spec)
        | cons c skipped =>
          obtain ⟨rfl, hrest⟩ := List.cons.inj hs
          refine ⟨skipped, tail, hrest, by rwa [hbehind], fun skipped' tail' spec' hs' h => ?_⟩
          exact Nat.succ_le_succ_iff.mp
            (hfirst (b :: skipped') tail' spec' (congrArg (b :: ·) hs') (by rwa [← hbehind]))

theorem versionFrom?_none_eq_some_iff (s spec : Text) :
    versionFrom? none s = some spec ↔ FirstVersion s spec :=
  versionFrom?_eq_some_iff [] s spec

/-! ## Entries -/

open Pyproject (isIndent)

/-- An entry whose value is an inline table: a name, be it in quotes, the table, and maybe a
comment. -/
structure Entry where
  indent : Text
  name : Text
  quoted : Bool
  afterName : Text
  afterEquals : Text
  table : Toml.InlineTable
  behind : Text
  comment : Text
  name_ne_nil : name ≠ []
  isName : ∀ b ∈ name, isNameByte b = true
  isIndent_indent : ∀ b ∈ indent, isIndent b = true
  isIndent_afterName : ∀ b ∈ afterName, isIndent b = true
  isIndent_afterEquals : ∀ b ∈ afterEquals, isIndent b = true
  isIndent_behind : ∀ b ∈ behind, isIndent b = true
  isComment : comment = [] ∨ ∃ rest, comment = '#'.ascii :: rest

/-- What is looked at of a table: what stands before its first hash. -/
def shown (t : Toml.InlineTable) : Text := Text.trim (Text.before '#'.ascii t.written)

namespace Entry

variable (e : Entry)

def key : Text := if e.quoted then '"'.ascii :: (e.name ++ ['"'.ascii]) else e.name

/-- The line up to the table. -/
def front : Text := e.key ++ (e.afterName ++ '='.ascii :: e.afterEquals)

def line : Text := e.indent ++ (e.front ++ (e.table.written ++ (e.behind ++ e.comment)))

/-- What is read of the entry. -/
def dependency (number : Nat) : Dependency :=
  let (spec, pinned) := versionOf (shown e.table)
  ⟨e.name, spec, number, pinned⟩

end Entry

theorem ne_of_isNameByte {b : UInt8} (h : isNameByte b = true) :
    Byte.isBlank b = false ∧ Byte.isSpace b = false ∧ b ≠ '['.ascii ∧ b ≠ '"'.ascii ∧
      b ≠ '#'.ascii := by
  grind [isNameByte, Byte.isLetterOrDigit, Byte.isLetter, Byte.isUpper, Byte.isLower,
    Byte.isDigit, Byte.isBlank, Byte.isSpace, Char.ascii]

theorem shown_isInfix (t : Toml.InlineTable) : shown t <:+: t.written :=
  (Text.trim_isInfix _).trans (List.takeWhile_prefix _).isInfix

theorem trim_brace (rest : Text) :
    Text.trim ('\x7b'.ascii :: rest) = '\x7b'.ascii :: Text.trimRight rest := by
  have hbrace : Byte.isBlank '\x7b'.ascii = false := rfl
  rw [Text.trim, ← List.nil_append ('\x7b'.ascii :: rest), Text.trimLeft_append_cons hbrace,
    Text.trimRight_append_cons hbrace]
  rfl

theorem exists_shown (t : Toml.InlineTable) : ∃ rest, shown t = '\x7b'.ascii :: rest := by
  obtain ⟨rest, hrest⟩ : ∃ rest, Text.before '#'.ascii t.written = '\x7b'.ascii :: rest := ⟨_, rfl⟩
  exact ⟨Text.trimRight rest, by rw [shown, hrest, trim_brace]⟩

theorem trim_shown (t : Toml.InlineTable) : Text.trim (shown t) = shown t := by
  obtain ⟨rest, hrest⟩ := exists_shown t
  have htrim := Text.trim_append_trim (s := Text.before '#'.ascii t.written)
    (by rw [← shown, hrest]; exact List.cons_ne_nil _ _) [] []
  rw [← shown] at htrim
  simpa [Text.trimLeft, Text.trimRight] using htrim

theorem trim_indent {s : Text} (h : ∀ b ∈ s, isIndent b = true) :
    Text.trimLeft s = [] ∧ Text.trimRight s = [] := by
  have hblank : ∀ b ∈ s, Byte.isBlank b = true := fun b hb => by
    obtain rfl | rfl := Pyproject.isIndent_iff.mp (h b hb) <;> rfl
  refine ⟨List.dropWhile_eq_nil_iff.mpr hblank, ?_⟩
  rw [Text.trimRight, List.dropWhile_eq_nil_iff.mpr fun b hb => hblank b (List.mem_reverse.mp hb)]
  rfl

/-- Blanks and a comment behind a table are not looked at. -/
theorem Entry.trim_before_table (e : Entry) :
    Text.trim (Text.before '#'.ascii (e.table.written ++ (e.behind ++ e.comment))) =
      shown e.table := by
  by_cases hhash : '#'.ascii ∈ e.table.written
  · rw [Text.before_append_of_mem hhash, shown]
  · have hbehind := Pyproject.not_mem_indent '#'.ascii rfl e.isIndent_behind
    have hcut : Text.before '#'.ascii (e.behind ++ e.comment) = e.behind := by
      obtain hcomment | ⟨rest, hcomment⟩ := e.isComment <;> rw [hcomment]
      · rw [List.append_nil, Text.before_of_not_mem hbehind]
      · exact Text.before_append_cons hbehind rest
    rw [Text.before_append_of_not_mem hhash, hcut, shown, Text.before_of_not_mem hhash]
    have htrim (tail : Text) : Text.trim (e.table.written ++ tail) =
        e.table.written ++ Text.trimRight tail := by
      have h := Text.trim_append_cons (b := '\x7b'.ascii) (c := '\x7d'.ascii) rfl rfl []
        (Toml.row (e.table.members.map Toml.Member.written) ++ e.table.blank) tail
      simpa [Toml.InlineTable.written, Text.trimLeft] using h
    have hnil := htrim []
    rw [List.append_nil] at hnil
    rw [htrim, (trim_indent e.isIndent_behind).2, hnil]
    rfl

namespace Entry

variable (e : Entry)

theorem hash_not_mem_front : '#'.ascii ∉ e.front := by
  have hname : '#'.ascii ∉ e.name := fun h => absurd (e.isName _ h) (by decide)
  have hquote : '#'.ascii ≠ '"'.ascii := by decide
  have hequals : '#'.ascii ≠ '='.ascii := by decide
  have hgap := Pyproject.not_mem_indent '#'.ascii rfl e.isIndent_afterName
  have hgap' := Pyproject.not_mem_indent '#'.ascii rfl e.isIndent_afterEquals
  rw [front, key]
  split <;> simp [hname, hquote, hequals, hgap, hgap']

theorem exists_front : ∃ b rest, e.front = b :: rest ∧ Byte.isBlank b = false ∧
    Byte.isSpace b = false ∧ b ≠ '['.ascii := by
  rw [front, key]
  split
  · exact ⟨'"'.ascii, _, rfl, rfl, rfl, by decide⟩
  · obtain ⟨b, rest, hname⟩ := List.exists_cons_of_ne_nil e.name_ne_nil
    obtain ⟨hblank, hspace, hbracket, -⟩ := ne_of_isNameByte (e.isName b (by simp [hname]))
    exact ⟨b, _, by rw [hname]; rfl, hblank, hspace, hbracket⟩

/-- Only what stands before the first hash of the table, or before the comment, is read. -/
theorem withoutComment_line : withoutComment e.line = e.front ++ shown e.table := by
  obtain ⟨b, rest, hfront, hblank, -⟩ := e.exists_front
  have hindent := Pyproject.not_mem_indent '#'.ascii rfl e.isIndent_indent
  obtain ⟨body, hbody⟩ : ∃ body,
      Text.before '#'.ascii (e.table.written ++ (e.behind ++ e.comment)) = '\x7b'.ascii :: body :=
    ⟨_, rfl⟩
  have hshown := e.trim_before_table
  rw [hbody, trim_brace] at hshown
  have htrim : Text.trim (e.indent ++ (e.front ++ '\x7b'.ascii :: body)) =
      e.front ++ '\x7b'.ascii :: Text.trimRight body := by
    rw [Text.trim, hfront, List.cons_append, Text.trimLeft_append_cons hblank,
      (trim_indent e.isIndent_indent).1, List.nil_append, ← List.cons_append,
      Text.trimRight_append_cons (b := '\x7b'.ascii) rfl]
  rw [Dependency.withoutComment, line, Text.before_append_of_not_mem hindent,
    Text.before_append_of_not_mem e.hash_not_mem_front, hbody, htrim, hshown]

/-- The name and what follows the equals sign are told apart, with and without quotes. -/
theorem assignment?_line : assignment? true (e.front ++ shown e.table) =
    some (e.name, e.afterEquals ++ shown e.table) := by
  have hquoteName : isNameByte '"'.ascii = false := rfl
  have hequalsName : isNameByte '='.ascii = false := rfl
  have htake : e.name.takeWhile isNameByte = e.name := List.takeWhile_eq_self_iff.mpr e.isName
  have hdrop : e.name.dropWhile isNameByte = [] := List.dropWhile_eq_nil_iff.mpr e.isName
  have hvalue : (e.afterName ++ '='.ascii :: (e.afterEquals ++ shown e.table)).dropWhile
      Byte.isSpace = '='.ascii :: (e.afterEquals ++ shown e.table) := by
    rw [Text.dropWhile_append_cons rfl, Pyproject.dropSpace_indent e.isIndent_afterName,
      List.nil_append]
  have hline : e.front ++ shown e.table =
      e.key ++ (e.afterName ++ '='.ascii :: (e.afterEquals ++ shown e.table)) := by
    simp [front]
  rw [hline, key]
  -- Behind a quoted name stands a quote, behind a bare one the gap before the equals sign.
  cases e.quoted with
  | true =>
    have hskip (s : Text) : skipByte '"'.ascii ('"'.ascii :: s) = s := rfl
    have hspace (s : Text) : ('"'.ascii :: s).dropWhile Byte.isSpace = '"'.ascii :: s := rfl
    simp only [assignment?, if_true, List.cons_append, List.append_assoc, List.nil_append, hspace,
      hskip, Text.takeWhile_append_cons hquoteName, Text.dropWhile_append_cons hquoteName, htake,
      hdrop, hvalue]
    simp [e.name_ne_nil, afterByte?]
  | false =>
    obtain ⟨b, name, hname⟩ := List.exists_cons_of_ne_nil e.name_ne_nil
    obtain ⟨-, hspace, -, hquote, -⟩ := ne_of_isNameByte (e.isName b (by simp [hname]))
    have hstart (s : Text) : skipByte '"'.ascii ((e.name ++ s).dropWhile Byte.isSpace) =
        e.name ++ s := by
      simp [hname, hspace, skipByte, hquote]
    have htake' : (e.name ++ e.afterName).takeWhile isNameByte = e.name := by
      rw [List.takeWhile_append_of_pos e.isName, Pyproject.takeWhile_indent e.isIndent_afterName,
        List.append_nil]
    have hdrop' : (e.name ++ e.afterName).dropWhile isNameByte = e.afterName := by
      rw [List.dropWhile_append_of_pos e.isName, Pyproject.dropWhile_indent e.isIndent_afterName]
    simp only [assignment?, if_true, Bool.false_eq_true, if_false, hstart]
    rw [← List.append_assoc, Text.takeWhile_append_cons hequalsName,
      Text.dropWhile_append_cons hequalsName, htake', hdrop',
      Pyproject.skipByte_indent e.isIndent_afterName rfl (by decide), hvalue]
    simp [e.name_ne_nil, afterByte?]

theorem skipSpaceButLast_indent {gap : Text} (h : ∀ b ∈ gap, isIndent b = true) {b : UInt8}
    (hb : Byte.isSpace b = false) (rest : Text) :
    skipSpaceButLast (gap ++ b :: rest) = b :: rest := by
  have hskip {c : UInt8} (hc : Byte.isSpace c = true) {s : Text} (hs : s ≠ []) :
      skipSpaceButLast (c :: s) = skipSpaceButLast s := by
    obtain ⟨d, s, rfl⟩ := List.exists_cons_of_ne_nil hs
    simp [skipSpaceButLast, hc]
  induction gap with
  | nil => cases rest <;> simp [skipSpaceButLast, hb]
  | cons c gap ih =>
    obtain ⟨hc, hgap⟩ := List.forall_mem_cons.mp h
    have hspace : Byte.isSpace c = true := by
      obtain rfl | rfl := Pyproject.isIndent_iff.mp hc <;> rfl
    rw [List.cons_append, hskip hspace (by simp), ih hgap]

/-- The value of the entry is what is looked at of the table. -/
theorem value?_line : value? (e.afterEquals ++ shown e.table) = some (shown e.table) := by
  have hreturn : Byte.carriageReturn ∉ shown e.table := fun h =>
    absurd (e.table.onLine _ ((shown_isInfix e.table).subset h)) (by decide)
  have htrim := trim_shown e.table
  obtain ⟨rest, hshown⟩ := exists_shown e.table
  rw [hshown] at hreturn htrim ⊢
  rw [value?, skipSpaceButLast_indent e.isIndent_afterEquals rfl,
    if_neg (by simpa using hreturn), htrim]

theorem step_line {current : Text} (h : current ∈ packageSections) (number : Nat) :
    step current number e.line = (current, [e.dependency number]) := by
  obtain ⟨b, rest, hfront, hblank, -, hbracket⟩ := e.exists_front
  have hsection : sectionName? (e.front ++ shown e.table) = none := by
    rw [hfront]
    exact Pyproject.sectionName?_cons hblank hbracket _
  rw [step, e.withoutComment_line, hsection]
  simp [h, ofAssignment?, e.assignment?_line, e.value?_line, dependency]

end Entry

/-! ## Tables that are read as they are meant -/

/-- What is looked at of a table tells whether the table has a key `ref`. -/
structure ReadAsMeant (t : Toml.InlineTable) : Prop where
  /-- If it shows a version, that one must be exact just for tables with the key. -/
  version : ∀ spec, FirstVersion (shown t) spec → (isExact spec = true ↔ t.HasKey "ref".ascii)
  /-- If it shows none, the word must be there just for tables with the key. -/
  word : (∀ spec, ¬FirstVersion (shown t) spec) → (t.Mentions "ref".ascii ↔ t.HasKey "ref".ascii)

theorem readAsMeant_iff (t : Toml.InlineTable) :
    ((versionOf (shown t)).2 = true ↔ t.HasKey "ref".ascii) ↔ ReadAsMeant t := by
  obtain ⟨rest, hshown⟩ := exists_shown t
  have hhead : (shown t).head? == some '\x7b'.ascii := by rw [hshown]; rfl
  have hmentions : Text.occursIn "ref".ascii (shown t) = true ↔ t.Mentions "ref".ascii := by
    rw [Text.occursIn_iff, shown, Text.infix_trim_iff (by decide) (by decide),
      t.mentions_iff (by decide) (by decide)]
  rw [versionOf, if_pos hhead]
  -- The version that is found first decides; without one it is the word `ref`.
  cases hfirst : versionFrom? none (shown t) with
  | some spec =>
    have hversion := (versionFrom?_none_eq_some_iff _ _).mp hfirst
    constructor
    · intro h
      refine ⟨fun spec' h' => ?_, fun hnone => absurd hversion (hnone spec)⟩
      rw [← versionFrom?_none_eq_some_iff, hfirst] at h'
      rwa [← Option.some.inj h']
    · exact fun h => h.version spec hversion
  | none =>
    have hnone (spec : Text) : ¬FirstVersion (shown t) spec := fun h => by
      rw [← versionFrom?_none_eq_some_iff, hfirst] at h
      cases h
    rw [hmentions]
    exact ⟨fun h => ⟨fun spec hspec => absurd hspec (hnone spec), fun _ => h⟩,
      fun h => h.word hnone⟩

/-- So it does where no key or value has a hash or the word `version`, and the word `ref` is only in
keys of that name. -/
theorem readAsMeant_of_plain {t : Toml.InlineTable} (hhash : ∀ part ∈ t.parts, '#'.ascii ∉ part)
    (hversion : ∀ part ∈ t.parts, ¬"version".ascii <:+: part)
    (hkey : ∀ m ∈ t.members, "ref".ascii <:+: m.key ↔ m.name = "ref".ascii)
    (hvalue : ∀ m ∈ t.members, ¬"ref".ascii <:+: m.item.value) : ReadAsMeant t where
  version spec hspec := by
    obtain ⟨ahead, tail, hshown, ⟨-, gap, gap', rest, rfl, -⟩, -⟩ := hspec
    have hword : "version".ascii <:+: shown t := by
      rw [hshown]
      exact (List.prefix_append ..).isInfix.trans (List.suffix_append ..).isInfix
    rw [shown, Text.infix_trim_iff (by decide) (by decide),
      ← t.mentions_iff (by decide) (by decide)] at hword
    obtain ⟨part, hpart, hword⟩ := hword
    rw [Text.upTo_of_not_mem hhash] at hpart
    exact absurd hword (hversion part hpart)
  word _ := by
    rw [Toml.InlineTable.Mentions, Text.upTo_of_not_mem hhash]
    constructor
    · rintro ⟨part, hpart, hword⟩
      obtain ⟨m, hm, hpart⟩ := List.mem_flatMap.mp hpart
      obtain rfl | rfl : part = m.key ∨ part = m.item.value := by
        simpa [Toml.Member.parts] using hpart
      · exact ⟨m, hm, (hkey m hm).mp hword⟩
      · exact absurd hword (hvalue m hm)
    · rintro ⟨m, hm, hname⟩
      exact ⟨m.key, List.mem_flatMap.mpr ⟨m, hm, List.mem_cons_self⟩, (hkey m hm).mpr hname⟩

/-! ## Entries in a file -/

/-- The section that some lines end in: the last one that a line opens. -/
def EndsIn (above : List Text) (name : Text) : Prop :=
  ∃ before header between, above = before ++ header :: between ∧
    sectionName? (withoutComment header) = some name ∧
    ∀ line ∈ between, sectionName? (withoutComment line) = none

theorem stateAfter_of_none {lines : List Text}
    (h : ∀ line ∈ lines, sectionName? (withoutComment line) = none) (current : Text)
    (number : Nat) : stateAfter step current number lines = current := by
  induction lines generalizing number with
  | nil => rfl
  | cons line lines ih =>
    obtain ⟨hline, h⟩ := List.forall_mem_cons.mp h
    have hstep : (step current number line).1 = current := by rw [step, hline]
    rw [stateAfter, hstep, ih h]

theorem EndsIn.stateAfter {above : List Text} {name : Text} (h : EndsIn above name) (start : Text)
    (number : Nat) : stateAfter step start number above = name := by
  obtain ⟨before, header, between, rfl, hheader, hbetween⟩ := h
  induction before generalizing start number with
  | nil =>
    have hstep : (step start number header).1 = name := by rw [step, hheader]
    rw [List.nil_append, Dependency.stateAfter, hstep, stateAfter_of_none hbetween]
  | cons line before ih => exact ih _ _

/-- The dependencies that the lines above an entry declare. -/
def declaredAbove (above : List Text) : List Dependency := collect step [] 1 above

/-- The dependencies that the lines below an entry declare, of which the first has that number. -/
def declaredBelow (current : Text) (number : Nat) (below : List Text) : List Dependency :=
  collect step current number below

/-- Whether an entry counts as pinned agrees with whether its table has a key `ref` just if the
table is read as it is meant. -/
theorem pinned_iff_hasKey_ref_iff {path text : Text} {above below : List Text} {current : Text}
    (hpath : ManifestKind.ofPath? path = some .pipfile) (e : Entry)
    (htext : Text.lines text = above ++ e.line :: below) (habove : EndsIn above current)
    (hcurrent : current ∈ packageSections) (document : Text → Option Document) :
    ∃ d, Manifest.ofFile? path text document = some ⟨path, .pipfile,
        declaredAbove above ++ d :: declaredBelow current (above.length + 2) below, []⟩ ∧
      d.name = e.name ∧ d.line = above.length + 1 ∧
      ((d.pinned = true ↔ e.table.HasKey "ref".ascii) ↔ ReadAsMeant e.table) := by
  have hdependencies : dependencies text = declaredAbove above ++
      e.dependency (above.length + 1) :: declaredBelow current (above.length + 2) below := by
    rw [dependencies, htext, collect_append, habove.stateAfter, collect_cons,
      e.step_line hcurrent, Nat.add_comm 1]
    rfl
  refine ⟨e.dependency (above.length + 1), ?_, rfl, rfl, readAsMeant_iff e.table⟩
  rw [Manifest.ofFile?, hpath, ← hdependencies]
  rfl

/-! ### Entries that name a repository -/

theorem isIndent_nil : ∀ b ∈ ([] : Text), isIndent b = true := List.forall_mem_nil _

theorem isIndent_space : ∀ b ∈ " ".ascii, isIndent b = true := List.all_eq_true.mp rfl

/-- A value behind a space. -/
def spacedItem (value : Text) : Toml.Item :=
  ⟨" ".ascii, value, [], isIndent_space, isIndent_nil⟩

/-- A bare key and a text in double quotes. -/
def textMember (key text : Text) (hkey : Toml.IsPath key key) : Toml.Member where
  before := []
  key := key
  name := key
  afterKey := " ".ascii
  item := spacedItem ('"'.ascii :: (text ++ ['"'.ascii]))
  isPath := hkey
  isIndent_before := isIndent_nil
  isIndent_afterKey := isIndent_space

theorem isPath_git : Toml.IsPath "git".ascii "git".ascii :=
  .bare (List.cons_ne_nil _ _) (List.all_eq_true.mp rfl)

theorem isPath_ref : Toml.IsPath "ref".ascii "ref".ascii :=
  .bare (List.cons_ne_nil _ _) (List.all_eq_true.mp rfl)

/-- Whether a text can stand between double quotes as it is. -/
def isPlain (text : Text) : Bool :=
  text.all fun b => Toml.isInner b && b != '"'.ascii && b != '\\'.ascii

theorem isValue_textMember {key text : Text} (hkey : Toml.IsPath key key)
    (htext : isPlain text = true) : Toml.IsValue (textMember key text hkey).item.value :=
  .string (.basic (.of_plain fun b hb => by
    simpa [and_assoc] using List.all_eq_true.mp htext b hb))

/-- The member for the address of a repository. -/
def gitMember (address : Text) : Toml.Member := textMember "git".ascii address isPath_git

/-- The member for a commit. -/
def refMember : Toml.Member := textMember "ref".ascii "v1".ascii isPath_ref

theorem isValue_git {address : Text} (h : isPlain address = true) :
    ∀ m ∈ [gitMember address], Toml.IsValue m.item.value :=
  List.forall_mem_singleton.mpr (isValue_textMember isPath_git h)

theorem isValue_gitRef {address : Text} (h : isPlain address = true) :
    ∀ m ∈ [gitMember address, refMember], Toml.IsValue m.item.value :=
  List.forall_mem_cons.mpr ⟨isValue_textMember isPath_git h,
    List.forall_mem_singleton.mpr (isValue_textMember isPath_ref rfl)⟩

theorem isNameByte_lib : ∀ b ∈ "lib".ascii, isNameByte b = true := List.all_eq_true.mp rfl

def libraryEntry (table : Toml.InlineTable) : Entry where
  indent := []
  name := "lib".ascii
  quoted := false
  afterName := " ".ascii
  afterEquals := " ".ascii
  table := table
  behind := []
  comment := []
  name_ne_nil := List.cons_ne_nil _ _
  isName := isNameByte_lib
  isIndent_indent := isIndent_nil
  isIndent_afterName := isIndent_space
  isIndent_afterEquals := isIndent_space
  isIndent_behind := isIndent_nil
  isComment := .inl rfl

/-- A repository and a commit. -/
def refTable : Toml.InlineTable :=
  ⟨[gitMember "https://example.com/lib.git".ascii, refMember], [], isValue_gitRef rfl, isIndent_nil⟩

def textOf (table : Toml.InlineTable) : Text :=
  "[packages]\n".ascii ++ (libraryEntry table).line ++ "\n".ascii

theorem pinned_refTable : ∃ d, Manifest.ofFile? "Pipfile".ascii (textOf refTable) =
      some ⟨"Pipfile".ascii, .pipfile, [d], []⟩ ∧
    d.name = "lib".ascii ∧ d.line = 2 ∧ d.pinned = true := by
  have hlines : Text.lines (textOf refTable) =
      ["[packages]".ascii] ++ (libraryEntry refTable).line :: [] := by decide
  obtain ⟨d, hfile, hname, hline, hpinned⟩ :=
    pinned_iff_hasKey_ref_iff (show ManifestKind.ofPath? "Pipfile".ascii = some .pipfile by decide)
      (libraryEntry refTable) hlines ⟨[], _, [], rfl, by decide, by simp⟩
      (show "packages".ascii ∈ packageSections by decide) fun _ => none
  have hmeant : ReadAsMeant refTable :=
    readAsMeant_of_plain (by decide) (by decide) (by decide) (by decide)
  have href : refTable.HasKey "ref".ascii := by decide
  exact ⟨d, hfile, hname, hline, (hpinned.mpr hmeant).mpr href⟩

/-- A repository whose address has the word in the middle of another one. -/
def preferencesTable : Toml.InlineTable :=
  ⟨[gitMember "https://example.com/preferences.git".ascii], [], isValue_git rfl, isIndent_nil⟩

/-- A repository whose address has a hash, and a commit. -/
def fragmentTable : Toml.InlineTable :=
  ⟨[gitMember "https://example.com/lib.git#main".ascii, refMember], [], isValue_gitRef rfl,
    isIndent_nil⟩

/-- The first counts as pinned though it has no key `ref`, and the second does not though it has. -/
theorem not_pinned_iff_hasKey_ref :
    ((¬preferencesTable.HasKey "version".ascii ∧ ¬preferencesTable.HasKey "ref".ascii) ∧
      Manifest.ofFile? "Pipfile".ascii (textOf preferencesTable) =
        some ⟨"Pipfile".ascii, .pipfile, [⟨"lib".ascii, preferencesTable.written, 2, true⟩], []⟩) ∧
    (¬fragmentTable.HasKey "version".ascii ∧ fragmentTable.HasKey "ref".ascii) ∧
      Manifest.ofFile? "Pipfile".ascii (textOf fragmentTable) =
        some ⟨"Pipfile".ascii, .pipfile,
          [⟨"lib".ascii, "\x7bgit = \"https://example.com/lib.git".ascii, 2, false⟩], []⟩ := by
  decide

end Pipfile

end Triage
