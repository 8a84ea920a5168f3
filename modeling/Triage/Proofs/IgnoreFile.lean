import Mathlib
import Triage.Proofs.IgnoreRules
import Triage.Scan

/-!
The ignore file of the settings, which is read up to a limit.

Reading may stop within a line (`Text.CutAt`). The lines above it are read as they stand in the file,
and what is read of that line counts as a line too. So the rules in effect are rules of lines of the
file unless the piece spells a rule that none of them spells, and they are the rules of some lines in
the order of the file unless no line from there on spells it (`Scanner.ignoreRules_parse_iff`).
-/

namespace Triage

open Byte (lineFeed)

/-! ## Where reading stops -/

namespace Text

variable {above below : List Text} {begun rest : Text}

theorem joinWith_cons (sep piece : Text) {pieces : List Text} (h : pieces ≠ []) :
    joinWith sep (piece :: pieces) = piece ++ sep ++ joinWith sep pieces := by
  cases pieces with
  | nil => exact absurd rfl h
  | cons next pieces => rfl

theorem joinWith_append_joinWith (sep : Text) (above : List Text) (begun rest : Text)
    (below : List Text) : joinWith sep (above ++ [begun]) ++ joinWith sep (rest :: below) =
      joinWith sep (above ++ (begun ++ rest) :: below) := by
  induction above with
  | nil => cases below <;> simp [joinWith]
  | cons piece above ih =>
    rw [List.cons_append, List.cons_append, joinWith_cons sep piece (by simp),
      joinWith_cons sep piece (by simp), List.append_assoc, ih]

/-- The last piece of a text and the first one of the text behind it are one piece of both. -/
theorem splitOn_append_of {sep : UInt8} {a b : Text} (ha : splitOn sep a = above ++ [begun])
    (hb : splitOn sep b = rest :: below) :
    splitOn sep (a ++ b) = above ++ (begun ++ rest) :: below := by
  have hfree : ∀ {s piece : Text}, piece ∈ splitOn sep s → sep ∉ piece :=
    fun hpiece hmem => (mem_of_mem_splitOn hpiece hmem).2 rfl
  have habove : ∀ piece ∈ above ++ [begun], sep ∉ piece := fun piece h => hfree (ha ▸ h)
  have hbelow : ∀ piece ∈ rest :: below, sep ∉ piece := fun piece h => hfree (hb ▸ h)
  have hpieces : ∀ piece ∈ above ++ (begun ++ rest) :: below, sep ∉ piece := by
    intro piece hpiece
    rcases List.mem_append.mp hpiece with h | h
    · exact habove piece (List.mem_append_left _ h)
    rcases List.mem_cons.mp h with rfl | h
    · rw [List.mem_append, not_or]
      exact ⟨habove begun (by simp), hbelow rest List.mem_cons_self⟩
    · exact hbelow piece (List.mem_cons_of_mem _ h)
  rw [← splitOn_joinWith (by simp) hpieces, ← joinWith_append_joinWith, ← ha, ← hb,
    joinWith_splitOn, joinWith_splitOn]

/-- Reading the first `limit` bytes of a text stops in the line of which `begun` has then been read
and `rest` has not. -/
structure CutAt (limit : Nat) (text : Text) (above : List Text) (begun rest : Text)
    (below : List Text) : Prop where
  lines : splitOn lineFeed text = above ++ (begun ++ rest) :: below
  read : splitOn lineFeed (text.take limit) = above ++ [begun]
  unread : splitOn lineFeed (text.drop limit) = rest :: below

theorem exists_cutAt (limit : Nat) (text : Text) :
    ∃ above begun rest below, CutAt limit text above begun rest below := by
  obtain ⟨above, begun, hread⟩ :=
    (List.eq_nil_or_concat' _).resolve_left (splitOn_ne_nil lineFeed (text.take limit))
  obtain ⟨rest, below, hunread⟩ :=
    List.exists_cons_of_ne_nil (splitOn_ne_nil lineFeed (text.drop limit))
  refine ⟨above, begun, rest, below, ?_, hread, hunread⟩
  have hlines := splitOn_append_of hread hunread
  rwa [List.take_append_drop] at hlines

/-- There is one line in which reading stops. -/
theorem CutAt.unique {limit : Nat} {text : Text} {above' below' : List Text} {begun' rest' : Text}
    (h : CutAt limit text above begun rest below)
    (h' : CutAt limit text above' begun' rest' below') :
    above' = above ∧ begun' = begun ∧ rest' = rest ∧ below' = below := by
  obtain ⟨habove, hbegun⟩ := List.append_inj' (h'.read.symm.trans h.read) rfl
  obtain ⟨hrest, hbelow⟩ := List.cons.inj (h'.unread.symm.trans h.unread)
  exact ⟨habove, (List.cons.inj hbegun).1, hrest, hbelow⟩

end Text

namespace FileData

theorem firstBytes_eq (limit : Nat) (f : FileData) : f.firstBytes limit = f.bytes.take limit := by
  unfold firstBytes bytes
  split
  · next hzeros => simp [hzeros]
  · rw [List.take_append, List.take_replicate, Nat.min_comm]

end FileData

theorem FileSystem.readUpTo?_of_readAll? {fs : FileSystem} {path text : Text} (limit : Nat)
    (h : fs.readAll? path = some text) : (fs.readUpTo? limit path).getD [] = text.take limit := by
  unfold readAll? at h
  unfold readUpTo?
  split at h
  · next data hnode =>
    rw [hnode, ← Option.some.inj h]
    exact data.firstBytes_eq limit
  · next hnode =>
    rw [hnode, ← Option.some.inj h]
    exact List.take_nil.symm
  · contradiction

/-! ## The rules in effect -/

namespace IgnoreRules

open IgnoreRule

variable {rules : IgnoreRules} {text : Text} {lines above below : List Text} {begun rest : Text}

/-- Lines put together again give the rules that they spell. -/
theorem parse_joinWith (h : lines.Sublist (Text.splitOn lineFeed text)) :
    parse (Text.joinWith [lineFeed] lines) = lines.filterMap ofLine? := by
  by_cases hlines : lines = []
  · subst hlines
    rfl
  · rw [parse, Text.splitOn_joinWith hlines]
    exact fun line hline hmem => (Text.mem_of_mem_splitOn (h.subset hline) hmem).2 rfl

/-- What is read of a text gives the rules of the lines above and that of the piece. -/
theorem parse_take {limit : Nat} (hcut : Text.CutAt limit text above begun rest below) :
    parse (text.take limit) = above.filterMap ofLine? ++ (ofLine? begun).toList := by
  rw [parse, hcut.read, List.filterMap_append]
  rfl

/-- The rules of a text of which only the beginning is read are rules of its lines if and only if
that holds of what is read of the line in which reading stops. -/
theorem forall_mem_parse_take_iff {limit : Nat}
    (hcut : Text.CutAt limit text above begun rest below) :
    (∀ r ∈ parse (text.take limit), ∃ line ∈ Text.splitOn lineFeed text, r.SpelledBy line) ↔
      ∀ r : IgnoreRule, r.SpelledBy begun →
        ∃ line ∈ Text.splitOn lineFeed text, r.SpelledBy line := by
  constructor
  · intro h r hr
    exact h r (mem_parse_iff.mpr ⟨begun, by rw [hcut.read]; simp, hr⟩)
  · intro h r hr
    obtain ⟨line, hline, hspelled⟩ := mem_parse_iff.mp hr
    rw [hcut.read, List.mem_append, List.mem_singleton] at hline
    rcases hline with hline | rfl
    · exact ⟨line, by rw [hcut.lines]; exact List.mem_append_left _ hline, hspelled⟩
    · exact h r hspelled

/-- The rules of a text of which only the beginning is read are those of some of its lines, in their
order, if and only if the piece that was read last spells no rule or one of a line from there on. -/
theorem exists_parse_take_iff {limit : Nat}
    (hcut : Text.CutAt limit text above begun rest below) :
    (∃ lines, lines.Sublist (Text.splitOn lineFeed text) ∧
        parse (text.take limit) = parse (Text.joinWith [lineFeed] lines)) ↔
      ∀ r : IgnoreRule, r.SpelledBy begun →
        ∃ line ∈ (begun ++ rest) :: below, r.SpelledBy line := by
  rw [parse_take hcut]
  constructor
  · rintro ⟨lines, hlines, heq⟩ r hr
    rw [ofLine?_eq_some_iff.mpr hr, parse_joinWith hlines] at heq
    rw [hcut.lines, List.sublist_append_iff] at hlines
    obtain ⟨upper, lower, rfl, hupper, hlower⟩ := hlines
    rw [List.filterMap_append] at heq
    -- The lines above do not spell more rules than they do, so the last one comes from below.
    have hlength := congrArg List.length heq
    have hle := (hupper.filterMap ofLine?).length_le
    have hne : lower.filterMap ofLine? ≠ [] := by
      intro hnil
      simp only [hnil, List.length_append, List.append_nil, Option.toList_some,
        List.length_singleton] at hlength
      omega
    have hlast := congrArg List.getLast? heq
    rw [List.getLast?_append_of_ne_nil _ hne] at hlast
    have hmem : r ∈ lower.filterMap ofLine? := List.mem_of_getLast? (by rw [← hlast]; simp)
    obtain ⟨line, hline, hspelled⟩ := List.mem_filterMap.mp hmem
    exact ⟨line, hlower.subset hline, ofLine?_eq_some_iff.mp hspelled⟩
  · intro h
    have habove : above.Sublist (Text.splitOn lineFeed text) := by
      rw [hcut.lines]
      exact List.sublist_append_left ..
    cases hbegun : ofLine? begun with
    | none =>
      refine ⟨above, habove, ?_⟩
      rw [parse_joinWith habove]
      exact List.append_nil _
    | some r =>
      obtain ⟨line, hline, hspelled⟩ := h r (ofLine?_eq_some_iff.mp hbegun)
      have hlines : (above ++ [line]).Sublist (Text.splitOn lineFeed text) := by
        rw [hcut.lines]
        exact (List.Sublist.refl above).append (List.singleton_sublist.mpr hline)
      refine ⟨above ++ [line], hlines, ?_⟩
      rw [parse_joinWith hlines, List.filterMap_append, List.filterMap_cons_some
        (ofLine?_eq_some_iff.mpr hspelled)]
      rfl

/-- The lines that were read as a whole decide on all that the piece does not cover. -/
theorem decide?_parse_take {limit : Nat} (hcut : Text.CutAt limit text above begun rest below)
    (path : Text) (isDirectory : Bool)
    (h : ∀ r : IgnoreRule, r.SpelledBy begun → ¬ r.Covers path isDirectory) :
    (parse (text.take limit)).decide? path isDirectory =
      (parse (Text.joinWith [lineFeed] above)).decide? path isDirectory := by
  have habove : above.Sublist (Text.splitOn lineFeed text) := by
    rw [hcut.lines]
    exact List.sublist_append_left ..
  have hpiece : decide? (ofLine? begun).toList path isDirectory = none := by
    cases hbegun : ofLine? begun with
    | none => rfl
    | some r =>
      have happlies : ¬ r.applies path isDirectory :=
        fun happlies => h r (ofLine?_eq_some_iff.mp hbegun) (applies_iff.mp happlies)
      simp [decide?, happlies]
  rw [parse_take hcut, decide?_append, hpiece, Option.none_or, parse_joinWith habove]

end IgnoreRules

namespace Scanner

variable {s : Scanner} {text : Text}

theorem ignoreRules_eq (h : s.machine.files.readAll? s.config.ignoreFile = some text) :
    s.ignoreRules = IgnoreRules.parse (text.take IgnoreRules.maxFileSize) := by
  have hne : s.config.ignoreFile.isEmpty = false := by
    rw [Bool.eq_false_iff]
    intro hempty
    rw [List.isEmpty_iff.mp hempty] at h
    contradiction
  rw [ignoreRules, hne, ← FileSystem.readUpTo?_of_readAll? IgnoreRules.maxFileSize h]
  cases s.machine.files.readUpTo? IgnoreRules.maxFileSize s.config.ignoreFile <;> rfl

/-- **An ignore file that is too long is cut within a line.** All rules in effect are rules of lines
of the file if and only if that holds of the piece that is read of the line in which reading stops.
They are what parsing some lines of the file gives, in their order, if and only if the piece spells no
rule or one of a line from there on. What no rule of the piece covers is decided by the lines above;
and a file within the limit is parsed as a whole. -/
theorem ignoreRules_parse_iff (h : s.machine.files.readAll? s.config.ignoreFile = some text) :
    let lines := Text.splitOn lineFeed text
    ∃ above begun rest below, Text.CutAt IgnoreRules.maxFileSize text above begun rest below ∧
      ((∀ r ∈ s.ignoreRules, ∃ line ∈ lines, r.SpelledBy line) ↔
        ∀ r : IgnoreRule, r.SpelledBy begun → ∃ line ∈ lines, r.SpelledBy line) ∧
      ((∃ kept : List Text, kept.Sublist lines ∧
          s.ignoreRules = IgnoreRules.parse (Text.joinWith [lineFeed] kept)) ↔
        ∀ r : IgnoreRule, r.SpelledBy begun →
          ∃ line ∈ (begun ++ rest) :: below, r.SpelledBy line) ∧
      (∀ path isDirectory,
        (∀ r : IgnoreRule, r.SpelledBy begun → ¬ r.Covers path isDirectory) →
          s.ignoreRules.decide? path isDirectory =
            (IgnoreRules.parse (Text.joinWith [lineFeed] above)).decide? path isDirectory) ∧
      (text.length ≤ IgnoreRules.maxFileSize → s.ignoreRules = IgnoreRules.parse text) := by
  intro lines
  obtain ⟨above, begun, rest, below, hcut⟩ := Text.exists_cutAt IgnoreRules.maxFileSize text
  rw [ignoreRules_eq h]
  exact ⟨above, begun, rest, below, hcut, IgnoreRules.forall_mem_parse_take_iff hcut,
    IgnoreRules.exists_parse_take_iff hcut,
    fun path isDirectory => IgnoreRules.decide?_parse_take hcut path isDirectory,
    fun hlength => by rw [List.take_of_length_le hlength]⟩

/-! ## A line that is cut -/

/-- A scanner whose ignore file holds a text. -/
def withIgnoreFile (text : Text) : Scanner where
  machine := ⟨⟨.directory [("ignore".ascii, .file ⟨text, 0, false⟩)], []⟩, []⟩
  config := { ignoreFile := "ignore".ascii }
  formats := Formats.none
  passes := []
  setup := []
  now := 0

theorem readAll?_withIgnoreFile (text : Text) :
    (withIgnoreFile text).machine.files.readAll? (withIgnoreFile text).config.ignoreFile =
      some text := by
  cbv

/-- Empty lines up to the limit, the last byte of which is a star. -/
def cutStar (count : Nat) (tail : Text) : Text := List.replicate count lineFeed ++ '*'.ascii :: tail

theorem splitOn_cutStar (count : Nat) {rest : Text} {below : List Text} {tail : Text}
    (h : Text.splitOn lineFeed tail = rest :: below) :
    Text.splitOn lineFeed (cutStar count tail) =
      List.replicate count [] ++ ('*'.ascii :: rest) :: below := by
  induction count with
  | zero =>
    rw [cutStar, List.replicate_zero, List.nil_append, Text.splitOn_cons, h]
    rfl
  | succ count ih =>
    have hcons : cutStar (count + 1) tail = [] ++ lineFeed :: cutStar count tail := rfl
    rw [hcons, Text.splitOn_append, ih]
    rfl

theorem cutAt_cutStar (count : Nat) {rest : Text} {below : List Text} {tail : Text}
    (h : Text.splitOn lineFeed tail = rest :: below) :
    Text.CutAt (count + 1) (cutStar count tail) (List.replicate count []) "*".ascii rest below := by
  have hsplit : cutStar count tail = cutStar count [] ++ tail := by
    rw [cutStar, cutStar, List.append_assoc]
    rfl
  have hlength : (cutStar count []).length = count + 1 := by
    rw [cutStar, List.length_append, List.length_replicate]
    rfl
  refine ⟨splitOn_cutStar count h, ?_, ?_⟩
  · rw [hsplit, List.take_left' hlength]
    exact splitOn_cutStar count rfl
  · rw [hsplit, List.drop_left' hlength, h]

/-- The file goes on after the star, and a later line holds a star alone: its rule is in effect
already. -/
theorem ignoreRules_parse_iff_laterStar :
    let text := cutStar 1048575 "x\n*".ascii
    let s := withIgnoreFile text
    s.machine.files.readAll? s.config.ignoreFile = some text ∧
      ∃ kept : List Text, kept.Sublist (Text.splitOn lineFeed text) ∧
        s.ignoreRules = IgnoreRules.parse (Text.joinWith [lineFeed] kept) := by
  intro text s
  have hread : s.machine.files.readAll? s.config.ignoreFile = some text :=
    readAll?_withIgnoreFile text
  have hcut : Text.CutAt IgnoreRules.maxFileSize text (List.replicate 1048575 []) "*".ascii
      "x".ascii ["*".ascii] := cutAt_cutStar 1048575 (by decide)
  obtain ⟨above, begun, rest, below, hcut', -, hkept, -⟩ := ignoreRules_parse_iff hread
  obtain ⟨rfl, rfl, rfl, rfl⟩ := hcut'.unique hcut
  exact ⟨hread, hkept.mpr fun r hr => ⟨"*".ascii, by simp, hr⟩⟩

/-- A file of empty lines whose last line excludes the names that end in `x`, and is cut behind its
first byte: every name is excluded, and no choice of whole lines does that. -/
theorem cutStar_excludes :
    let text := cutStar 1048575 "x".ascii
    let s := withIgnoreFile text
    s.machine.files.readAll? s.config.ignoreFile = some text ∧
      s.ignoreRules.decide? "a".ascii false = some true ∧
      (¬∀ r ∈ s.ignoreRules, ∃ line ∈ Text.splitOn lineFeed text, r.SpelledBy line) ∧
      ∀ kept : List Text, kept.Sublist (Text.splitOn lineFeed text) →
        (IgnoreRules.parse (Text.joinWith [lineFeed] kept)).decide? "a".ascii false = none := by
  intro text s
  have hread : s.machine.files.readAll? s.config.ignoreFile = some text :=
    readAll?_withIgnoreFile text
  have hcut : Text.CutAt IgnoreRules.maxFileSize text (List.replicate 1048575 []) "*".ascii
      "x".ascii [] := cutAt_cutStar 1048575 (by decide)
  have hlines : Text.splitOn lineFeed text = List.replicate 1048575 [] ++ ["*x".ascii] := hcut.lines
  have hrules : s.ignoreRules = (List.replicate 1048575 ([] : Text)).filterMap IgnoreRule.ofLine? ++
      [⟨"*".ascii, false, false, false⟩] := by
    rw [ignoreRules_eq hread, IgnoreRules.parse_take hcut]
    rfl
  -- The only rule of a whole line does not cover the name.
  have hspelled : ∀ line ∈ Text.splitOn lineFeed text, ∀ r ∈ IgnoreRule.ofLine? line,
      r = ⟨"*x".ascii, false, false, false⟩ := by
    intro line hline
    rw [hlines, List.mem_append, List.mem_singleton] at hline
    rcases hline with hline | rfl
    · rw [List.eq_of_mem_replicate hline]
      decide
    · decide
  refine ⟨hread, ?_, fun hall => ?_, fun kept hkept => ?_⟩
  · rw [IgnoreRules.decide?_eq_some_iff]
    exact ⟨_, _, [], hrules, by decide, rfl, nofun⟩
  · obtain ⟨line, hline, hstar⟩ := hall ⟨"*".ascii, false, false, false⟩
      (hrules ▸ List.mem_append_right _ List.mem_cons_self)
    exact absurd (hspelled line hline _ (IgnoreRule.ofLine?_eq_some_iff.mpr hstar)) (by decide)
  · rw [IgnoreRules.parse_joinWith hkept, IgnoreRules.decide?_eq_find?, Option.map_eq_none_iff,
      List.find?_eq_none]
    intro r hr
    obtain ⟨line, hline, hr⟩ := List.mem_filterMap.mp (List.mem_reverse.mp hr)
    rw [hspelled line (hkept.subset hline) r hr]
    decide

end Scanner

end Triage
