import Triage.Proofs.LineFindings
import Triage.Proofs.Utf8

/-!
What a finding quotes of its line.

The quotation is an `Excerpt`: a stretch of the trimmed line, with a mark if the line goes on after
it. A long line is cut twice. The stretch starts at most 43 bytes before the match
(`exists_quotedFrom`), and has at least 197 bytes if its end is cut off (`exists_quotation`); so the
match is always shown (`findIn_excerpt`).
-/

namespace Triage

namespace Text

variable {s : Text}

/-- What is no blank stands in what trimming leaves. -/
theorem getElem?_of_not_isBlank {i : Nat} {b : UInt8} (hb : s[i]? = some b)
    (hblank : ¬ Byte.isBlank b) :
    (s.takeWhile Byte.isBlank).length ≤ i ∧
      i < (s.takeWhile Byte.isBlank).length + (trim s).length := by
  obtain ⟨right, hs, hright⟩ := exists_trim s
  generalize hleft : s.takeWhile Byte.isBlank = left at hs
  rw [hs] at hb
  refine ⟨Nat.le_of_not_lt fun hi => ?_, Nat.lt_of_not_le fun hi => ?_⟩
  · rw [List.getElem?_append_left hi] at hb
    exact hblank (List.mem_takeWhile_imp (hleft ▸ List.mem_of_getElem? hb))
  · rw [List.getElem?_append_right (by omega), List.getElem?_append_right (by omega)] at hb
    exact hblank (hright b (List.mem_of_getElem? hb))

theorem length_trim_le (s : Text) : (trim s).length ≤ s.length := by
  obtain ⟨right, hs, -⟩ := exists_trim s
  have hlength := congrArg List.length hs
  simp only [List.length_append] at hlength
  omega

end Text

namespace LineRule

/-! ## Stretches of a line -/

/-- A stretch of a line without the blanks at its ends. -/
structure Excerpt (line : Text) where
  start : Text
  piece : Text
  rest : Text
  trim_eq : Text.trim line = start ++ (piece ++ rest)

namespace Excerpt

variable {line : Text}

/-- Where the stretch starts in the line. -/
def offset (e : Excerpt line) : Nat := (line.takeWhile Byte.isBlank).length + e.start.length

/-- The byte at an offset of the line stands in the stretch. -/
def Holds (e : Excerpt line) (i : Nat) : Prop := e.offset ≤ i ∧ i < e.offset + e.piece.length

/-- The stretch, with a mark if the line goes on after it. -/
def text (e : Excerpt line) : Text :=
  e.piece ++ if e.rest.isEmpty then [] else " ...".ascii

/-- The first bytes of a stretch. -/
def take (e : Excerpt line) (n : Nat) : Excerpt line where
  start := e.start
  piece := e.piece.take n
  rest := e.piece.drop n ++ e.rest
  trim_eq := by rw [← List.append_assoc (e.piece.take n), List.take_append_drop, e.trim_eq]

theorem Holds.take {e : Excerpt line} {i n : Nat} (h : e.Holds i)
    (hn : n < e.piece.length → i < e.offset + n) : (e.take n).Holds i := by
  obtain ⟨hstart, hend⟩ := h
  have hoffset : (e.take n).offset = e.offset := rfl
  have hlength : (e.take n).piece.length = min n e.piece.length := List.length_take
  rw [Holds, hoffset, hlength]
  omega

/-- Where the end of a line is trimmed, what is left starts in the line where it does in the end. -/
theorem length_takeWhile_append {tail : Text} (htrim : Text.trim tail ≠ []) (front : Text) :
    ((front ++ tail).takeWhile Byte.isBlank).length +
        (Text.trimLeft (front ++ tail.takeWhile Byte.isBlank)).length =
      front.length + (tail.takeWhile Byte.isBlank).length := by
  obtain ⟨right, htail, -⟩ := Text.exists_trim tail
  generalize tail.takeWhile Byte.isBlank = left at htail ⊢
  obtain ⟨b, rest, hcons, hb⟩ := (Text.trim_eq_nil_or_cons tail).resolve_left htrim
  have hblanks : (front ++ tail).takeWhile Byte.isBlank =
      (front ++ left).takeWhile Byte.isBlank := by
    rw [htail, hcons, List.cons_append, ← List.append_assoc, Text.takeWhile_append_cons hb]
  rw [hblanks, ← List.length_append, Text.trimLeft, List.takeWhile_append_dropWhile,
    List.length_append]

/-- What trimming leaves of the end of a line is a stretch of it, with all in the end that is no
blank. -/
theorem exists_of_append (front tail : Text) : ∃ e : Excerpt (front ++ tail),
    e.piece = Text.trim tail ∧ e.rest = [] ∧
      ∀ {i b}, front.length ≤ i → (front ++ tail)[i]? = some b → ¬ Byte.isBlank b →
        front.length ≤ e.offset ∧ e.Holds i := by
  have hholds {i : Nat} {b : UInt8} (hi : front.length ≤ i) (hb : (front ++ tail)[i]? = some b)
      (hblank : ¬ Byte.isBlank b) : front.length + (tail.takeWhile Byte.isBlank).length ≤ i ∧
        i < front.length + (tail.takeWhile Byte.isBlank).length + (Text.trim tail).length := by
    rw [List.getElem?_append_right hi] at hb
    have := Text.getElem?_of_not_isBlank hb hblank
    omega
  -- If only blanks are left, an empty piece will do: there is no byte to hold.
  by_cases htrim : Text.trim tail = []
  · refine ⟨⟨Text.trim (front ++ tail), [], [], by simp⟩, htrim.symm, rfl, fun hi hb hblank => ?_⟩
    have hnone := hholds hi hb hblank
    rw [htrim, List.length_nil] at hnone
    omega
  · obtain ⟨right, htail, hright⟩ := Text.exists_trim tail
    have hright : Text.trimRight right = [] := by
      rw [Text.trimRight, List.dropWhile_eq_nil_iff.mpr fun b hb =>
        hright b (List.mem_reverse.mp hb)]
      rfl
    have hline : Text.trim (front ++ tail) =
        Text.trimLeft (front ++ tail.takeWhile Byte.isBlank) ++ (Text.trim tail ++ []) := by
      conv => lhs; rw [htail, ← List.append_assoc]
      rw [Text.trim_append_trim htrim, hright]
    have hoffset : (Excerpt.mk _ _ [] hline).offset =
        front.length + (tail.takeWhile Byte.isBlank).length :=
      length_takeWhile_append htrim front
    refine ⟨⟨_, _, [], hline⟩, rfl, rfl, fun hi hb hblank => ?_⟩
    rw [Holds, hoffset]
    exact ⟨Nat.le_add_right _ _, hholds hi hb hblank⟩

end Excerpt

/-! ## The two cuts -/

/-- A line is quoted from somewhere before the match, at most 43 bytes before if it is long. -/
theorem exists_quotedFrom {line : Text} (hline : Text.IsUtf8 line) (hit : Nat) :
    ∃ front, line = front ++ quotedFrom line hit ∧ Text.IsUtf8 (quotedFrom line hit) ∧
      front.length ≤ hit ∧
      (hit < line.length → maxSnippet < line.length → hit ≤ front.length + 43) := by
  rw [quotedFrom]
  split
  · next hlong =>
    simp only [snippetLead, Bool.and_eq_true, decide_eq_true_eq] at hlong ⊢
    obtain ⟨hle, hback, -, hdrop⟩ := hline.charFloor (hit - 40)
    refine ⟨line.take _, (List.take_append_drop _ _).symm, hdrop, ?_⟩
    rw [List.length_take]
    omega
  · next hshort =>
    refine ⟨[], rfl, hline, Nat.zero_le _, fun _ hlong => ?_⟩
    have hlead : hit ≤ snippetLead := Nat.le_of_not_lt fun hlead => hshort (by simp [hlong, hlead])
    exact Nat.le_trans hlead (by simp [snippetLead])

/-- The first bytes of the trimmed line are quoted: all, or at least 197 and at most 200. -/
theorem exists_quotation {line : Text} (hline : Text.IsUtf8 line) :
    ∃ n, quotation line = (Text.trim line).take n ++
        (if ((Text.trim line).drop n).isEmpty then [] else " ...".ascii) ∧
      n ≤ maxSnippet ∧ Text.IsUtf8 ((Text.trim line).take n) ∧
      (n < (Text.trim line).length → maxSnippet < (Text.trim line).length ∧ 197 ≤ n) := by
  obtain ⟨hle, hback, htake, -⟩ := hline.trim.charFloor maxSnippet
  refine ⟨_, ?_, hle, htake, fun hcut => ?_⟩
  · rw [quotation]
    split
    · next hlong =>
      have hcut : ¬ (Text.trim line).length ≤ Text.charFloor (Text.trim line) maxSnippet := by omega
      simp [hcut]
    · next hshort =>
      rw [Text.charFloor, if_pos (Nat.le_of_not_lt hshort)]
      simp
  · have hlong : maxSnippet < (Text.trim line).length := by
      by_contra hshort
      rw [Text.charFloor, if_pos (Nat.le_of_not_lt hshort)] at hcut
      exact Nat.lt_irrefl _ hcut
    have hmax : maxSnippet = 200 := rfl
    have := hback hlong
    exact ⟨hlong, by omega⟩

/-- A quotation shows the byte at the offset it was made for. -/
theorem quotation_quotedFrom {l : Text} (hl : Text.IsUtf8 l) (hit : Nat) :
    ∃ e : Excerpt l, quotation (quotedFrom l hit) = e.text ∧ Text.IsUtf8 e.text ∧
      e.text.length ≤ 204 ∧ ∀ b, l[hit]? = some b → ¬ Byte.isBlank b → e.Holds hit := by
  obtain ⟨front, hfront, hquoted, hlead, hnear⟩ := exists_quotedFrom hl hit
  obtain ⟨n, htext, hn, hutf8, hcut⟩ := exists_quotation hquoted
  generalize quotedFrom l hit = tail at hfront hquoted hnear htext hutf8 hcut ⊢
  subst hfront
  obtain ⟨e, hpiece, hrest, hholds⟩ := Excerpt.exists_of_append front tail
  have hmax : maxSnippet = 200 := rfl
  have htake : (e.take n).text = (Text.trim tail).take n ++
      (if ((Text.trim tail).drop n).isEmpty then [] else " ...".ascii) := by
    simp only [Excerpt.text, Excerpt.take, hpiece, hrest, List.append_nil]
  refine ⟨e.take n, by rw [htext, htake], ?_, ?_, fun b hb hblank => ?_⟩
  · rw [htake]
    refine hutf8.append ?_
    split
    · exact .nil
    · exact Text.isUtf8_of_ascii (by decide)
  · have hmark : (" ...".ascii).length = 4 := rfl
    rw [htake, List.length_append, List.length_take]
    split
    · simp only [List.length_nil]
      omega
    · omega
  · obtain ⟨hoffset, hshown⟩ := hholds hlead hb hblank
    refine hshown.take fun hshort => ?_
    -- The end is cut off, so the line is long: the match is near the start of what is quoted.
    obtain ⟨hlong, hrest⟩ := hcut (hpiece ▸ hshort)
    have htail := Text.length_trim_le tail
    have hline : (front ++ tail).length = front.length + tail.length := List.length_append
    have := hnear (List.getElem?_eq_some_iff.mp hb).1 (by omega)
    omega

/-! ## Findings -/

/-- What stands before the quotation in the findings of a rule. -/
def heading (r : LineRule) : Text := if r.label.isEmpty then [] else r.label ++ ": ".ascii

theorem snippet_label (r : LineRule) (line : Text) :
    snippet r.label line = r.heading ++ quotation line := by
  rw [snippet, heading]
  split <;> rfl

theorem isUtf8_heading {r : LineRule} (h : Text.IsUtf8 r.description) : Text.IsUtf8 r.heading := by
  have hlabel : Text.IsUtf8 r.label := by
    rw [label]
    split
    · exact (Text.isUtf8_of_ascii (by decide)).append h
    · exact h
  rw [heading]
  split
  · exact .nil
  · exact hlabel.append (Text.isUtf8_of_ascii (by decide))

/-- A finding shows what it is about: after the description of the rule it quotes at most 204 bytes,
a stretch of the line that has the byte at the offset of the match, unless that is a blank. If the
line and the description are well-formed, so is what the finding says. -/
theorem findIn_excerpt {r : LineRule} {l : Text} {hit : Nat} (hl : Text.IsUtf8 l)
    (hdescription : Text.IsUtf8 r.description) (hhit : searchLine r.regex l = some hit)
    (path : Text) (number : Nat) :
    ∃ f, r.findIn path number l = some f ∧ Text.IsUtf8 f.snippet ∧ ∃ e : Excerpt l,
      f.snippet = r.heading ++ e.text ∧ e.text.length ≤ 204 ∧
      ∀ b, l[hit]? = some b → ¬ Byte.isBlank b → e.Holds hit := by
  obtain ⟨e, hquotation, hutf8, hlength, hholds⟩ := quotation_quotedFrom hl hit
  have hsnippet : snippet r.label (quotedFrom l hit) = r.heading ++ e.text := by
    rw [snippet_label, hquotation]
  refine ⟨_, by rw [findIn, hhit]; rfl, ?_, e, hsnippet, hlength, hholds⟩
  show Text.IsUtf8 (snippet r.label (quotedFrom l hit))
  rw [hsnippet]
  exact (isUtf8_heading hdescription).append hutf8

/-- A letter among characters of three bytes, so far from both ends that the line is cut twice. -/
def farLetter : Text :=
  (List.replicate 50 '\u20ac' ++ 'a' :: List.replicate 60 '\u20ac').flatMap String.utf8EncodeChar

theorem findIn_excerpt_farLetter :
    Text.IsUtf8 farLetter ∧ Text.IsUtf8 letterRule.description ∧
      searchLine letterRule.regex farLetter = some 150 ∧
      ∃ f, letterRule.findIn "f".ascii 1 farLetter = some f ∧ Text.IsUtf8 f.snippet ∧
        ∃ e : Excerpt farLetter, f.snippet = "letter: ".ascii ++ e.text ∧ e.text.length ≤ 204 ∧
          e.Holds 150 := by
  have hline : Text.IsUtf8 farLetter := ⟨_, rfl⟩
  have hdescription : Text.IsUtf8 letterRule.description := Text.isUtf8_of_ascii (by decide)
  have hhit : searchLine letterRule.regex farLetter = some 150 := by
    rw [searchLine, searchFrom]
    rfl
  obtain ⟨f, hf, hutf8, e, hsnippet, hlength, hholds⟩ :=
    findIn_excerpt hline hdescription hhit "f".ascii 1
  exact ⟨hline, hdescription, hhit, f, hf, hutf8, e, hsnippet, hlength,
    hholds 97 (by decide) (by decide)⟩

end LineRule

end Triage
