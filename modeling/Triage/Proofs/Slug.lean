import Triage.ItemId
import Triage.Proofs.Text

/-!
Slugs and the ids they are part of.

An id is a short text of letters, digits and underscores (`isValid_iff`). A slug is made of letters, digits and single underscores between them, and is neither empty nor
long. Making the slug of a text gives one (`isSlug_slugify`), and leaves a text as it is if and only
if the text is a slug (`slugify_eq_self_iff`).
-/

namespace Triage

namespace ItemId

theorem isIdByte_of_isDigit {b : UInt8} (h : Byte.isDigit b) : isIdByte b := by
  simp [isIdByte, Byte.isLetterOrDigit, h]

theorem isValid_iff {id : Text} :
    isValid id ↔ id ≠ [] ∧ id.length ≤ 255 ∧ ∀ b ∈ id, isIdByte b := by
  simp [isValid, and_assoc]

/-- Letters, digits and single underscores, none of which comes first. -/
structure Spaced (s : Text) : Prop where
  bytes : ∀ b ∈ s, isIdByte b
  single : ¬ ['_'.ascii, '_'.ascii] <:+: s
  head_ne : s.head? ≠ some '_'.ascii

structure IsSlug (s : Text) : Prop extends Spaced s where
  nonempty : s ≠ []
  length_le : s.length ≤ maxSlug
  getLast_ne : s.getLast? ≠ some '_'.ascii

variable {s word descriptor : Text}

theorem nil_not_mem_words (s : Text) : [] ∉ words s := by
  simp [words]

theorem isLetterOrDigit_of_mem_words {b : UInt8} (hword : word ∈ words s) (hb : b ∈ word) :
    Byte.isLetterOrDigit b := by
  obtain ⟨hmem, hne⟩ := Text.mem_of_mem_splitOn (List.mem_filter.mp hword).1 hb
  obtain ⟨c, -, rfl⟩ := List.mem_map.mp hmem
  split at hne
  · next hc => rwa [if_pos hc]
  · exact absurd rfl hne

theorem Spaced.of_prefix {t : Text} (h : Spaced t) (hs : s <+: t) : Spaced s where
  bytes b hb := h.bytes b (hs.subset hb)
  single hdouble := h.single (hdouble.trans hs.isInfix)
  head_ne hhead := by
    obtain ⟨rest, rfl⟩ := hs
    exact h.head_ne (by rw [List.head?_append, hhead, Option.some_or])

/-- The words of a descriptor, with underscores between them. -/
theorem spaced_joinWith_words (descriptor : Text) :
    Spaced (Text.joinWith "_".ascii (words descriptor)) := by
  by_cases hwords : words descriptor = []
  · rw [hwords]
    exact ⟨nofun, by simp [Text.joinWith], nofun⟩
  have hsplit : Text.splitOn '_'.ascii (Text.joinWith "_".ascii (words descriptor)) =
      words descriptor :=
    Text.splitOn_joinWith hwords fun word hword hb =>
      absurd (isLetterOrDigit_of_mem_words hword hb) (by decide)
  have hnil := nil_not_mem_words descriptor
  rw [← hsplit, Text.nil_mem_splitOn_iff, not_or, not_or, not_or] at hnil
  refine ⟨fun b hb => ?_, hnil.2.2.2, hnil.2.1⟩
  rcases Text.mem_joinWith hb with hb | ⟨word, hword, hb⟩
  · rw [List.mem_singleton.mp hb]
    decide
  · simp [isIdByte, isLetterOrDigit_of_mem_words hword hb]

theorem isSlug_slugify (descriptor : Text) : IsSlug (slugify descriptor) := by
  have hjoined := spaced_joinWith_words descriptor
  rw [slugify]
  generalize Text.joinWith "_".ascii (words descriptor) = joined at hjoined ⊢
  have hcut := hjoined.of_prefix (List.take_prefix maxSlug joined)
  have hdropped := Text.dropLastIf_prefix '_'.ascii (joined.take maxSlug)
  have hslug := hcut.of_prefix hdropped
  split
  · have hbytes : "item".ascii.all isIdByte := by decide
    exact ⟨⟨List.all_eq_true.mp hbytes, by decide, by decide⟩, by decide, by decide, by decide⟩
  · next hne =>
    exact ⟨hslug, by simpa using hne, hdropped.length_le.trans (List.length_take_le ..),
      Text.getLast?_dropLastIf_ne hcut.single⟩

/-- The words of a slug are what stands between its underscores. -/
theorem IsSlug.words_eq (h : IsSlug s) : words s = Text.splitOn '_'.ascii s := by
  have hmap : s.map (fun b => if Byte.isLetterOrDigit b then b else '_'.ascii) = s := by
    refine (List.map_congr_left fun b hb => ?_).trans (List.map_id s)
    have hbyte := h.bytes b hb
    rw [isIdByte, Bool.or_eq_true, beq_iff_eq] at hbyte
    split
    · rfl
    · next hletter => exact (hbyte.resolve_left hletter).symm
  have hnil : [] ∉ Text.splitOn '_'.ascii s := by
    rw [Text.nil_mem_splitOn_iff, not_or, not_or, not_or]
    exact ⟨h.nonempty, h.head_ne, h.getLast_ne, h.single⟩
  rw [words, hmap, List.filter_eq_self]
  intro piece hpiece
  simpa using fun heq : piece = [] => hnil (heq ▸ hpiece)

theorem IsSlug.slugify_eq (h : IsSlug s) : slugify s = s := by
  have hjoined : Text.joinWith "_".ascii (words s) = s := by
    rw [h.words_eq]
    exact Text.joinWith_splitOn ..
  have hlast : ¬ (s.getLast? == some '_'.ascii) = true := by simpa using h.getLast_ne
  have hne : ¬ s.isEmpty = true := by simpa using h.nonempty
  simp only [slugify, hjoined, List.take_of_length_le h.length_le, Text.dropLastIf, if_neg hlast,
    if_neg hne]

theorem slugify_eq_self_iff : slugify s = s ↔ IsSlug s :=
  ⟨fun h => h ▸ isSlug_slugify s, IsSlug.slugify_eq⟩

end ItemId

end Triage
