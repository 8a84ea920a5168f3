import Triage.Proofs.Quarantine.Candidates

/-!
The ids that are made for items.

The ids of new items start with a time and end with a slug and perhaps a number, those of other
trees are a slug between a word and a digest. All of them are valid and short
(`generated_isValid`).
-/

namespace Triage

namespace ItemId

variable {s : Text}

theorem isIdByte_hexDigit {n : UInt8} (h : n.toNat < 16) : isIdByte (Byte.hexDigit n) := by
  have hall : ∀ k < 16, isIdByte (Byte.hexDigit (UInt8.ofNat k)) := by decide
  simpa using hall n.toNat h

theorem isIdByte_of_mem_hex {b : UInt8} (h : b ∈ Text.hex s) : isIdByte b := by
  obtain ⟨c, -, hb⟩ := List.mem_flatMap.mp h
  have hbyte := c.toNat_lt
  rcases List.mem_cons.mp hb with rfl | hb
  · refine isIdByte_hexDigit ?_
    rw [UInt8.toNat_shiftRight]
    change c.toNat >>> 4 < 16
    rw [Nat.shiftRight_eq_div_pow]
    omega
  · rw [List.mem_singleton.mp hb]
    refine isIdByte_hexDigit ?_
    rw [UInt8.toNat_and]
    exact Nat.lt_of_le_of_lt Nat.and_le_right (by decide)

/-- The id of a tree is a slug between a word and the start of a digest. -/
theorem exists_ofPath_eq (fs : FileSystem) (path : Text) : ∃ name full,
    ofPath fs path = "path_".ascii ++ slugify name ++ "_".ascii ++ (Sha256.hex full).take 8 :=
  ⟨_, _, rfl⟩

theorem length_ofPath_le (fs : FileSystem) (path : Text) : (ofPath fs path).length ≤ 78 := by
  obtain ⟨name, full, hpath⟩ := exists_ofPath_eq fs path
  have hslug := (isSlug_slugify name).length_le
  have hdigest := List.length_take_le 8 (Sha256.hex full)
  have hword : "path_".ascii.length = 5 := rfl
  have hunderscore : "_".ascii.length = 1 := rfl
  rw [maxSlug] at hslug
  simp only [hpath, List.length_append, hword, hunderscore]
  omega

theorem isValid_ofPath (fs : FileSystem) (path : Text) : isValid (ofPath fs path) := by
  have hlength := length_ofPath_le fs path
  obtain ⟨name, full, hpath⟩ := exists_ofPath_eq fs path
  refine isValid_iff.mpr ⟨by simp [hpath, String.ascii], by omega, fun b hb => ?_⟩
  have hword : "path_".ascii.all isIdByte := by decide
  rw [hpath] at hb
  rcases List.mem_append.mp hb with hb | hb
  · rcases List.mem_append.mp hb with hb | hb
    · rcases List.mem_append.mp hb with hb | hb
      · exact List.all_eq_true.mp hword b hb
      · exact (isSlug_slugify name).bytes b hb
    · rw [List.mem_singleton.mp hb]
      decide
  · exact isIdByte_of_mem_hex (List.mem_of_mem_take hb)

end ItemId

open ItemId Quarantine

theorem isValid_candidate_baseId {now : Int} (h : now.natAbs ≤ Time.lastSecond) (descriptor : Text)
    {n : Nat} (hn : n ≤ maxCandidates) : isValid (candidate (baseId now descriptor) n) := by
  have hlength := length_baseId_le h descriptor
  exact isValid_candidate (isBase_baseId (by rw [maxItemId]; omega)) hn

/-- Every slug is one indeed, and its own slug. So all ids that are made for items are valid and
short: those of new items, which are tried in turn, and those of trees that are scanned in place. -/
theorem generated_isValid :
    (∀ descriptor,
      IsSlug (slugify descriptor) ∧ slugify (slugify descriptor) = slugify descriptor) ∧
    (∀ now : Int, now.natAbs ≤ Time.lastSecond → ∀ descriptor, ∀ n ≤ maxCandidates,
      isValid (candidate (baseId now descriptor) n) ∧
        (candidate (baseId now descriptor) n).length ≤ 85) ∧
    ∀ fs path, isValid (ofPath fs path) ∧ (ofPath fs path).length ≤ 85 := by
  refine ⟨fun descriptor => ?_, fun now h descriptor n hn => ?_, fun fs path => ?_⟩
  · have hslug := isSlug_slugify descriptor
    exact ⟨hslug, hslug.slugify_eq⟩
  · have hcandidate := length_candidate_le_add (baseId now descriptor) hn
    have hbase := length_baseId_le h descriptor
    exact ⟨isValid_candidate_baseId h descriptor hn, by omega⟩
  · have hlength := length_ofPath_le fs path
    exact ⟨isValid_ofPath fs path, by omega⟩

/-- The last candidate at the last second of the clock, for a descriptor with nothing to keep. -/
theorem generated_isValid_lastSecond :
    (Time.lastSecond : Int).natAbs ≤ Time.lastSecond ∧ 1000 ≤ maxCandidates ∧
      isValid (candidate (baseId Time.lastSecond "///".ascii) 1000) ∧
      candidate (baseId Time.lastSecond "///".ascii) 1000 = "22620411_234716_item_1000".ascii :=
  ⟨by decide, by decide, (generated_isValid.2.1 _ (by decide) _ _ (by decide)).1, by decide +kernel⟩

end Triage
