import Mathlib.Data.List.Nodup
import Mathlib.Data.List.Perm.Subperm
import Triage.Proofs.Quarantine.Steps
import Triage.Proofs.Slug
import Triage.Proofs.TimeForms

/-!
The ids that a new item can get.

The ids that are tried for a new item are valid, short and different from each other
(`isBase_baseId`, `candidate_inj`). The free ones among them, in the order in which they are tried,
are `Stock.freeIds`; new entries below the quarantine take their ids from it (`freeIds_add`).
-/

namespace Triage

/-! ## Stamps -/

theorem Time.isIdByte_of_mem_idStamp {t : Int} {b : UInt8} (h : b ∈ idStamp t) :
    ItemId.isIdByte b := by
  rw [idStamp_eq] at h
  rcases mem_written h with hdigit | ⟨entry, hentry, hmark⟩
  · exact ItemId.isIdByte_of_isDigit hdigit
  · have hmarks : ∀ entry ∈ idStampForm, entry.2.all ItemId.isIdByte := by decide
    exact List.all_eq_true.mp (hmarks entry hentry) b hmark

namespace Quarantine

/-! ## Candidates -/

/-- A text that is a valid id with every number put after it. -/
structure IsBase (base : Text) : Prop where
  isValid : ItemId.isValid base
  length_le : base.length + 5 ≤ ItemId.maxItemId

variable {base : Text} {n m : Nat}

theorem isBase_baseId {now : Int} {descriptor : Text}
    (hlength : (baseId now descriptor).length + 5 ≤ ItemId.maxItemId) :
    IsBase (baseId now descriptor) := by
  refine ⟨?_, hlength⟩
  have hbytes : ∀ b ∈ baseId now descriptor, ItemId.isIdByte b := by
    intro b hb
    simp only [baseId, List.mem_append] at hb
    rcases hb with (hb | hb) | hb
    · exact Time.isIdByte_of_mem_idStamp hb
    · rw [List.mem_singleton.mp hb]
      decide
    · exact (ItemId.isSlug_slugify descriptor).bytes b hb
  rw [ItemId.maxItemId] at hlength
  exact ItemId.isValid_iff.mpr ⟨by simp [baseId, String.ascii], by omega, hbytes⟩

theorem length_baseId_le {now : Int} (h : now.natAbs ≤ Time.lastSecond) (descriptor : Text) :
    (baseId now descriptor).length ≤ 80 := by
  have hslug := (ItemId.isSlug_slugify descriptor).length_le
  have hunderscore : "_".ascii.length = 1 := rfl
  rw [ItemId.maxSlug] at hslug
  simp only [baseId, List.length_append, Time.length_idStamp h, hunderscore]
  omega

theorem length_ofNat_le_four (h : n ≤ maxCandidates) : (Text.ofNat n).length ≤ 4 := by
  rw [Text.ofNat, List.length_map]
  exact (Nat.length_toDigits_le_iff (by decide) (by decide)).mpr (Nat.lt_of_le_of_lt h (by decide))

theorem length_candidate_le_add (base : Text) (h : n ≤ maxCandidates) :
    (candidate base n).length ≤ base.length + 5 := by
  have hnumber := length_ofNat_le_four h
  have hunderscore : "_".ascii.length = 1 := rfl
  unfold candidate
  split
  · omega
  · simp only [List.length_append, hunderscore]
    omega

theorem length_candidate_le (hbase : IsBase base) (h : n ≤ maxCandidates) :
    (candidate base n).length ≤ ItemId.maxItemId :=
  (length_candidate_le_add base h).trans hbase.length_le

theorem isValid_candidate (hbase : IsBase base) (h : n ≤ maxCandidates) :
    ItemId.isValid (candidate base n) := by
  have hlength := Nat.le_trans (length_candidate_le hbase h) (by decide : ItemId.maxItemId ≤ 255)
  obtain ⟨hne, -, hbytes⟩ := ItemId.isValid_iff.mp hbase.isValid
  refine ItemId.isValid_iff.mpr ⟨?_, hlength, fun b hb => ?_⟩
  · unfold candidate
    split
    · exact hne
    · simp [hne]
  · unfold candidate at hb
    split at hb
    · exact hbytes b hb
    · rcases List.mem_append.mp hb with hb | hb
      · rcases List.mem_append.mp hb with hb | hb
        · exact hbytes b hb
        · rw [List.mem_singleton.mp hb]
          decide
      · exact ItemId.isIdByte_of_isDigit (Text.isDigit_of_mem_ofNat hb)

theorem candidate_inj (hn : 1 ≤ n) (hm : 1 ≤ m) (h : candidate base n = candidate base m) :
    n = m := by
  have hlonger : ∀ k, base ++ "_".ascii ++ Text.ofNat k ≠ base := by
    intro k hk
    have hlength := congrArg List.length hk
    have hunderscore : "_".ascii.length = 1 := rfl
    simp only [List.length_append, hunderscore] at hlength
    omega
  unfold candidate at h
  split at h
  · split at h
    · omega
    · exact absurd h.symm (hlonger m)
  · split at h
    · exact absurd h (hlonger n)
    · exact Text.ofNat_inj (List.append_cancel_left h)

/-! ## Free ids -/

/-- The id is one of those that are tried. -/
def IsCandidate (base id : Text) : Prop := ∃ n, 1 ≤ n ∧ n ≤ maxCandidates ∧ candidate base n = id

/-- There is no entry of this name below either root. -/
def Stock.isFree (s : Stock) (id : Text) : Bool :=
  (s.quarantined.lookup id).isNone && (s.approved.lookup id).isNone

/-- The ids that a new item can get, in the order in which they are tried. -/
def Stock.freeIds (s : Stock) (base : Text) : List Text :=
  ((List.range' 1 maxCandidates).map (candidate base)).filter s.isFree

/-- The stock with new entries below the quarantine. -/
def Stock.add (s : Stock) (rows : List (Text × Node)) : Stock :=
  { s with quarantined := s.quarantined ++ rows }

theorem Stock.add_nil (s : Stock) : s.add [] = s := by
  rw [add, List.append_nil]

theorem Stock.add_add (s : Stock) (rows more : List (Text × Node)) :
    (s.add rows).add more = s.add (rows ++ more) := by
  simp only [add, List.append_assoc]

variable {s : Stock} {id : Text} {rows : List (Text × Node)}

theorem IsCandidate.isValid (h : IsCandidate base id) (hbase : IsBase base) :
    ItemId.isValid id := by
  obtain ⟨n, -, hmax, rfl⟩ := h
  exact isValid_candidate hbase hmax

theorem IsCandidate.isName (h : IsCandidate base id) (hbase : IsBase base) : Path.IsName id :=
  ItemId.isName_of_isValid (h.isValid hbase)

theorem IsCandidate.length_le (h : IsCandidate base id) (hbase : IsBase base) :
    id.length ≤ ItemId.maxItemId := by
  obtain ⟨n, -, hmax, rfl⟩ := h
  exact length_candidate_le hbase hmax

theorem Stock.isFree_iff :
    s.isFree id ↔ s.quarantined.lookup id = none ∧ s.approved.lookup id = none := by
  simp [isFree]

theorem Stock.mem_freeIds : id ∈ s.freeIds base ↔ IsCandidate base id ∧ s.isFree id := by
  rw [freeIds, List.mem_filter, List.mem_map]
  constructor
  · rintro ⟨⟨n, hn, rfl⟩, hfree⟩
    rw [List.mem_range'_1] at hn
    exact ⟨⟨n, hn.1, by omega, rfl⟩, hfree⟩
  · rintro ⟨⟨n, hn, hmax, rfl⟩, hfree⟩
    exact ⟨⟨n, List.mem_range'_1.mpr ⟨hn, by omega⟩, rfl⟩, hfree⟩

/-- If there are no items, all candidates are free. -/
theorem Stock.freeIds_empty (base : Text) :
    Stock.freeIds ⟨[], []⟩ base = (List.range' 1 maxCandidates).map (candidate base) :=
  List.filter_eq_self.mpr fun _ _ => rfl

/-- The free ids come in the order of their numbers. -/
theorem Stock.freeIds_pairwise (s : Stock) (base : Text) : (s.freeIds base).Pairwise fun x y =>
    ∃ n m, 1 ≤ n ∧ n < m ∧ candidate base n = x ∧ candidate base m = y := by
  refine List.Pairwise.filter _ (List.pairwise_map.mpr ?_)
  refine (List.pairwise_lt_range' 1).imp_of_mem fun hn _ hlt => ?_
  exact ⟨_, _, (List.mem_range'_1.mp hn).1, hlt, rfl, rfl⟩

theorem Stock.nodup_freeIds (s : Stock) (base : Text) : (s.freeIds base).Nodup := by
  refine (s.freeIds_pairwise base).imp ?_
  rintro x y ⟨n, m, hn, hlt, rfl, rfl⟩ h
  exact Nat.ne_of_lt hlt (candidate_inj hn (by omega) h)

/-- Every free id that comes before another one has a smaller number. -/
theorem Stock.freeIds_before {before after : List Text} (hn : 1 ≤ n)
    (h : s.freeIds base = before ++ candidate base n :: after) :
    ∀ x ∈ before, ∃ m, 1 ≤ m ∧ m < n ∧ candidate base m = x := by
  intro x hx
  have hpairwise := s.freeIds_pairwise base
  rw [h, List.pairwise_append] at hpairwise
  obtain ⟨m, n', hm, hlt, rfl, hn'⟩ := hpairwise.2.2 x hx _ List.mem_cons_self
  obtain rfl := candidate_inj (by omega) hn hn'
  exact ⟨m, hm, hlt, rfl⟩

theorem Stock.lookup_add (s : Stock) (rows : List (Text × Node)) (id : Text) :
    (s.add rows).quarantined.lookup id = (s.quarantined.lookup id).or (rows.lookup id) :=
  List.lookup_append

/-- New entries take their ids from the free ones. -/
theorem Stock.freeIds_add (s : Stock) (rows : List (Text × Node)) (base : Text) :
    (s.add rows).freeIds base = (s.freeIds base).filter fun id => id ∉ rows.map Prod.fst := by
  rw [freeIds, freeIds, List.filter_filter]
  refine List.filter_congr fun id _ => ?_
  rw [isFree, isFree, lookup_add]
  cases hrows : rows.lookup id with
  | none =>
    have hnew := Node.lookup_eq_none_iff.mp hrows
    simp [add, hnew]
  | some n =>
    have hold : id ∈ rows.map Prod.fst := List.mem_map_of_mem (Node.mem_of_lookup hrows)
    cases s.quarantined.lookup id <;> simp [hold]

/-- If new entries have the first free ids, the others are free still. -/
theorem Stock.freeIds_add_prefix {rest : List Text}
    (h : s.freeIds base = rows.map Prod.fst ++ rest) : (s.add rows).freeIds base = rest := by
  have hnodup := s.nodup_freeIds base
  rw [h, List.nodup_append] at hnodup
  rw [freeIds_add, h, List.filter_append, List.filter_eq_nil_iff.mpr (by simp), List.nil_append,
    List.filter_eq_self]
  intro id hid
  simpa using fun n hn => hnodup.2.2 id (List.mem_map_of_mem hn) id hid rfl

end Quarantine

end Triage
