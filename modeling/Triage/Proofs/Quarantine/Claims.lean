import Triage.Proofs.Quarantine.NewItem

/-!
Creations that claim their ids at once.

A creation goes through the ids in their order and claims the first one whose directory it can make.
As long as nothing else touches the new items, `Claims` says how far each caller has come and what
stands below the quarantine: the claimed items in the order of the claims, each as far as its caller
has filled it. A caller that has passed over a free id has found it claimed by another one, and so
has every caller that has claimed a later one (`Progress.Fair`). Each caller claims at most one id,
so only the first ids are claimed, as many as there are callers (`Claims.mem_take`), and if no copy
breaks off, no caller runs out of ids (`Claims.exists_unclaimed`) and the ids are given out in their
order (`Claims.first`).
-/

namespace Triage

namespace Quarantine

/-! ## Claims -/

/-- How far a caller has come with an item of its own. -/
inductive Progress where
  /-- It has no item and has found all free ids before the `k`th candidate claimed. -/
  | looks (k : Nat)
  /-- It has claimed an id, and the item is filled so far. -/
  | fills (id : Text) (item : Node)
  /-- It has claimed an id and removed the item. -/
  | left (id : Text)

def Progress.claimed? : Progress → Option Text
  | looks _ => none
  | fills id _ | left id => some id

variable {n : Nat}

/-- One of the callers has claimed the id; it need not have the item any more. -/
def Claimed (roles : Fin n → Progress) (id : Text) : Prop :=
  ∃ i, (roles i).claimed? = some id

/-- All free ids before the `k`th candidate are claimed. -/
def AllClaimed (s : Stock) (base : Text) (roles : Fin n → Progress) (k : Nat) : Prop :=
  ∀ m, 1 ≤ m → m < k → candidate base m ∈ s.freeIds base → Claimed roles (candidate base m)

/-- The id is free, and all free ids before it are claimed. -/
def Claimable (s : Stock) (base : Text) (roles : Fin n → Progress) (id : Text) : Prop :=
  ∃ k, 1 ≤ k ∧ candidate base k = id ∧ id ∈ s.freeIds base ∧ AllClaimed s base roles k

/-- The caller has passed over no id that is not claimed, and has an item only if it has something to
copy. Its part is whether the copy comes to its end, if there is one. -/
def Progress.Fair (s : Stock) (base : Text) (roles : Fin n → Progress) (part : Option Bool) :
    Progress → Prop
  | looks k => AllClaimed s base roles k
  | fills id item => part ≠ none ∧ Claimable s base roles id ∧ ∃ es, item = .directory es
  | left id => part = some false ∧ Claimable s base roles id

/-- What callers have claimed below the quarantine, and how far each caller has come. -/
structure Claims (s : Stock) (base : Text) (part : Fin n → Option Bool) (rows : List (Text × Node))
    (roles : Fin n → Progress) : Prop where
  unique : Node.UniqueNames rows
  owned : ∀ id item, rows.lookup id = some item ↔ ∃ i, roles i = .fills id item
  single : ∀ i j id item item', roles i = .fills id item → roles j = .fills id item' → i = j
  fair : ∀ i, (roles i).Fair s base roles (part i)
  first : (∀ i, part i ≠ some false) → rows.map Prod.fst <+: s.freeIds base

/-- How a caller goes on with its item. -/
inductive Progress.Goes (s : Stock) (base : Text) (part : Option Bool) :
    Progress → List (Text × Node) → Progress → List (Text × Node) → Prop where
  | stays (role : Progress) (rows : List (Text × Node)) : Goes s base part role rows role rows
  | skips {k : Nat} {rows : List (Text × Node)}
    (h : candidate base k ∈ s.freeIds base → candidate base k ∈ rows.map Prod.fst) :
    Goes s base part (.looks k) rows (.looks (k + 1)) rows
  | claims {k : Nat} {rows : List (Text × Node)} (hk : 1 ≤ k)
    (hfree : candidate base k ∈ s.freeIds base) (hnew : candidate base k ∉ rows.map Prod.fst)
    (hpart : part ≠ none) :
    Goes s base part (.looks k) rows (.fills (candidate base k) Node.empty)
      (rows ++ [(candidate base k, Node.empty)])
  | fills {id : Text} {item item' : Node} {rows : List (Text × Node)}
    (hitem : ∃ es, item' = .directory es) :
    Goes s base part (.fills id item) rows (.fills id item')
      (Node.setEntry id (some item') rows)
  | leaves {id : Text} {item : Node} {rows : List (Text × Node)} (hpart : part = some false) :
    Goes s base part (.fills id item) rows (.left id) (Node.setEntry id none rows)

variable {s : Stock} {base : Text} {part : Fin n → Option Bool} {rows rows' : List (Text × Node)}
variable {roles : Fin n → Progress} {i : Fin n} {role : Progress} {id : Text} {item : Node}
variable {k : Nat}

/-! ### Callers that go on -/

/-- A caller that goes on keeps its claim. -/
theorem Claimed.update (h : Claimed roles id)
    (hkeeps : (roles i).claimed? = some id → role.claimed? = some id) :
    Claimed (Function.update roles i role) id := by
  obtain ⟨j, hj⟩ := h
  refine ⟨j, ?_⟩
  by_cases hji : j = i
  · subst hji
    rw [Function.update_self]
    exact hkeeps hj
  · rwa [Function.update_of_ne hji]

variable (hkeeps : ∀ id, (roles i).claimed? = some id → role.claimed? = some id)

include hkeeps

theorem AllClaimed.update (h : AllClaimed s base roles k) :
    AllClaimed s base (Function.update roles i role) k :=
  fun m hm hlt hfree => (h m hm hlt hfree).update (hkeeps _)

theorem Claimable.update (h : Claimable s base roles id) :
    Claimable s base (Function.update roles i role) id := by
  obtain ⟨k, hk, hid, hfree, hall⟩ := h
  exact ⟨k, hk, hid, hfree, hall.update hkeeps⟩

theorem Progress.Fair.update {part : Option Bool} {other : Progress}
    (h : other.Fair s base roles part) :
    other.Fair s base (Function.update roles i role) part := by
  cases other with
  | looks k => exact AllClaimed.update hkeeps h
  | fills id item => exact ⟨h.1, h.2.1.update hkeeps, h.2.2⟩
  | left id => exact ⟨h.1, h.2.update hkeeps⟩

omit hkeeps

namespace Claims

variable (h : Claims s base part rows roles)

include h

theorem mem_names (hi : roles i = .fills id item) : id ∈ rows.map Prod.fst :=
  List.mem_map_of_mem (Node.mem_of_lookup ((h.owned id item).mpr ⟨i, hi⟩))

theorem exists_owner (hid : id ∈ rows.map Prod.fst) : ∃ i item, roles i = .fills id item := by
  obtain ⟨⟨_, item⟩, hrow, rfl⟩ := List.mem_map.mp hid
  obtain ⟨i, hi⟩ := (h.owned _ _).mp (Node.lookup_of_mem h.unique hrow)
  exact ⟨i, item, hi⟩

theorem claimable (hi : (roles i).claimed? = some id) : Claimable s base roles id := by
  have hfair := h.fair i
  cases hrole : roles i with
  | looks k =>
    rw [hrole] at hi
    contradiction
  | fills id' item =>
    rw [hrole] at hi hfair
    obtain rfl := Option.some.inj hi
    exact hfair.2.1
  | left id' =>
    rw [hrole] at hi hfair
    obtain rfl := Option.some.inj hi
    exact hfair.2

theorem part_ne_none (hi : (roles i).claimed? = some id) : part i ≠ none := by
  have hfair := h.fair i
  cases hrole : roles i with
  | looks k =>
    rw [hrole] at hi
    contradiction
  | fills id' item =>
    rw [hrole] at hfair
    exact hfair.1
  | left id' =>
    rw [hrole] at hfair
    rw [hfair.1]
    simp

theorem mem_freeIds_of_mem_names (hid : id ∈ rows.map Prod.fst) : id ∈ s.freeIds base := by
  obtain ⟨i, item, hi⟩ := h.exists_owner hid
  obtain ⟨_, _, _, hfree, _⟩ := h.claimable (by rw [hi]; rfl : (roles i).claimed? = some id)
  exact hfree

/-- If the rows change as the item of one caller does, they are again the items of the callers. -/
theorem update (hunique : Node.UniqueNames rows')
    (howned : ∀ x c, rows'.lookup x = some c ↔
      role = .fills x c ∨ rows.lookup x = some c ∧ ∀ m, roles i ≠ .fills x m)
    (hsingle : ∀ x c, role = .fills x c → (∃ m, roles i = .fills x m) ∨ x ∉ rows.map Prod.fst)
    (hkeeps : ∀ x, (roles i).claimed? = some x → role.claimed? = some x)
    (hfair : role.Fair s base (Function.update roles i role) (part i))
    (hfirst : (∀ i, part i ≠ some false) → rows'.map Prod.fst <+: s.freeIds base) :
    Claims s base part rows' (Function.update roles i role) where
  unique := hunique
  owned := by
    intro x c
    rw [howned, h.owned]
    constructor
    · rintro (rfl | ⟨⟨j, hj⟩, hi⟩)
      · exact ⟨i, Function.update_self ..⟩
      · refine ⟨j, ?_⟩
        rwa [Function.update_of_ne]
        rintro rfl
        exact hi c hj
    · rintro ⟨j, hj⟩
      by_cases hji : j = i
      · subst hji
        rw [Function.update_self] at hj
        exact Or.inl hj
      · rw [Function.update_of_ne hji] at hj
        exact Or.inr ⟨⟨j, hj⟩, fun m hi => hji (h.single _ _ _ _ _ hj hi)⟩
  single := by
    -- No other caller has the id of this one.
    have hother : ∀ j x c c', j ≠ i → role = .fills x c → roles j ≠ .fills x c' := by
      intro j x c c' hji hrole hj
      rcases hsingle x c hrole with ⟨m, hi⟩ | hnew
      · exact hji (h.single _ _ _ _ _ hj hi)
      · exact hnew (h.mem_names hj)
    intro j l x c c' hj hl
    by_cases hji : j = i
    · subst hji
      by_contra hlj
      rw [Function.update_self] at hj
      rw [Function.update_of_ne (Ne.symm hlj)] at hl
      exact hother l x c c' (Ne.symm hlj) hj hl
    · rw [Function.update_of_ne hji] at hj
      by_cases hli : l = i
      · subst hli
        rw [Function.update_self] at hl
        exact absurd hj (hother j x c' c hji hl)
      · rw [Function.update_of_ne hli] at hl
        exact h.single _ _ _ _ _ hj hl
  fair := by
    intro j
    by_cases hji : j = i
    · subst hji
      rw [Function.update_self]
      exact hfair
    · rw [Function.update_of_ne hji]
      exact (h.fair j).update hkeeps
  first := hfirst

/-! ### Moves -/

theorem skip (hi : roles i = .looks k)
    (hk : candidate base k ∈ s.freeIds base → candidate base k ∈ rows.map Prod.fst) :
    Claims s base part rows (Function.update roles i (.looks (k + 1))) := by
  have hkeeps : ∀ x, (roles i).claimed? = some x → (Progress.looks (k + 1)).claimed? = some x := by
    intro x hx
    rw [hi] at hx
    contradiction
  have hall : AllClaimed s base roles (k + 1) := by
    intro m hm hlt hfree
    rcases Nat.lt_succ_iff_lt_or_eq.mp hlt with hlt | rfl
    · have hfair := h.fair i
      rw [hi] at hfair
      exact hfair m hm hlt hfree
    · obtain ⟨j, item, hj⟩ := h.exists_owner (hk hfree)
      exact ⟨j, by rw [hj]; rfl⟩
  exact h.update h.unique (by simp [hi]) (by simp) hkeeps (hall.update hkeeps) h.first

/-- A claim takes the first id that is free still, if no claimed one has been given up. -/
theorem first_claim (hi : roles i = .looks k) (hk : 1 ≤ k)
    (hfree : candidate base k ∈ s.freeIds base) (hnew : candidate base k ∉ rows.map Prod.fst)
    (hpart : ∀ i, part i ≠ some false) :
    rows.map Prod.fst ++ [candidate base k] <+: s.freeIds base := by
  obtain ⟨rest, hrest⟩ := h.first hpart
  have hmem := hfree
  rw [← hrest, List.mem_append] at hmem
  cases rest with
  | nil => simp [hnew] at hmem
  | cons x rest =>
    refine ⟨rest, ?_⟩
    rw [List.append_assoc, List.singleton_append, ← hrest]
    rcases List.mem_cons.mp (hmem.resolve_left hnew) with hx | hmem
    · rw [hx]
    · -- Otherwise there is a smaller free id, which has been claimed and is not given up.
      obtain ⟨before, after, rfl⟩ := List.append_of_mem hmem
      have hsplit : s.freeIds base =
          (rows.map Prod.fst ++ x :: before) ++ candidate base k :: after := by
        rw [← hrest, List.append_assoc, List.cons_append]
      obtain ⟨m, hm, hlt, rfl⟩ := Stock.freeIds_before hk hsplit x (by simp)
      have hfair := h.fair i
      rw [hi] at hfair
      obtain ⟨j, hj⟩ := hfair m hm hlt (by simp [hsplit])
      have hnodup := s.nodup_freeIds base
      rw [← hrest, List.nodup_append] at hnodup
      have hfairj := h.fair j
      cases hrole : roles j with
      | looks k' =>
        rw [hrole] at hj
        contradiction
      | left x =>
        rw [hrole] at hfairj
        exact absurd hfairj.1 (hpart j)
      | fills x item =>
        rw [hrole] at hj
        obtain rfl := Option.some.inj hj
        exact absurd rfl (hnodup.2.2 _ (h.mem_names hrole) _ List.mem_cons_self)

theorem claim (hi : roles i = .looks k) (hk : 1 ≤ k) (hfree : candidate base k ∈ s.freeIds base)
    (hnew : candidate base k ∉ rows.map Prod.fst) (hpart : part i ≠ none) :
    Claims s base part (rows ++ [(candidate base k, Node.empty)])
      (Function.update roles i (.fills (candidate base k) Node.empty)) := by
  have hkeeps : ∀ x, (roles i).claimed? = some x →
      (Progress.fills (candidate base k) Node.empty).claimed? = some x := by
    intro x hx
    rw [hi] at hx
    contradiction
  have hall := h.fair i
  rw [hi] at hall
  rw [← Node.setEntry_of_lookup (Node.lookup_eq_none_iff.mpr hnew)]
  refine h.update (Node.uniqueNames_setEntry h.unique _ _) (fun x c => ?_) ?_ hkeeps
    ⟨hpart, ⟨k, hk, rfl, hfree, AllClaimed.update hkeeps hall⟩, [], rfl⟩ fun hall => ?_
  · by_cases hx : x = candidate base k
    · subst hx
      simp [Node.lookup_setEntry_some, Node.lookup_eq_none_iff.mpr hnew]
    · simp [Node.lookup_setEntry_of_ne hx, Ne.symm hx, hi]
  · rintro x c ⟨⟩
    exact Or.inr hnew
  · rw [Node.setEntry_of_lookup (Node.lookup_eq_none_iff.mpr hnew), List.map_append]
    exact h.first_claim hi hk hfree hnew hall

theorem fill {item' : Node} (hi : roles i = .fills id item) (hitem : ∃ es, item' = .directory es) :
    Claims s base part (Node.setEntry id (some item') rows)
      (Function.update roles i (.fills id item')) := by
  have hkeeps : ∀ x, (roles i).claimed? = some x → (Progress.fills id item').claimed? = some x := by
    intro x hx
    rwa [hi] at hx
  have hfair := h.fair i
  rw [hi] at hfair
  refine h.update (Node.uniqueNames_setEntry h.unique _ _) (fun x c => ?_) ?_ hkeeps
    ⟨hfair.1, hfair.2.1.update hkeeps, hitem⟩ fun hall => ?_
  · by_cases hx : x = id
    · subst hx
      simp [Node.lookup_setEntry_some, hi]
    · simp [Node.lookup_setEntry_of_ne hx, Ne.symm hx, hi]
  · rintro x c ⟨⟩
    exact Or.inl ⟨item, hi⟩
  · rw [Node.names_setEntry (h.mem_names hi)]
    exact h.first hall

theorem leave (hi : roles i = .fills id item) (hpart : part i = some false) :
    Claims s base part (Node.setEntry id none rows) (Function.update roles i (.left id)) := by
  have hkeeps : ∀ x, (roles i).claimed? = some x → (Progress.left id).claimed? = some x := by
    intro x hx
    rwa [hi] at hx
  have hfair := h.fair i
  rw [hi] at hfair
  refine h.update (Node.uniqueNames_setEntry h.unique _ _) (fun x c => ?_) (by simp) hkeeps
    ⟨hpart, hfair.2.1.update hkeeps⟩ fun hall => absurd hpart (hall i)
  by_cases hx : x = id
  · subst hx
    simp [h.unique.lookup_setEntry_none, hi]
  · simp [Node.lookup_setEntry_of_ne hx, Ne.symm hx, hi]

theorem go (hgoes : (roles i).Goes s base (part i) rows role rows') :
    Claims s base part rows' (Function.update roles i role) := by
  generalize hi : roles i = before at hgoes
  cases hgoes with
  | stays =>
    rw [← hi, Function.update_eq_self]
    exact h
  | skips hk => exact h.skip hi hk
  | claims hk hfree hnew hpart => exact h.claim hi hk hfree hnew hpart
  | fills hitem => exact h.fill hi hitem
  | leaves hpart => exact h.leave hi hpart

omit h in
/-- Before anybody has claimed anything. -/
theorem start (s : Stock) (base : Text) (part : Fin n → Option Bool) :
    Claims s base part [] fun _ => .looks 1 where
  unique := List.nodup_nil
  owned := by simp
  single := by simp
  fair := fun _ m hm hlt => absurd hm (Nat.not_le.mpr hlt)
  first := fun _ => List.nil_prefix

end Claims

/-! ## How many ids are claimed -/

/-- The callers that have something to copy. -/
def claimers (part : Fin n → Option Bool) : List (Fin n) :=
  (List.finRange n).filter fun i => (part i).isSome

theorem mem_claimers : i ∈ claimers part ↔ part i ≠ none := by
  simp [claimers, Option.isSome_iff_ne_none]

theorem nodup_claimers (part : Fin n → Option Bool) : (claimers part).Nodup :=
  (List.nodup_finRange n).filter _

/-- If each of some ids is claimed by one of the callers, there are no more ids than callers. -/
theorem length_le_of_claimed (roles : Fin n → Progress) {ids : List Text}
    {callers : List (Fin n)} (hnodup : ids.Nodup)
    (hclaimed : ∀ x ∈ ids, ∃ i ∈ callers, (roles i).claimed? = some x) :
    ids.length ≤ callers.length := by
  have hsubset : ids ⊆ callers.filterMap fun i => (roles i).claimed? :=
    fun x hx => List.mem_filterMap.mpr (hclaimed x hx)
  exact Nat.le_trans (List.subperm_of_subset hnodup hsubset).length_le (List.length_filterMap_le _ _)

namespace Claims

variable (h : Claims s base part rows roles)

include h

theorem mem_claimers_of_claimed (hi : (roles i).claimed? = some id) : i ∈ claimers part :=
  mem_claimers.mpr (h.part_ne_none hi)

/-- Only the first ids are claimed, as many as there are callers that have claimed one. -/
theorem mem_take {callers : List (Fin n)}
    (hcallers : ∀ i x, (roles i).claimed? = some x → i ∈ callers) (hid : id ∈ rows.map Prod.fst) :
    id ∈ (s.freeIds base).take callers.length := by
  obtain ⟨i, item, hi⟩ := h.exists_owner hid
  have hclaimed : (roles i).claimed? = some id := by rw [hi]; rfl
  obtain ⟨k, hk, rfl, hfree, hall⟩ := h.claimable hclaimed
  obtain ⟨before, after, hsplit⟩ := List.append_of_mem hfree
  have hnodup := s.nodup_freeIds base
  rw [hsplit, List.append_cons, List.nodup_append] at hnodup
  have hlength : (before ++ [candidate base k]).length ≤ callers.length := by
    refine length_le_of_claimed roles hnodup.1 fun x hx => ?_
    rcases List.mem_append.mp hx with hx | hx
    · obtain ⟨m, hm, hlt, rfl⟩ := Stock.freeIds_before hk hsplit x hx
      obtain ⟨j, hj⟩ := hall m hm hlt (by simp [hsplit, hx])
      exact ⟨j, hcallers j _ hj, hj⟩
    · rw [List.mem_singleton.mp hx]
      exact ⟨i, hcallers i _ hclaimed, hclaimed⟩
  rw [hsplit, List.append_cons, List.take_append, List.take_of_length_le hlength]
  simp

/-- If all callers that have claimed an id have their item still, the first ids have items, as many as
there are such callers. -/
theorem mem_names_of_mem_take {callers : List (Fin n)} (hnodup : callers.Nodup)
    (hcallers : ∀ i x, (roles i).claimed? = some x → i ∈ callers)
    (hitems : ∀ i ∈ callers, ∃ id item, roles i = .fills id item)
    (hid : id ∈ (s.freeIds base).take callers.length) : id ∈ rows.map Prod.fst := by
  have hclaims : (callers.map fun i => (roles i).claimed?).Nodup := by
    refine hnodup.map_on fun i hi j hj heq => ?_
    obtain ⟨x, item, hrole⟩ := hitems i hi
    obtain ⟨y, item', hrole'⟩ := hitems j hj
    rw [hrole, hrole'] at heq
    obtain rfl := Option.some.inj heq
    exact h.single _ _ _ _ _ hrole hrole'
  have hsubset : (callers.map fun i => (roles i).claimed?) ⊆ (rows.map Prod.fst).map some := by
    intro claimed hclaimed
    obtain ⟨i, hi, rfl⟩ := List.mem_map.mp hclaimed
    obtain ⟨x, item, hrole⟩ := hitems i hi
    rw [hrole]
    exact List.mem_map_of_mem (h.mem_names hrole)
  -- There are as many claims as callers, on different ids, all among the first that are free.
  have hlength := (List.subperm_of_subset hclaims hsubset).length_le
  have hfirst : (rows.map Prod.fst).Subperm ((s.freeIds base).take callers.length) :=
    List.subperm_of_subset h.unique fun x hx => h.mem_take hcallers hx
  refine (hfirst.perm_of_length_le ?_).mem_iff.mpr hid
  rw [List.length_map, List.length_map] at hlength
  exact Nat.le_trans (List.length_take_le _ _) hlength

/-- If there are enough free ids, no caller finds all of them claimed. -/
theorem exists_unclaimed (hpart : part i ≠ none)
    (hroom : (claimers part).length ≤ (s.freeIds base).length) :
    roles i ≠ .looks (maxCandidates + 1) := by
  intro hi
  have hall := h.fair i
  rw [hi] at hall
  have hmem := mem_claimers.mpr hpart
  have hlength : (s.freeIds base).length ≤ ((claimers part).erase i).length := by
    refine length_le_of_claimed roles (s.nodup_freeIds base) fun x hx => ?_
    obtain ⟨⟨m, hm, hmax, rfl⟩, -⟩ := Stock.mem_freeIds.mp hx
    obtain ⟨j, hj⟩ := hall m hm (Nat.lt_succ_of_le hmax) hx
    have hji : j ≠ i := by
      rintro rfl
      rw [hi] at hj
      contradiction
    exact ⟨j, (List.mem_erase_of_ne hji).mpr (h.mem_claimers_of_claimed hj), hj⟩
  rw [List.length_erase_of_mem hmem] at hlength
  have hpos := List.length_pos_of_mem hmem
  omega

/-! ## What stands below the roots -/

theorem lookup_eq_none_of_mem_names (hid : id ∈ rows.map Prod.fst) :
    s.quarantined.lookup id = none ∧ s.approved.lookup id = none :=
  Stock.isFree_iff.mp (Stock.mem_freeIds.mp (h.mem_freeIds_of_mem_names hid)).2

theorem isDirectory_of_lookup (hitem : rows.lookup id = some item) : ∃ es, item = .directory es := by
  obtain ⟨i, hi⟩ := (h.owned id item).mp hitem
  have hfair := h.fair i
  rw [hi] at hfair
  exact hfair.2.2

/-- New items stand beside the old ones. -/
theorem sound (hs : s.Sound) (hbase : IsBase base) : (s.add rows).Sound where
  quarantined := by
    show ((s.quarantined ++ rows).map Prod.fst).Nodup
    rw [List.map_append, List.nodup_append]
    refine ⟨hs.quarantined, h.unique, fun x hx y hy => ?_⟩
    rintro rfl
    exact Node.lookup_eq_none_iff.mp (h.lookup_eq_none_of_mem_names hy).1 hx
  approved := hs.approved
  items := by
    intro e he
    rcases List.mem_append.mp he with he | he
    · rcases List.mem_append.mp he with he | he
      · exact hs.items e (List.mem_append_left _ he)
      · have hname : e.1 ∈ rows.map Prod.fst := List.mem_map_of_mem he
        obtain ⟨hid, -⟩ := Stock.mem_freeIds.mp (h.mem_freeIds_of_mem_names hname)
        exact ⟨hid.isValid hbase, hid.length_le hbase,
          h.isDirectory_of_lookup (Node.lookup_of_mem h.unique he)⟩
    · exact hs.items e (List.mem_append_right _ he)
  apart := by
    intro x hx
    rw [Stock.add, List.map_append, List.mem_append] at hx
    rcases hx with hx | hx
    · exact hs.apart x hx
    · exact Node.lookup_eq_none_iff.mp (h.lookup_eq_none_of_mem_names hx).2

end Claims

end Quarantine

end Triage
