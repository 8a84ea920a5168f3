import Mathlib.Data.UInt
import Triage.Fingerprint
import Triage.Proofs.Walk

/-!
What a fingerprint identifies.

The text that is digested can be cut back into the entries that it was made of: a path ends at the
first zero byte, and eight bytes after it are its size (`flatMap_entryBytes_injective`). As the
entries are sorted first, it stands for them in any order (`stream_eq_iff`), and the text of a tree
for the set of its files (`stream_identifies`).
-/

namespace Triage

/-! ## Cutting at the first separator -/

theorem Text.append_separator_inj {sep : UInt8} {a b s t : Text} (ha : sep ∉ a) (hb : sep ∉ b)
    (h : a ++ sep :: s = b ++ sep :: t) : a = b ∧ s = t := by
  induction a generalizing b with
  | nil =>
    cases b with
    | nil => exact ⟨rfl, (List.cons.inj h).2⟩
    | cons c b =>
      obtain ⟨rfl, -⟩ := List.cons.inj h
      exact absurd List.mem_cons_self hb
  | cons c a ih =>
    cases b with
    | nil =>
      obtain ⟨rfl, -⟩ := List.cons.inj h
      exact absurd List.mem_cons_self ha
    | cons d b =>
      obtain ⟨rfl, hrest⟩ := List.cons.inj h
      obtain ⟨rfl, hst⟩ := ih (fun hmem => ha (List.mem_cons_of_mem _ hmem))
        (fun hmem => hb (List.mem_cons_of_mem _ hmem)) hrest
      exact ⟨rfl, hst⟩

namespace Fingerprint

/-! ## Entries -/

variable {a b : List Entry} {e e' : Entry} {s t : Text}

theorem length_sizeBytes (size : UInt64) : (sizeBytes size).length = 8 := by simp [sizeBytes]

/-- A byte of a size is its digit to the base 256. -/
theorem getElem?_sizeBytes (size : UInt64) {i : Nat} (hi : i < 8) :
    (sizeBytes size)[i]?.map UInt8.toNat = some (size.toNat / 256 ^ i % 256) := by
  have hshift : 8 * i % 64 = 8 * i := Nat.mod_eq_of_lt (by omega)
  have hpow : 256 ^ i = 2 ^ (8 * i) := by rw [Nat.pow_mul]
  simp [sizeBytes, hi, Nat.shiftRight_eq_div_pow, hshift, hpow]

theorem sizeBytes_injective {m n : UInt64} (h : sizeBytes m = sizeBytes n) : m = n := by
  have hdigit : ∀ i < 8, m.toNat / 256 ^ i % 256 = n.toNat / 256 ^ i % 256 := by
    intro i hi
    have hm := getElem?_sizeBytes m hi
    rw [h, getElem?_sizeBytes n hi] at hm
    exact (Option.some.inj hm).symm
  have hmod : ∀ k ≤ 8, m.toNat % 256 ^ k = n.toNat % 256 ^ k := by
    intro k hk
    induction k with
    | zero => simp [Nat.mod_one]
    | succ k ih => rw [Nat.mod_pow_succ, Nat.mod_pow_succ, ih (by omega), hdigit k hk]
  apply UInt64.toNat_inj.mp
  calc m.toNat = m.toNat % 256 ^ 8 := (Nat.mod_eq_of_lt m.toNat_lt).symm
    _ = n.toNat % 256 ^ 8 := hmod 8 le_rfl
    _ = n.toNat := Nat.mod_eq_of_lt n.toNat_lt

/-- The bytes of an entry end where they say: nothing that follows can be read as a part of them. -/
theorem entryBytes_append_inj (he : 0 ∉ e.1) (he' : 0 ∉ e'.1)
    (h : entryBytes e ++ s = entryBytes e' ++ t) : e = e' ∧ s = t := by
  simp only [entryBytes, List.append_assoc, List.cons_append] at h
  obtain ⟨hpath, hrest⟩ := Text.append_separator_inj he he' h
  have hlength : (sizeBytes e.2).length = (sizeBytes e'.2).length := by
    rw [length_sizeBytes, length_sizeBytes]
  obtain ⟨hsize, hst⟩ := List.append_inj hrest hlength
  exact ⟨Prod.ext hpath (sizeBytes_injective hsize), hst⟩

theorem entryBytes_ne_nil (e : Entry) : entryBytes e ≠ [] := by simp [entryBytes]

/-- The entries can be read back from their bytes. -/
theorem flatMap_entryBytes_injective (ha : ∀ e ∈ a, 0 ∉ e.1) (hb : ∀ e ∈ b, 0 ∉ e.1)
    (h : a.flatMap entryBytes = b.flatMap entryBytes) : a = b := by
  induction a generalizing b with
  | nil =>
    cases b with
    | nil => rfl
    | cons e b => simp [entryBytes_ne_nil] at h
  | cons e a ih =>
    cases b with
    | nil => simp [entryBytes_ne_nil] at h
    | cons e' b =>
      rw [List.forall_mem_cons] at ha hb
      obtain ⟨rfl, hrest⟩ := entryBytes_append_inj ha.1 hb.1 h
      rw [ih ha.2 hb.2 hrest]

/-! ## The order of entries -/

theorem precedes_keyed : Keyed precedes id (Prod.Lex (· < ·) (· < ·)) where
  strict := {}
  iff a b := by simp [precedes, Prod.lex_def]

theorem perm_sort (l : List Entry) : (sort l).Perm l := List.mergeSort_perm l _

theorem sort_eq_iff : sort a = sort b ↔ a.Perm b := by
  constructor
  · intro h
    exact (perm_sort a).symm.trans (h ▸ perm_sort b)
  · exact fun h => precedes_keyed.mergeSort_eq_of_perm h fun _ _ _ _ hkey => hkey

/-- Two lists of entries give one text if and only if one is a rearrangement of the other. -/
theorem stream_eq_iff (ha : ∀ e ∈ a, 0 ∉ e.1) (hb : ∀ e ∈ b, 0 ∉ e.1) :
    stream a = stream b ↔ a.Perm b := by
  rw [← sort_eq_iff]
  constructor
  · intro h
    refine flatMap_entryBytes_injective ?_ ?_ h
    · exact fun e he => ha e ((perm_sort a).mem_iff.mp he)
    · exact fun e he => hb e ((perm_sort b).mem_iff.mp he)
  · intro h
    rw [stream, h, stream]

/-! ## Trees -/

variable {fs fs' : FileSystem} {root root' : Text} {es es' : List (Text × Node)}

/-- A regular file of this size stands at this path below the directory. -/
def RegularFile (es : List (Text × Node)) (path : Text) (size : Nat) : Prop :=
  ∃ ns data, (Node.directory es).find? ns = some (.file data) ∧ path = Path.ofNames ns ∧
    size = data.size

/-- The sizes are such that a system can have files of them. -/
def SizesFit (es : List (Text × Node)) : Prop :=
  ∀ path size, RegularFile es path size → size < 2 ^ 64

theorem regularFile_iff (h : (Node.directory es).WellFormed) {path : Text} {size : Nat} :
    RegularFile es path size ↔
      ∃ data, (path, .file data) ∈ Node.entriesOf (fun _ => true) [] es ∧ size = data.size := by
  constructor
  · intro hfile
    obtain ⟨ns, data, hfind, hpath, hsize⟩ := hfile
    have hns := Node.ne_nil_of_find?_file hfind
    exact ⟨data, h.mem_entriesOf_all.mpr ⟨ns, hns, hfind, hpath⟩, hsize⟩
  · intro hfile
    obtain ⟨data, hvisited, hsize⟩ := hfile
    obtain ⟨ns, -, hfind, hpath⟩ := h.mem_entriesOf_all.mp hvisited
    exact ⟨ns, data, hfind, hpath, hsize⟩

/-- The order in which a directory lists its entries does not matter. -/
theorem regularFile_perm (h : (Node.directory es).WellFormed) (hperm : es.Perm es') (path : Text)
    (size : Nat) : RegularFile es path size ↔ RegularFile es' path size := by
  have hes' := h.perm hperm
  have hvisited : ∀ data : FileData, (path, .file data) ∈ Node.entriesOf (fun _ => true) [] es ↔
      (path, .file data) ∈ Node.entriesOf (fun _ => true) [] es' := by
    intro data
    refine (Node.mem_entriesOf es (fun e he => ⟨h.isName he, h.entry he⟩)
      (List.forall_mem_nil _)).trans ?_
    simp only [hperm.mem_iff]
    exact (Node.mem_entriesOf es' (fun e he => ⟨hes'.isName he, hes'.entry he⟩)
      (List.forall_mem_nil _)).symm
  rw [regularFile_iff h, regularFile_iff hes']
  simp only [hvisited]

theorem mem_entries (h : fs.Walkable root es) (hfit : SizesFit es) {e : Entry} :
    e ∈ entries fs root ↔ RegularFile es e.1 e.2.toNat := by
  rw [entries, List.mem_map]
  constructor
  · intro hentry
    obtain ⟨found, hfound, rfl⟩ := hentry
    obtain ⟨ns, data, hfind, -, rfl⟩ := (WalkResult.mem_allFiles h.toHasTree).mp hfound
    have hfile : RegularFile es (Path.ofNames ns) data.size := ⟨ns, data, hfind, rfl, rfl⟩
    have hsize : data.size.toUInt64.toNat = data.size := Nat.mod_eq_of_lt (hfit _ _ hfile)
    exact ⟨ns, data, hfind, rfl, hsize⟩
  · intro hfile
    obtain ⟨ns, data, hfind, hpath, hsize⟩ := hfile
    refine ⟨_, WalkResult.mem_allFiles_of_file h hfind, Prod.ext hpath.symm ?_⟩
    change data.size.toUInt64 = e.2
    rw [← hsize]
    exact UInt64.ofNat_toNat

theorem nodup_entries (h : fs.Walkable root es) : (entries fs root).Nodup := by
  rw [entries, List.Nodup, List.pairwise_map]
  exact (WalkResult.pairwise_allFiles h.toHasTree).imp fun hne heq => hne (congrArg Prod.fst heq)

theorem entries_noZero (h : fs.Walkable root es) : ∀ e ∈ entries fs root, 0 ∉ e.1 := by
  intro e he
  obtain ⟨found, hfound, rfl⟩ := List.mem_map.mp he
  obtain ⟨ns, data, hfind, -, rfl⟩ := (WalkResult.mem_allFiles h.toHasTree).mp hfound
  exact (h.wellFormed.areNames hfind).zero_not_mem_ofNames

theorem perm_entries_iff (h : fs.Walkable root es) (h' : fs'.Walkable root' es')
    (hfit : SizesFit es) (hfit' : SizesFit es') :
    (entries fs root).Perm (entries fs' root') ↔
      ∀ path size, RegularFile es path size ↔ RegularFile es' path size := by
  rw [List.perm_ext_iff_of_nodup (nodup_entries h) (nodup_entries h')]
  simp only [mem_entries h hfit, mem_entries h' hfit']
  constructor
  · intro hmem path size
    by_cases hsize : size < 2 ^ 64
    · have hentry := hmem (path, size.toUInt64)
      have htoNat : size.toUInt64.toNat = size := Nat.mod_eq_of_lt hsize
      rwa [htoNat] at hentry
    · exact iff_of_false (fun hfile => hsize (hfit _ _ hfile)) fun hfile => hsize (hfit' _ _ hfile)
  · exact fun hfiles e => hfiles e.1 e.2.toNat

theorem ofTree_ok (h : fs.Walkable root es) :
    ofTree fs root = .ok (Sha256.hex (stream (entries fs root))) := by
  rw [ofTree, if_pos h.isDirectory, ofEntries]

/-- The digested text of a list of entries identifies the entries up to their order, and so that of
a tree identifies its regular files, by paths and sizes. -/
theorem stream_identifies :
    (∀ a b : List Entry, (∀ e ∈ a, 0 ∉ e.1) → (∀ e ∈ b, 0 ∉ e.1) →
      (stream a = stream b ↔ a.Perm b)) ∧
    ∀ fs fs' root root' es es', fs.Walkable root es → fs'.Walkable root' es' →
      SizesFit es → SizesFit es' →
        ofTree fs root = .ok (Sha256.hex (stream (entries fs root))) ∧
        ofTree fs' root' = .ok (Sha256.hex (stream (entries fs' root'))) ∧
        (stream (entries fs root) = stream (entries fs' root') ↔
          ∀ path size, RegularFile es path size ↔ RegularFile es' path size) := by
  refine ⟨fun a b ha hb => stream_eq_iff ha hb, ?_⟩
  intro fs fs' root root' es es' h h' hfit hfit'
  refine ⟨ofTree_ok h, ofTree_ok h', ?_⟩
  rw [stream_eq_iff (entries_noZero h) (entries_noZero h'), perm_entries_iff h h' hfit hfit']

/-! ## One tree listed in two orders, and a tree with a longer file -/

/-- The file in `node_modules` has this size. -/
def moduleTree (size : Nat) : List (Text × Node) :=
  [("node_modules".ascii, .directory [("m.js".ascii, .file ⟨[], size, false⟩)]),
   ("a".ascii, .file ⟨"x".ascii, 0, false⟩)]

def moduleFiles : FileSystem :=
  ⟨.directory [("w".ascii, .directory (moduleTree 2)),
    ("v".ascii, .directory (moduleTree 2).reverse), ("u".ascii, .directory (moduleTree 3))], []⟩

theorem moduleTree_wellFormed (size : Nat) : (Node.directory (moduleTree size)).WellFormed := by
  have hname : Path.IsName "m.js".ascii := by decide
  have hmodules : (Node.directory [("m.js".ascii, .file ⟨[], size, false⟩)]).WellFormed :=
    Node.wellFormed_directory (by simp [Node.UniqueNames])
      (List.forall_mem_singleton.mpr ⟨hname, Node.wellFormed_leaf (by simp)⟩)
  refine Node.wellFormed_directory (by simp [Node.UniqueNames, moduleTree]; decide) ?_
  simp only [moduleTree, List.forall_mem_cons]
  exact ⟨⟨by decide, hmodules⟩, ⟨by decide, Node.wellFormed_leaf (by simp)⟩, List.forall_mem_nil _⟩

theorem moduleTree_walkable : moduleFiles.Walkable "w".ascii (moduleTree 2) :=
  FileSystem.HasTree.walkable ⟨by cbv, moduleTree_wellFormed 2⟩ (by decide)

theorem reversed_walkable : moduleFiles.Walkable "v".ascii (moduleTree 2).reverse :=
  FileSystem.HasTree.walkable
    ⟨by cbv, (moduleTree_wellFormed 2).perm (List.reverse_perm _).symm⟩ (by decide)

theorem grown_walkable : moduleFiles.Walkable "u".ascii (moduleTree 3) :=
  FileSystem.HasTree.walkable ⟨by cbv, moduleTree_wellFormed 3⟩ (by decide)

theorem regularFile_moduleTree {n size : Nat} {path : Text}
    (hfile : RegularFile (moduleTree n) path size) :
    path = "node_modules/m.js".ascii ∧ size = n ∨ path = "a".ascii ∧ size = 1 := by
  obtain ⟨data, hvisited, hsize⟩ := (regularFile_iff (moduleTree_wellFormed n)).mp hfile
  have hall : Node.entriesOf (fun _ => true) [] (moduleTree n) =
      [("node_modules".ascii, .directory [("m.js".ascii, .file ⟨[], n, false⟩)]),
        ("node_modules/m.js".ascii, .file ⟨[], n, false⟩),
        ("a".ascii, .file ⟨"x".ascii, 0, false⟩)] := rfl
  rw [hall] at hvisited
  simp only [List.mem_cons, Prod.mk.injEq, reduceCtorEq, Node.file.injEq, and_false, false_or,
    List.not_mem_nil, or_false] at hvisited
  obtain ⟨rfl, rfl⟩ | ⟨rfl, rfl⟩ := hvisited
  · exact Or.inl ⟨rfl, by simpa [FileData.size] using hsize⟩
  · exact Or.inr ⟨rfl, hsize⟩

theorem sizesFit_moduleTree {n : Nat} (hn : n < 2 ^ 64) : SizesFit (moduleTree n) := by
  intro path size hfile
  rcases regularFile_moduleTree hfile with ⟨-, rfl⟩ | ⟨-, rfl⟩
  · exact hn
  · decide

theorem stream_identifies_modules :
    stream [("b".ascii, 0), ("a".ascii, 97)] = stream [("a".ascii, 97), ("b".ascii, 0)] ∧
    stream (entries moduleFiles "w".ascii) = stream (entries moduleFiles "v".ascii) ∧
    stream (entries moduleFiles "w".ascii) ≠ stream (entries moduleFiles "u".ascii) := by
  have hperm : (moduleTree 2).Perm (moduleTree 2).reverse := (List.reverse_perm _).symm
  have hsame := regularFile_perm (moduleTree_wellFormed 2) hperm
  have hfit := sizesFit_moduleTree (by decide : 2 < 2 ^ 64)
  have hreversed : SizesFit (moduleTree 2).reverse := fun path size hfile =>
    hfit path size ((hsame path size).mpr hfile)
  obtain ⟨hlists, htrees⟩ := stream_identifies
  obtain ⟨-, -, hiff⟩ := htrees _ _ _ _ _ _ moduleTree_walkable reversed_walkable hfit hreversed
  obtain ⟨-, -, hiff'⟩ := htrees _ _ _ _ _ _ moduleTree_walkable grown_walkable hfit
    (sizesFit_moduleTree (by decide))
  refine ⟨(hlists _ _ (by decide) (by decide)).mpr (List.Perm.swap _ _ _), hiff.mpr hsame, ?_⟩
  intro heq
  -- The longer file has no counterpart.
  have hgrown : RegularFile (moduleTree 3) "node_modules/m.js".ascii 3 :=
    ⟨["node_modules".ascii, "m.js".ascii], ⟨[], 3, false⟩, rfl, rfl, rfl⟩
  have hfile := (hiff'.mp heq _ _).mpr hgrown
  rcases regularFile_moduleTree hfile with ⟨-, h⟩ | ⟨-, h⟩ <;> contradiction

end Fingerprint

end Triage
