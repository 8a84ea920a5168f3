import Mathlib
import Triage.Proofs.FileSystem.Path
import Triage.Proofs.FileSystem.Tree
import Triage.Proofs.Order
import Triage.Walk

/-!
What a walk of a tree of files lists.

The recursion over a tree visits what rows of names lead to, as long as it descends into each
directory on the way (`Node.mem_entriesOf`), and no path twice (`Node.nodup_entriesOf`). So the
listing is a set of files in the one order of their paths, and says nothing about the order in which
the directories list their entries (`WalkResult.ofTree_lists`).
-/

namespace Triage

open Triage.Path (IsName AreNames)

/-! ## Trees as a file system keeps them -/

namespace Node

/-- No two entries of one directory have one name, and all names are such that an entry can have
them. -/
structure WellFormed (n : Node) : Prop where
  unique : ∀ ns es, n.find? ns = some (directory es) → UniqueNames es
  names : ∀ ns es, n.find? ns = some (directory es) → ∀ e ∈ es, IsName e.1

variable {n m c : Node} {es : List (Text × Node)} {name : Text} {ns : List Text}

theorem WellFormed.uniqueNames (h : (directory es).WellFormed) : UniqueNames es :=
  h.unique [] es rfl

theorem WellFormed.isName (h : (directory es).WellFormed) (he : (name, c) ∈ es) : IsName name :=
  h.names [] es rfl _ he

theorem WellFormed.entry (h : (directory es).WellFormed) (he : (name, c) ∈ es) : c.WellFormed := by
  have hbelow : ∀ ns, (directory es).find? (name :: ns) = c.find? ns := fun ns =>
    find?_cons_directory (lookup_of_mem h.uniqueNames he)
  constructor
  · intro ns es' hes'
    exact h.unique (name :: ns) es' ((hbelow ns).trans hes')
  · intro ns es' hes'
    exact h.names (name :: ns) es' ((hbelow ns).trans hes')

/-- All names on the way to a node are names of entries. -/
theorem WellFormed.areNames (h : n.WellFormed) (hfind : n.find? ns = some m) : AreNames ns := by
  induction ns generalizing n with
  | nil => exact List.forall_mem_nil _
  | cons name ns ih =>
    obtain ⟨es, c, rfl, hc, hrest⟩ := find?_cons_eq_some hfind
    have hentry := mem_of_lookup hc
    exact List.forall_mem_cons.mpr ⟨h.isName hentry, ih (h.entry hentry) hrest⟩

theorem WellFormed.below (h : n.WellFormed) (hfind : n.find? ns = some m) : m.WellFormed := by
  have hbelow : ∀ more, n.find? (ns ++ more) = m.find? more := fun more => by
    rw [find?_append, hfind, Option.bind_some]
  constructor
  · intro more es hes
    exact h.unique (ns ++ more) es ((hbelow more).trans hes)
  · intro more es hes
    exact h.names (ns ++ more) es ((hbelow more).trans hes)

theorem wellFormed_leaf (hn : ∀ es, n ≠ directory es) : n.WellFormed := by
  have hfind : ∀ ns es, n.find? ns ≠ some (directory es) := by
    intro ns es hes
    cases ns with
    | nil => exact hn es (Option.some.inj hes)
    | cons name ns =>
      obtain ⟨es', _, rfl, -⟩ := find?_cons_eq_some hes
      exact hn es' rfl
  exact ⟨fun ns es hes => absurd hes (hfind ns es), fun ns es hes => absurd hes (hfind ns es)⟩

theorem wellFormed_directory (hunique : UniqueNames es)
    (h : ∀ e ∈ es, IsName e.1 ∧ e.2.WellFormed) : (directory es).WellFormed := by
  constructor
  · intro ns es' hes'
    cases ns with
    | nil =>
      obtain rfl : es = es' := by simpa [find?] using hes'
      exact hunique
    | cons name ns =>
      obtain ⟨_, c, ⟨⟩, hc, hrest⟩ := find?_cons_eq_some hes'
      exact (h _ (mem_of_lookup hc)).2.unique ns es' hrest
  · intro ns es' hes'
    cases ns with
    | nil =>
      obtain rfl : es = es' := by simpa [find?] using hes'
      exact fun e he => (h e he).1
    | cons name ns =>
      obtain ⟨_, c, ⟨⟩, hc, hrest⟩ := find?_cons_eq_some hes'
      exact (h _ (mem_of_lookup hc)).2.names ns es' hrest

/-- The order in which a directory lists its entries does not matter. -/
theorem WellFormed.perm {es' : List (Text × Node)} (h : (directory es).WellFormed)
    (hperm : es.Perm es') : (directory es').WellFormed := by
  refine wellFormed_directory ((hperm.map Prod.fst).nodup_iff.mp h.uniqueNames) fun e he => ?_
  have hmem : e ∈ es := hperm.mem_iff.mpr he
  exact ⟨h.isName hmem, h.entry hmem⟩

theorem ne_nil_of_find?_file {data : FileData} (h : (directory es).find? ns = some (file data)) :
    ns ≠ [] := by
  intro hns
  subst hns
  simp [find?] at h

/-! ## The entries that are visited -/

/-- The walk goes into every directory between the one at `base` and the entry at `ns` below it. -/
def Descends (descend : Text → Bool) (base ns : List Text) : Prop :=
  ∀ above, above ≠ [] → above <+: ns → above ≠ ns → descend (Path.ofNames (base ++ above))

variable {descend : Text → Bool} {base : List Text} {p : Text}

theorem descends_singleton : Descends descend base [name] := by
  intro above hne hprefix hproper
  rcases List.prefix_cons_iff.mp hprefix with rfl | ⟨rest, rfl, hrest⟩
  · exact absurd rfl hne
  · exact absurd (by rw [List.prefix_nil.mp hrest]) hproper

theorem descends_cons (hns : ns ≠ []) :
    Descends descend base (name :: ns) ↔
      descend (Path.ofNames (base ++ [name])) ∧ Descends descend (base ++ [name]) ns := by
  constructor
  · intro h
    refine ⟨h [name] (by simp) (by simp) (by simpa using Ne.symm hns), ?_⟩
    intro above hne hprefix hproper
    have habove := h (name :: above) (by simp) (by simpa using hprefix) (by simpa using hproper)
    rwa [List.append_cons] at habove
  · intro h above hne hprefix hproper
    obtain ⟨hhere, hbehind⟩ := h
    rcases List.prefix_cons_iff.mp hprefix with rfl | ⟨rest, rfl, hrest⟩
    · exact absurd rfl hne
    · by_cases hnil : rest = []
      · rwa [hnil]
      · rw [List.append_cons]
        exact hbehind rest hnil hrest (by simpa using hproper)

/-- There is nothing below what is no directory. -/
theorem mem_entriesBelow_leaf (hn : ∀ es, n ≠ directory es) :
    (p, m) ∈ n.entriesBelow descend (Path.ofNames base) ↔ ∃ ns, ns ≠ [] ∧ n.find? ns = some m ∧
      Descends descend base ns ∧ p = Path.ofNames (base ++ ns) := by
  have hnone : n.entriesBelow descend (Path.ofNames base) = [] := by
    cases n with
    | directory es => exact absurd rfl (hn es)
    | file | link | pipe => rfl
  rw [hnone]
  constructor
  · exact fun h => absurd h List.not_mem_nil
  · intro hbelow
    obtain ⟨ns, hns, hfind, -⟩ := hbelow
    obtain ⟨name, rest, rfl⟩ := List.exists_cons_of_ne_nil hns
    obtain ⟨es, c, rfl, -⟩ := find?_cons_eq_some hfind
    exact absurd rfl (hn es)

mutual

theorem mem_entriesBelow : ∀ (n : Node), n.WellFormed → ∀ {base : List Text}, AreNames base →
    ((p, m) ∈ n.entriesBelow descend (Path.ofNames base) ↔ ∃ ns, ns ≠ [] ∧ n.find? ns = some m ∧
      Descends descend base ns ∧ p = Path.ofNames (base ++ ns))
  | directory es, h, base, hbase => by
    rw [entriesBelow, mem_entriesOf es (fun e he => ⟨h.isName he, h.entry he⟩) hbase]
    constructor
    · intro hentries
      obtain ⟨name, c, ns, hentry, hfind, hdescends, hp⟩ := hentries
      have hlookup := lookup_of_mem h.uniqueNames hentry
      exact ⟨name :: ns, by simp, (find?_cons_directory hlookup).trans hfind, hdescends, hp⟩
    · intro hbelow
      obtain ⟨ns, hns, hfind, hdescends, hp⟩ := hbelow
      obtain ⟨name, rest, rfl⟩ := List.exists_cons_of_ne_nil hns
      obtain ⟨_, c, ⟨⟩, hc, hrest⟩ := find?_cons_eq_some hfind
      exact ⟨name, c, rest, mem_of_lookup hc, hrest, hdescends, hp⟩
  | file _, _, _, _ => mem_entriesBelow_leaf (by simp)
  | link _, _, _, _ => mem_entriesBelow_leaf (by simp)
  | pipe, _, _, _ => mem_entriesBelow_leaf (by simp)

theorem mem_entriesOf : ∀ (es : List (Text × Node)), (∀ e ∈ es, IsName e.1 ∧ e.2.WellFormed) →
    ∀ {base : List Text}, AreNames base →
    ((p, m) ∈ entriesOf descend (Path.ofNames base) es ↔ ∃ name c ns, (name, c) ∈ es ∧
      c.find? ns = some m ∧ Descends descend base (name :: ns) ∧
        p = Path.ofNames (base ++ name :: ns))
  | [], _, base, _ => by simp [entriesOf]
  | (name, c) :: rest, h, base, hbase => by
    have hname : IsName name := (h _ List.mem_cons_self).1
    have hc : c.WellFormed := (h _ List.mem_cons_self).2
    have hrest := mem_entriesOf rest (fun e he => h e (List.mem_cons_of_mem _ he)) hbase
    have hbelow := mem_entriesBelow c hc (hbase.concat hname)
    rw [entriesOf, hbase.join_ofNames hname, List.mem_cons, List.mem_append, List.mem_ite_nil_right,
      hbelow, hrest, Prod.mk.injEq]
    -- An entry is the first one itself, below the first one, or among the others.
    constructor
    · intro hvisited
      obtain ⟨rfl, rfl⟩ | ⟨hhere, ns, hns, hfind, hdescends, rfl⟩ | ⟨other, d, ns, hmem, hd⟩ :=
        hvisited
      · exact ⟨name, m, [], List.mem_cons_self, rfl, descends_singleton, rfl⟩
      · refine ⟨name, c, ns, List.mem_cons_self, hfind, ?_, ?_⟩
        · exact (descends_cons hns).mpr ⟨hhere, hdescends⟩
        · rw [← List.append_cons]
      · exact ⟨other, d, ns, List.mem_cons_of_mem _ hmem, hd⟩
    · intro hentries
      obtain ⟨other, d, ns, hmem, hfind, hdescends, rfl⟩ := hentries
      rcases List.mem_cons.mp hmem with heq | hmem
      · obtain ⟨rfl, rfl⟩ := Prod.mk.inj heq
        by_cases hns : ns = []
        · subst hns
          exact Or.inl ⟨rfl, (Option.some.inj hfind).symm⟩
        · obtain ⟨hhere, hbehind⟩ := (descends_cons hns).mp hdescends
          refine Or.inr (Or.inl ⟨hhere, ns, hns, hfind, hbehind, ?_⟩)
          rw [← List.append_cons]
      · exact Or.inr (Or.inr ⟨other, d, ns, hmem, hfind, hdescends, rfl⟩)

end

/-- A visit of all entries goes into every directory. -/
theorem WellFormed.mem_entriesOf_all (h : (directory es).WellFormed) :
    (p, m) ∈ entriesOf (fun _ => true) [] es ↔ ∃ ns, ns ≠ [] ∧
      (directory es).find? ns = some m ∧ p = Path.ofNames ns := by
  have hall : ∀ ns, Descends (fun _ => true) [] ns := fun _ _ _ _ _ => rfl
  refine (mem_entriesBelow (directory es) h (List.forall_mem_nil _)).trans ?_
  simp only [hall, true_and, List.nil_append]

/-! ## No path twice -/

theorem path_of_mem_entriesBelow (h : n.WellFormed) (hbase : AreNames base)
    (hp : p ∈ (n.entriesBelow descend (Path.ofNames base)).map Prod.fst) :
    ∃ ns, ns ≠ [] ∧ AreNames ns ∧ p = Path.ofNames (base ++ ns) := by
  obtain ⟨⟨_, m⟩, hmem, rfl⟩ := List.mem_map.mp hp
  obtain ⟨ns, hns, hfind, -, hpath⟩ := (mem_entriesBelow n h hbase).mp hmem
  exact ⟨ns, hns, h.areNames hfind, hpath⟩

theorem path_of_mem_entriesOf (h : ∀ e ∈ es, IsName e.1 ∧ e.2.WellFormed) (hbase : AreNames base)
    (hp : p ∈ (entriesOf descend (Path.ofNames base) es).map Prod.fst) :
    ∃ name ns, name ∈ es.map Prod.fst ∧ AreNames (name :: ns) ∧
      p = Path.ofNames (base ++ name :: ns) := by
  obtain ⟨⟨_, m⟩, hmem, rfl⟩ := List.mem_map.mp hp
  obtain ⟨name, c, ns, hentry, hfind, -, hpath⟩ := (mem_entriesOf es h hbase).mp hmem
  obtain ⟨hname, hc⟩ := h _ hentry
  exact ⟨name, ns, List.mem_map_of_mem hentry,
    List.forall_mem_cons.mpr ⟨hname, hc.areNames hfind⟩, hpath⟩

mutual

theorem nodup_entriesBelow : ∀ (n : Node), n.WellFormed → ∀ {base : List Text}, AreNames base →
    ((n.entriesBelow descend (Path.ofNames base)).map Prod.fst).Nodup
  | directory es, h, base, hbase => by
    rw [entriesBelow]
    exact nodup_entriesOf es h.uniqueNames (fun e he => ⟨h.isName he, h.entry he⟩) hbase
  | file _, _, _, _ => List.nodup_nil
  | link _, _, _, _ => List.nodup_nil
  | pipe, _, _, _ => List.nodup_nil

theorem nodup_entriesOf : ∀ (es : List (Text × Node)), UniqueNames es →
    (∀ e ∈ es, IsName e.1 ∧ e.2.WellFormed) → ∀ {base : List Text}, AreNames base →
    ((entriesOf descend (Path.ofNames base) es).map Prod.fst).Nodup
  | [], _, _, _, _ => List.nodup_nil
  | (name, c) :: rest, hunique, h, base, hbase => by
    have hname : IsName name := (h _ List.mem_cons_self).1
    have hc : c.WellFormed := (h _ List.mem_cons_self).2
    obtain ⟨hnew, hunique⟩ := List.nodup_cons.mp hunique
    have h' : ∀ e ∈ rest, IsName e.1 ∧ e.2.WellFormed := fun e he => h e (List.mem_cons_of_mem _ he)
    have hbase' := hbase.concat hname
    have hrest := nodup_entriesOf rest hunique h' hbase
    have hbelow := nodup_entriesBelow c hc hbase'
    -- The paths of different rows of names differ, and the other entries have other names.
    have hother : ∀ ns p, AreNames ns → p = Path.ofNames (base ++ name :: ns) →
        p ∉ (entriesOf descend (Path.ofNames base) rest).map Prod.fst := by
      intro ns p hns hpath hp
      subst hpath
      obtain ⟨other, ms, hmem, hms, hpath⟩ := path_of_mem_entriesOf h' hbase hp
      have hrow := hbase.append (List.forall_mem_cons.mpr ⟨hname, hns⟩)
      have heq := hrow.eq_of_ofNames_eq (hbase.append hms) hpath
      obtain ⟨rfl, -⟩ := List.cons.inj (List.append_cancel_left heq)
      exact hnew hmem
    have hbehind : Path.ofNames (base ++ [name]) ∉
        (c.entriesBelow descend (Path.ofNames (base ++ [name]))).map Prod.fst := by
      intro hp
      obtain ⟨ns, hns, hnames, hpath⟩ := path_of_mem_entriesBelow hc hbase' hp
      have heq := hbase'.eq_of_ofNames_eq (hbase'.append hnames) hpath
      exact hns (List.self_eq_append_right.mp heq)
    have hvisited : (if descend (Path.ofNames (base ++ [name])) then
        c.entriesBelow descend (Path.ofNames (base ++ [name])) else []).Sublist
          (c.entriesBelow descend (Path.ofNames (base ++ [name]))) := by
      split
      · exact List.Sublist.refl _
      · exact List.nil_sublist _
    have hpaths := hvisited.map Prod.fst
    rw [entriesOf, hbase.join_ofNames hname, List.map_cons, List.map_append, List.nodup_cons,
      List.nodup_append, List.mem_append, not_or]
    refine ⟨⟨fun hp => hbehind (hpaths.subset hp), hother [] _ (List.forall_mem_nil _) rfl⟩,
      hbelow.sublist hpaths, hrest, ?_⟩
    intro p hp q hq heq
    subst heq
    obtain ⟨ns, -, hnames, hpath⟩ := path_of_mem_entriesBelow hc hbase' (hpaths.subset hp)
    exact hother ns p hnames (by rw [hpath, ← List.append_cons]) hq

end

/-! ## Trees that differ in the order of entries -/

/-- The node without what is below it. -/
def alone : Node → Node
  | directory _ => empty
  | n => n

/-- The two trees have the same nodes at the same names. Their directories may list them in
different orders. -/
def SameTree (n m : Node) : Prop := ∀ ns, (n.find? ns).map alone = (m.find? ns).map alone

theorem find?_file_iff {data : FileData} :
    n.find? ns = some (file data) ↔ (n.find? ns).map alone = some (file data) := by
  cases n.find? ns with
  | none => simp
  | some c => cases c <;> simp [alone, empty]

theorem SameTree.find?_file (h : SameTree n m) {data : FileData} :
    n.find? ns = some (file data) ↔ m.find? ns = some (file data) := by
  rw [find?_file_iff, h ns, ← find?_file_iff]

end Node

/-! ## The files of a walk -/

/-- The path leads to a directory with these entries. -/
structure FileSystem.HasTree (fs : FileSystem) (root : Text) (es : List (Text × Node)) : Prop where
  lists : fs.listDirectory root = .ok es
  wellFormed : (Node.directory es).WellFormed

/-- The path leads to a directory with these entries, and the system takes the paths of all that is
below it. -/
structure FileSystem.Walkable (fs : FileSystem) (root : Text) (es : List (Text × Node)) : Prop
    extends fs.HasTree root es where
  reach : ∀ ns n, ns ≠ [] → (Node.directory es).find? ns = some n →
    WalkResult.reachable root (Path.ofNames ns)

theorem FileSystem.HasTree.isDirectory {fs : FileSystem} {root : Text} {es : List (Text × Node)}
    (h : fs.HasTree root es) : fs.isDirectory root := by
  have hlists := h.lists
  rw [listDirectory] at hlists
  rw [FileSystem.isDirectory]
  cases hnode : fs.node true root with
  | error e => simp [hnode, bind, Except.bind] at hlists
  | ok n =>
    cases n with
    | directory => rfl
    | file | link | pipe =>
      simp [hnode, bind, Except.bind, throw, throwThe, MonadExceptOf.throw] at hlists

theorem FileSystem.HasTree.walkable {fs : FileSystem} {root : Text} {es : List (Text × Node)}
    (h : fs.HasTree root es)
    (hreach : ∀ e ∈ Node.entriesOf (fun _ => true) [] es, WalkResult.reachable root e.1) :
    fs.Walkable root es where
  toHasTree := h
  reach ns _ hns hfind := hreach _ (h.wellFormed.mem_entriesOf_all.mpr ⟨ns, hns, hfind, rfl⟩)

theorem FileEntry.path_keyed :
    Keyed (fun a b : FileEntry => decide (a.path < b.path)) FileEntry.path (· < ·) where
  strict := inferInstance
  iff a b := by simp

namespace WalkResult

variable {fs fs' : FileSystem} {root : Text} {es es' : List (Text × Node)} {rules : IgnoreRules}

/-- The entry of a regular file in the listing of a walk from `root`. -/
def entryOf (root : Text) (ns : List Text) (data : FileData) : FileEntry :=
  ⟨Path.ofNames ns, Path.join root (Path.ofNames ns), data.size,
    FileEntry.isEligible (Path.ofNames ns)⟩

/-- The file is not excluded, and no directory is in which it stands. -/
def Included (rules : IgnoreRules) (ns : List Text) : Prop :=
  (∀ above, above ≠ [] → above <+: ns → above ≠ ns →
    rules.excludes (Path.ofNames above) true = false) ∧
  rules.excludes (Path.ofNames ns) false = false

theorem ofTree_eq (h : fs.HasTree root es) (rules : IgnoreRules) :
    ofTree fs rules root =
      ⟨sortFiles ((Node.entriesOf (descends rules root) [] es).filterMap (file? rules root)),
        (Node.entriesOf (descends rules root) [] es).filterMap (note? root)⟩ := by
  rw [ofTree, h.lists]

theorem mem_visited (h : fs.HasTree root es) {descend : Text → Bool} {p : Text} {n : Node} :
    (p, n) ∈ Node.entriesOf descend [] es ↔ ∃ ns, ns ≠ [] ∧
      (Node.directory es).find? ns = some n ∧ Node.Descends descend [] ns ∧
        p = Path.ofNames ns :=
  Node.mem_entriesBelow _ h.wellFormed (List.forall_mem_nil _)

theorem nodup_visited (h : fs.HasTree root es) (descend : Text → Bool) :
    ((Node.entriesOf descend [] es).map Prod.fst).Nodup :=
  Node.nodup_entriesBelow _ h.wellFormed (List.forall_mem_nil _)

theorem pairwise_path_ne {l : List (Text × Node)} {f : Text × Node → Option FileEntry}
    (hf : ∀ e found, f e = some found → found.path = e.1) (hl : (l.map Prod.fst).Nodup) :
    (l.filterMap f).Pairwise fun a b => a.path ≠ b.path := by
  rw [List.Nodup, List.pairwise_map] at hl
  rw [List.pairwise_filterMap]
  refine hl.imp fun {e e'} hne found hfound found' hfound' => ?_
  rwa [hf e found hfound, hf e' found' hfound']

/-- Whatever stands above an entry can be looked at, so only rules keep the walk from it. -/
theorem descends_iff (h : fs.Walkable root es) {ns : List Text} {n : Node}
    (hn : (Node.directory es).find? ns = some n) :
    Node.Descends (descends rules root) [] ns ↔ ∀ above, above ≠ [] → above <+: ns → above ≠ ns →
      rules.excludes (Path.ofNames above) true = false := by
  have hreach : ∀ above, above ≠ [] → above <+: ns → reachable root (Path.ofNames above) := by
    intro above hne habove
    obtain ⟨rest, rfl⟩ := habove
    rw [Node.find?_append, Option.bind_eq_some_iff] at hn
    obtain ⟨c, hc, -⟩ := hn
    exact h.reach above c hne hc
  refine forall_congr' fun above => forall_congr' fun hne => forall_congr' fun hprefix =>
    forall_congr' fun _ => ?_
  rw [List.nil_append, descends, hreach above hne hprefix]
  simp

/-- What a walk lists of any tree, also of one with paths that are too long. -/
theorem mem_listing (h : fs.HasTree root es) {e : FileEntry} :
    e ∈ (ofTree fs rules root).files ↔ ∃ ns data,
      (Node.directory es).find? ns = some (.file data) ∧
        Node.Descends (descends rules root) [] ns ∧ reachable root (Path.ofNames ns) ∧
        rules.excludes (Path.ofNames ns) false = false ∧ e = entryOf root ns data := by
  rw [ofTree_eq h, sortFiles, List.mem_mergeSort, List.mem_filterMap]
  constructor
  · intro hlisted
    obtain ⟨⟨p, n⟩, hvisited, hfile⟩ := hlisted
    obtain ⟨ns, hns, hfind, hdescends, rfl⟩ := (mem_visited h).mp hvisited
    cases n with
    | file data =>
      obtain ⟨hcond, rfl⟩ : (reachable root (Path.ofNames ns) ∧
          rules.excludes (Path.ofNames ns) false = false) ∧ entryOf root ns data = e := by
        simpa [file?, entryOf] using hfile
      exact ⟨ns, data, hfind, hdescends, hcond.1, hcond.2, rfl⟩
    | directory | link | pipe => contradiction
  · intro hfile
    obtain ⟨ns, data, hfind, hdescends, hreach, hself, rfl⟩ := hfile
    have hns := Node.ne_nil_of_find?_file hfind
    refine ⟨(Path.ofNames ns, .file data), (mem_visited h).mpr ⟨ns, hns, hfind, hdescends, rfl⟩, ?_⟩
    simp [file?, entryOf, hreach, hself]

/-- A walk lists the regular files that are included, and no others. -/
theorem mem_files (h : fs.Walkable root es) {e : FileEntry} :
    e ∈ (ofTree fs rules root).files ↔ ∃ ns data,
      (Node.directory es).find? ns = some (.file data) ∧ Included rules ns ∧
        e = entryOf root ns data := by
  rw [mem_listing h.toHasTree]
  constructor
  · intro hlisted
    obtain ⟨ns, data, hfind, hdescends, -, hself, rfl⟩ := hlisted
    exact ⟨ns, data, hfind, ⟨(descends_iff h hfind).mp hdescends, hself⟩, rfl⟩
  · intro hfile
    obtain ⟨ns, data, hfind, ⟨habove, hself⟩, rfl⟩ := hfile
    have hns := Node.ne_nil_of_find?_file hfind
    exact ⟨ns, data, hfind, (descends_iff h hfind).mpr habove, h.reach ns _ hns hfind, hself, rfl⟩

theorem pairwise_files (h : fs.HasTree root es) (rules : IgnoreRules) :
    (ofTree fs rules root).files.Pairwise fun a b => a.path ≠ b.path := by
  have hpath : ∀ e found, file? rules root e = some found → found.path = e.1 := by
    intro ⟨p, n⟩ found hfound
    cases n with
    | file data =>
      simp only [file?] at hfound
      split at hfound
      · exact (congrArg FileEntry.path (Option.some.inj hfound)).symm
      · contradiction
    | directory | link | pipe => contradiction
  have hne := pairwise_path_ne hpath (nodup_visited h (descends rules root))
  rw [ofTree_eq h]
  exact (List.mergeSort_perm _ _).symm.pairwise hne fun hab => Ne.symm hab

/-- A listing is in the strict order of the paths, even one of a tree with paths that are too long. -/
theorem sorted_listing (h : fs.HasTree root es) (rules : IgnoreRules) :
    (ofTree fs rules root).files.Pairwise fun a b => a.path < b.path := by
  have hsorted : (ofTree fs rules root).files.Pairwise fun a b => !(b.path < a.path) := by
    rw [ofTree_eq h]
    exact List.pairwise_mergeSort FileEntry.path_keyed.trans FileEntry.path_keyed.total _
  refine (hsorted.and (pairwise_files h rules)).imp fun {a b} hab => ?_
  rcases Text.lt_trichotomous a.path b.path with hlt | heq | hgt
  · exact hlt
  · exact absurd heq hab.2
  · simp [hgt] at hab

theorem sorted_files (h : fs.Walkable root es) (rules : IgnoreRules) :
    (ofTree fs rules root).files.Pairwise fun a b => a.path < b.path :=
  sorted_listing h.toHasTree rules

theorem notes_eq_nil (h : fs.Walkable root es) (rules : IgnoreRules) :
    (ofTree fs rules root).notes = [] := by
  rw [ofTree_eq h.toHasTree, List.filterMap_eq_nil_iff]
  intro ⟨p, n⟩ hvisited
  obtain ⟨ns, hns, hfind, -, rfl⟩ := (mem_visited h.toHasTree).mp hvisited
  rw [note?, if_pos (h.reach ns n hns hfind)]

/-- A walk does not depend on the order in which directories list their entries. -/
theorem ofTree_congr (h : fs.Walkable root es) (h' : fs'.Walkable root es')
    (hsame : Node.SameTree (.directory es) (.directory es')) (rules : IgnoreRules) :
    ofTree fs rules root = ofTree fs' rules root := by
  have hmem : ∀ e, e ∈ (ofTree fs rules root).files ↔ e ∈ (ofTree fs' rules root).files := by
    intro e
    rw [mem_files h, mem_files h']
    simp only [hsame.find?_file]
  have hnodup : ∀ {fs : FileSystem} {es}, fs.Walkable root es →
      (ofTree fs rules root).files.Nodup := fun h =>
    (pairwise_files h.toHasTree rules).imp fun hne heq => hne (congrArg FileEntry.path heq)
  have hperm := (List.perm_ext_iff_of_nodup (hnodup h) (hnodup h')).mpr hmem
  have hfiles : (ofTree fs rules root).files = (ofTree fs' rules root).files :=
    hperm.eq_of_pairwise (fun _ _ _ _ hlt hgt => absurd hgt (List.lt_asymm hlt))
      (sorted_files h rules) (sorted_files h' rules)
  have hnotes := (notes_eq_nil h rules).trans (notes_eq_nil h' rules).symm
  calc ofTree fs rules root
      = ⟨(ofTree fs rules root).files, (ofTree fs rules root).notes⟩ := rfl
    _ = ⟨(ofTree fs' rules root).files, (ofTree fs' rules root).notes⟩ := by rw [hfiles, hnotes]
    _ = ofTree fs' rules root := rfl

/-- Nothing that is listed is behind a link. -/
theorem not_behind_link (h : fs.Walkable root es) {ns : List Text} {target : Text}
    (hlink : (Node.directory es).find? ns = some (.link target)) {e : FileEntry}
    (he : e ∈ (ofTree fs rules root).files) : ¬Path.ofNames ns ++ [Byte.slash] <+: e.path := by
  intro hbehind
  obtain ⟨ms, data, hfile, -, rfl⟩ := (mem_files h).mp he
  obtain ⟨rest, rfl⟩ := (h.wellFormed.areNames hlink).inside_of_path
    (h.wellFormed.areNames hfile) hbehind
  rw [Node.find?_append, hlink, Option.bind_some] at hfile
  cases rest with
  | nil => simp [Node.find?] at hfile
  | cons name rest =>
    obtain ⟨_, _, ⟨⟩, -⟩ := Node.find?_cons_eq_some hfile

/-! ## All files -/

theorem mem_allFiles (h : fs.HasTree root es) {e : FileEntry} :
    e ∈ allFiles fs root ↔ ∃ ns data, (Node.directory es).find? ns = some (.file data) ∧
      reachable root (Path.ofNames ns) ∧ e = { entryOf root ns data with eligible := false } := by
  rw [allFiles, h.lists, List.mem_filterMap]
  constructor
  · intro hlisted
    obtain ⟨⟨p, n⟩, hvisited, hfile⟩ := hlisted
    obtain ⟨ns, -, hfind, rfl⟩ := h.wellFormed.mem_entriesOf_all.mp hvisited
    cases n with
    | file data =>
      by_cases hreach : reachable root (Path.ofNames ns)
      · simp only [hreach, if_true, Option.some.injEq] at hfile
        exact ⟨ns, data, hfind, hreach, hfile.symm⟩
      · simp [hreach] at hfile
    | directory | link | pipe => contradiction
  · intro hfile
    obtain ⟨ns, data, hfind, hreach, rfl⟩ := hfile
    have hns := Node.ne_nil_of_find?_file hfind
    refine ⟨(Path.ofNames ns, .file data),
      h.wellFormed.mem_entriesOf_all.mpr ⟨ns, hns, hfind, rfl⟩, ?_⟩
    simp [hreach, entryOf]

/-- If the system takes all paths, there is an entry for every regular file. -/
theorem mem_allFiles_of_file (h : fs.Walkable root es) {ns : List Text} {data : FileData}
    (hfile : (Node.directory es).find? ns = some (.file data)) :
    { entryOf root ns data with eligible := false } ∈ allFiles fs root := by
  have hns := Node.ne_nil_of_find?_file hfile
  exact (mem_allFiles h.toHasTree).mpr ⟨ns, data, hfile, h.reach ns _ hns hfile, rfl⟩

theorem pairwise_allFiles (h : fs.HasTree root es) :
    (allFiles fs root).Pairwise fun a b => a.path ≠ b.path := by
  rw [allFiles, h.lists]
  refine pairwise_path_ne ?_ (nodup_visited h fun _ => true)
  intro ⟨p, n⟩ found hfound
  cases n with
  | file data =>
    simp only at hfound
    split at hfound
    · exact (congrArg FileEntry.path (Option.some.inj hfound)).symm
    · contradiction
  | directory | link | pipe => contradiction

/-- The rule that includes everything. -/
def includeAll : IgnoreRules := IgnoreRules.parse "!*".ascii

theorem excludes_includeAll (path : Text) (isDirectory : Bool) :
    includeAll.excludes path isDirectory = false := by
  have hrule : includeAll = [⟨"*".ascii, true, false, false⟩] := by decide
  have hglob : ∀ subject, Glob.accepts false "*".ascii subject = true := fun _ => rfl
  simp [hrule, IgnoreRules.excludes, IgnoreRules.decide?, IgnoreRule.applies, hglob]

/-- The path and the size of a file. -/
def pathAndSize (e : FileEntry) : Text × Nat := (e.path, e.size)

theorem perm_includeAll (h : fs.Walkable root es) :
    ((ofTree fs includeAll root).files.map pathAndSize).Perm
      ((allFiles fs root).map pathAndSize) := by
  have hnodup : ∀ {l : List FileEntry}, (l.Pairwise fun a b => a.path ≠ b.path) →
      (l.map pathAndSize).Nodup := fun hl =>
    List.pairwise_map.mpr (hl.imp fun hne heq => hne (congrArg Prod.fst heq))
  rw [List.perm_ext_iff_of_nodup (hnodup (pairwise_files h.toHasTree includeAll))
    (hnodup (pairwise_allFiles h.toHasTree))]
  intro found
  rw [List.mem_map, List.mem_map]
  constructor
  · intro hlisted
    obtain ⟨e, he, rfl⟩ := hlisted
    obtain ⟨ns, data, hfind, -, rfl⟩ := (mem_files h).mp he
    exact ⟨_, mem_allFiles_of_file h hfind, rfl⟩
  · intro hall
    obtain ⟨e, he, rfl⟩ := hall
    obtain ⟨ns, data, hfind, -, rfl⟩ := (mem_allFiles h.toHasTree).mp he
    have hincluded : Included includeAll ns :=
      ⟨fun _ _ _ _ => excludes_includeAll _ _, excludes_includeAll _ _⟩
    exact ⟨_, (mem_files h).mpr ⟨ns, data, hfind, hincluded, rfl⟩, rfl⟩

/-- A walk lists the regular files that can be reached through directories, if neither they nor any
directory above them are excluded: each once, with its size, in the order of the paths. Nothing
behind a link is listed, the order in which directories list their entries does not matter, and a
walk lists no more than all files, and all of them if a rule includes everything. -/
theorem ofTree_lists (h : fs.Walkable root es) (rules : IgnoreRules) :
    ((ofTree fs rules root).files.Pairwise fun a b => a.path < b.path) ∧
    (∀ e, e ∈ (ofTree fs rules root).files ↔ ∃ ns data,
      (Node.directory es).find? ns = some (.file data) ∧
        (∀ above, above ≠ [] → above <+: ns → above ≠ ns →
          rules.excludes (Path.ofNames above) true = false) ∧
        rules.excludes (Path.ofNames ns) false = false ∧ e = entryOf root ns data) ∧
    (∀ ns target, (Node.directory es).find? ns = some (.link target) →
      ∀ e ∈ (ofTree fs rules root).files, ¬Path.ofNames ns ++ [Byte.slash] <+: e.path) ∧
    (∀ fs' es', fs'.Walkable root es' → Node.SameTree (.directory es) (.directory es') →
      ofTree fs' rules root = ofTree fs rules root) ∧
    (∀ e ∈ (ofTree fs rules root).files, { e with eligible := false } ∈ allFiles fs root) ∧
    ((ofTree fs (IgnoreRules.parse "!*".ascii) root).files.map pathAndSize).Perm
      ((allFiles fs root).map pathAndSize) := by
  refine ⟨sorted_files h rules, fun e => ?_, ?_, ?_, ?_, perm_includeAll h⟩
  · rw [mem_files h]
    simp only [Included, and_assoc]
  · exact fun ns target hlink e he => not_behind_link h hlink he
  · exact fun fs' es' h' hsame => (ofTree_congr h h' hsame rules).symm
  · intro e he
    obtain ⟨ns, data, hfind, -, rfl⟩ := (mem_files h).mp he
    exact mem_allFiles_of_file h hfind

/-! ## A file in a skipped directory, and one behind a link -/

/-- The file `t.py` stands behind a link as well, and `keep.js` in a directory that is skipped. -/
def sampleEntries : List (Text × Node) :=
  [("src".ascii, .directory [("tests".ascii,
      .directory [("t.py".ascii, .file ⟨"x".ascii, 2, false⟩)])]),
   ("node_modules".ascii, .directory [("keep.js".ascii, .file ⟨[], 0, true⟩)]),
   ("link".ascii, .link "src".ascii), ("pipe".ascii, .pipe)]

def sampleFiles : FileSystem := ⟨.directory [("w".ascii, .directory sampleEntries)], []⟩

/-- The file is included again, but not the directory in which it stands. -/
def sampleRules : IgnoreRules := IgnoreRules.parse "!tests
!keep.js".ascii

theorem sample_wellFormed : (Node.directory sampleEntries).WellFormed := by
  have htests : (Node.directory [("t.py".ascii, .file ⟨"x".ascii, 2, false⟩)]).WellFormed :=
    Node.wellFormed_directory (by simp [Node.UniqueNames])
      (List.forall_mem_singleton.mpr ⟨by decide, Node.wellFormed_leaf (by simp)⟩)
  have hsrc : (Node.directory [("tests".ascii,
      .directory [("t.py".ascii, .file ⟨"x".ascii, 2, false⟩)])]).WellFormed :=
    Node.wellFormed_directory (by simp [Node.UniqueNames])
      (List.forall_mem_singleton.mpr ⟨by decide, htests⟩)
  have hmodules : (Node.directory [("keep.js".ascii, .file ⟨[], 0, true⟩)]).WellFormed :=
    Node.wellFormed_directory (by simp [Node.UniqueNames])
      (List.forall_mem_singleton.mpr ⟨by decide, Node.wellFormed_leaf (by simp)⟩)
  refine Node.wellFormed_directory (by unfold Node.UniqueNames; decide) ?_
  simp only [sampleEntries, List.forall_mem_cons]
  exact ⟨⟨by decide, hsrc⟩, ⟨by decide, hmodules⟩, ⟨by decide, Node.wellFormed_leaf (by simp)⟩,
    ⟨by decide, Node.wellFormed_leaf (by simp)⟩, List.forall_mem_nil _⟩

theorem sample_walkable : sampleFiles.Walkable "w".ascii sampleEntries :=
  FileSystem.HasTree.walkable ⟨by cbv, sample_wellFormed⟩ (by decide)

theorem ofTree_lists_sample :
    entryOf "w".ascii ["src".ascii, "tests".ascii, "t.py".ascii] ⟨"x".ascii, 2, false⟩ ∈
      (ofTree sampleFiles sampleRules "w".ascii).files ∧
    entryOf "w".ascii ["node_modules".ascii, "keep.js".ascii] ⟨[], 0, true⟩ ∉
      (ofTree sampleFiles sampleRules "w".ascii).files ∧
    ∀ e ∈ (ofTree sampleFiles sampleRules "w".ascii).files, ¬"link/".ascii <+: e.path := by
  obtain ⟨-, hmem, hlinks, -⟩ := ofTree_lists sample_walkable sampleRules
  refine ⟨(hmem _).mpr ⟨_, _, rfl, ?_, by decide, rfl⟩, ?_, hlinks ["link".ascii] "src".ascii rfl⟩
  · intro above hne hprefix hproper
    have hexcludes : ∀ above ∈ ["src".ascii, "tests".ascii, "t.py".ascii].inits, above ≠ [] →
        above ≠ ["src".ascii, "tests".ascii, "t.py".ascii] →
          sampleRules.excludes (Path.ofNames above) true = false := by decide
    exact hexcludes above ((List.mem_inits _ _).mpr hprefix) hne hproper
  · intro he
    obtain ⟨ns, data, hfind, habove, -, heq⟩ := (hmem _).mp he
    have hkeep : AreNames ["node_modules".ascii, "keep.js".ascii] := by unfold AreNames; decide
    obtain rfl := hkeep.eq_of_ofNames_eq (sample_wellFormed.areNames hfind)
      (congrArg FileEntry.path heq)
    have hexcluded := habove ["node_modules".ascii] (by simp) (by simp) (by simp)
    exact absurd hexcluded (by decide)

end WalkResult

end Triage
