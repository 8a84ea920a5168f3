import Triage.FileSystem.Node

/-!
Laws of trees of files.

What is set at a row of names is found there (`find?_set_self`) and nowhere else
(`find?_set_of_apart`); the last of several nodes set at one place stays (`set_set`), and nodes set
at places apart from each other may be set in either order (`set_comm`). A node that only gained
entries is a growth of what it was (`Node.Grows`).
-/

namespace Triage

namespace Node

/-! ## Entries -/

/-- No two entries have one name. -/
def UniqueNames (es : List (Text × Node)) : Prop := (es.map Prod.fst).Nodup

variable {name other : Text} {v w : Option Node} {es : List (Text × Node)}

theorem setEntry_cons_self (name : Text) (v : Option Node) (c : Node) (es : List (Text × Node)) :
    setEntry name v ((name, c) :: es) = (v.map fun n => (name, n)).toList ++ es := by
  cases v <;> simp [setEntry]

theorem setEntry_cons_of_ne (h : other ≠ name) (v : Option Node) (c : Node)
    (es : List (Text × Node)) :
    setEntry name v ((other, c) :: es) = (other, c) :: setEntry name v es := by
  simp [setEntry, h]

theorem lookup_setEntry_some (name : Text) (n : Node) (es : List (Text × Node)) :
    (setEntry name (some n) es).lookup name = some n := by
  induction es with
  | nil => simp [setEntry]
  | cons e es ih =>
    obtain ⟨x, c⟩ := e
    by_cases h : x = name
    · simp [setEntry, h]
    · have hne : (name == x) = false := beq_eq_false_iff_ne.mpr (Ne.symm h)
      simp [setEntry, h, List.lookup_cons, hne, ih]

theorem lookup_setEntry_of_ne (h : other ≠ name) :
    (setEntry name v es).lookup other = es.lookup other := by
  induction es with
  | nil =>
    cases v with
    | none => rfl
    | some n => simp [setEntry, List.lookup_cons, beq_eq_false_iff_ne.mpr h]
  | cons e es ih =>
    obtain ⟨x, c⟩ := e
    by_cases hx : x = name
    · have hne : (other == x) = false := beq_eq_false_iff_ne.mpr (hx ▸ h)
      have hne' : (other == name) = false := beq_eq_false_iff_ne.mpr h
      cases v with
      | none => simp [setEntry, hx, List.lookup_cons, hne']
      | some n => simp [setEntry, hx, List.lookup_cons, hne']
    · simp only [setEntry, beq_iff_eq, hx, if_false, List.lookup_cons, ih]

theorem lookup_eq_none_iff : es.lookup name = none ↔ name ∉ es.map Prod.fst := by
  rw [List.lookup_eq_none_iff, List.mem_map]
  constructor
  · rintro h ⟨e, he, rfl⟩
    simpa using h e he
  · intro h e he
    simpa using fun heq : name = e.1 => h ⟨e, he, heq.symm⟩

theorem mem_of_lookup {c : Node} (h : es.lookup name = some c) : (name, c) ∈ es := by
  obtain ⟨before, after, rfl, -⟩ := List.lookup_eq_some_iff.mp h
  exact List.mem_append_right _ List.mem_cons_self

theorem lookup_of_mem (hes : UniqueNames es) {c : Node} (h : (name, c) ∈ es) :
    es.lookup name = some c := by
  obtain ⟨before, after, rfl⟩ := List.append_of_mem h
  rw [List.lookup_eq_some_iff]
  refine ⟨before, after, rfl, fun e he => ?_⟩
  rw [UniqueNames, List.map_append, List.nodup_append] at hes
  have hne := hes.2.2 e.1 (List.mem_map_of_mem he) name (by simp)
  simpa using Ne.symm hne

/-- Removing what is not there changes nothing. -/
theorem setEntry_none_of_lookup (h : es.lookup name = none) : setEntry name none es = es := by
  induction es with
  | nil => rfl
  | cons e es ih =>
    obtain ⟨x, c⟩ := e
    rw [lookup_eq_none_iff] at h ih
    obtain ⟨hx, hes⟩ := not_or.mp fun hmem => h (List.mem_cons.mpr hmem)
    rw [setEntry_cons_of_ne (Ne.symm hx), ih hes]

theorem setEntry_setEntry (name : Text) (n : Node) (v : Option Node) (es : List (Text × Node)) :
    setEntry name v (setEntry name (some n) es) = setEntry name v es := by
  induction es with
  | nil => cases v <;> simp [setEntry]
  | cons e es ih =>
    obtain ⟨x, c⟩ := e
    by_cases h : x = name
    · simp [setEntry, h]
    · simp [setEntry, h, ih]

theorem setEntry_self {n : Node} (h : es.lookup name = some n) :
    setEntry name (some n) es = es := by
  induction es with
  | nil => contradiction
  | cons e es ih =>
    obtain ⟨x, c⟩ := e
    by_cases hx : x = name
    · subst hx
      obtain rfl : c = n := by simpa using h
      exact setEntry_cons_self x (some c) c es
    · rw [List.lookup_cons, beq_eq_false_iff_ne.mpr (Ne.symm hx)] at h
      rw [setEntry_cons_of_ne hx, ih h]

/-- Both names must be there: new entries would stand at the end in the order they came. -/
theorem setEntry_comm {n m : Node} (h : other ≠ name) (hn : (es.lookup name).isSome)
    (ho : (es.lookup other).isSome) :
    setEntry name (some n) (setEntry other (some m) es) =
      setEntry other (some m) (setEntry name (some n) es) := by
  induction es with
  | nil => contradiction
  | cons e es ih =>
    obtain ⟨x, c⟩ := e
    by_cases hx : x = name
    · have hne : ¬x = other := fun e => h (e.symm.trans hx)
      have hne' : ¬name = other := Ne.symm h
      simp [setEntry, hx, hne']
    · by_cases hx' : x = other
      · simp [setEntry, hx', h]
      · have hn' : (es.lookup name).isSome := by
          rwa [List.lookup_cons, beq_eq_false_iff_ne.mpr (Ne.symm hx)] at hn
        have ho' : (es.lookup other).isSome := by
          rwa [List.lookup_cons, beq_eq_false_iff_ne.mpr (Ne.symm hx')] at ho
        simp [setEntry, hx, hx', ih hn' ho']

theorem mem_setEntry {e : Text × Node} (h : e ∈ setEntry name v es) :
    e ∈ es ∨ ∃ n, v = some n ∧ e = (name, n) := by
  induction es with
  | nil =>
    cases v with
    | none => contradiction
    | some n => exact Or.inr ⟨n, rfl, List.mem_singleton.mp h⟩
  | cons c es ih =>
    obtain ⟨x, c⟩ := c
    by_cases hx : x = name
    · subst hx
      rw [setEntry_cons_self, List.mem_append] at h
      rcases h with h | h
      · obtain ⟨n, hn, rfl⟩ := Option.map_eq_some_iff.mp (Option.mem_toList.mp h)
        exact Or.inr ⟨n, hn, rfl⟩
      · exact Or.inl (List.mem_cons_of_mem _ h)
    · rw [setEntry_cons_of_ne hx] at h
      rcases List.mem_cons.mp h with rfl | h
      · exact Or.inl List.mem_cons_self
      · exact (ih h).imp_left (List.mem_cons_of_mem _)

theorem mem_names_setEntry (h : other ∈ (setEntry name v es).map Prod.fst) :
    other = name ∨ other ∈ es.map Prod.fst := by
  obtain ⟨e, he, rfl⟩ := List.mem_map.mp h
  rcases mem_setEntry he with he | ⟨n, -, rfl⟩
  · exact Or.inr (List.mem_map_of_mem he)
  · exact Or.inl rfl

theorem uniqueNames_setEntry (h : UniqueNames es) (name : Text) (v : Option Node) :
    UniqueNames (setEntry name v es) := by
  induction es with
  | nil => cases v <;> simp [UniqueNames, setEntry]
  | cons e es ih =>
    obtain ⟨x, c⟩ := e
    obtain ⟨hx, hes⟩ := List.nodup_cons.mp h
    by_cases heq : x = name
    · subst heq
      rw [setEntry_cons_self]
      cases v with
      | none => exact hes
      | some n => exact h
    · rw [setEntry_cons_of_ne heq]
      exact List.nodup_cons.mpr ⟨fun hmem => (mem_names_setEntry hmem).elim heq hx, ih hes⟩

theorem UniqueNames.lookup_setEntry_none (h : UniqueNames es) (name : Text) :
    (setEntry name none es).lookup name = none := by
  induction es with
  | nil => rfl
  | cons e es ih =>
    obtain ⟨x, c⟩ := e
    obtain ⟨hx, hes⟩ := List.nodup_cons.mp h
    by_cases heq : x = name
    · subst heq
      rw [setEntry_cons_self]
      exact lookup_eq_none_iff.mpr hx
    · rw [setEntry_cons_of_ne heq, List.lookup_cons, beq_eq_false_iff_ne.mpr (Ne.symm heq)]
      exact ih hes

/-- A new entry stands at the end. -/
theorem setEntry_of_lookup (h : es.lookup name = none) (n : Node) :
    setEntry name (some n) es = es ++ [(name, n)] := by
  induction es with
  | nil => rfl
  | cons e es ih =>
    obtain ⟨x, c⟩ := e
    rw [lookup_eq_none_iff] at h ih
    obtain ⟨hx, hes⟩ := not_or.mp fun hmem => h (List.mem_cons.mpr hmem)
    rw [setEntry_cons_of_ne (Ne.symm hx), ih hes, List.cons_append]

theorem setEntry_append (h : es.lookup name = none) (v : Option Node) (more : List (Text × Node)) :
    setEntry name v (es ++ more) = es ++ setEntry name v more := by
  induction es with
  | nil => rfl
  | cons e es ih =>
    obtain ⟨x, c⟩ := e
    rw [lookup_eq_none_iff] at h ih
    obtain ⟨hx, hes⟩ := not_or.mp fun hmem => h (List.mem_cons.mpr hmem)
    rw [List.cons_append, setEntry_cons_of_ne (Ne.symm hx), ih hes, List.cons_append]

/-- An entry that is replaced keeps its place. -/
theorem names_setEntry (h : name ∈ es.map Prod.fst) (n : Node) :
    (setEntry name (some n) es).map Prod.fst = es.map Prod.fst := by
  induction es with
  | nil => contradiction
  | cons e es ih =>
    obtain ⟨x, c⟩ := e
    by_cases hx : x = name
    · subst hx
      rw [setEntry_cons_self]
      rfl
    · rw [setEntry_cons_of_ne hx, List.map_cons, List.map_cons,
        ih ((List.mem_cons.mp h).resolve_left (Ne.symm hx))]

/-! ## Nodes at rows of names -/

variable {a b p q : List Text} {n m : Node}

theorem find?_append (n : Node) (a b : List Text) :
    n.find? (a ++ b) = (n.find? a).bind fun c => c.find? b := by
  induction a generalizing n with
  | nil => rfl
  | cons x a ih =>
    simp only [List.cons_append, find?]
    cases n.child? x with
    | none => rfl
    | some c => exact ih c

/-- The rows of names that reach no node below a missing entry, or below what is no directory. -/
theorem find?_cons_eq_some {x : Text} (h : n.find? (x :: p) = some m) :
    ∃ es c, n = directory es ∧ es.lookup x = some c ∧ c.find? p = some m := by
  simp only [find?, Option.bind_eq_some_iff] at h
  obtain ⟨c, hc, hm⟩ := h
  cases n with
  | directory es => exact ⟨es, c, rfl, hc, hm⟩
  | file | link | pipe => contradiction

theorem find?_cons_directory {x : Text} {c : Node} (h : es.lookup x = some c) :
    (directory es).find? (x :: p) = c.find? p := by
  simp [find?, child?, entries, h]

theorem set_cons {x : Text} {c : Node} (h : es.lookup x = some c) (v : Node) (p : List Text) :
    set (some v) (x :: p) (directory es) =
      directory (setEntry x (some (set (some v) p c)) es) := by
  cases p with
  | nil => rfl
  | cons y p => simp [set, h]

/-- No directory in the tree has two entries of one name. -/
def Unambiguous (n : Node) : Prop := ∀ p es, n.find? p = some (directory es) → UniqueNames es

theorem unambiguous_of_entries (hes : UniqueNames n.entries)
    (h : ∀ e ∈ n.entries, e.2.Unambiguous) : n.Unambiguous := by
  intro p es hp
  cases p with
  | nil =>
    obtain rfl : n = directory es := by simpa [find?] using hp
    exact hes
  | cons x p =>
    obtain ⟨es', c, rfl, hc, hfind⟩ := find?_cons_eq_some hp
    exact h _ (mem_of_lookup hc) p es hfind

/-- What is set below an entry of a directory changes that entry alone. -/
theorem exists_set_cons (v : Option Node) (name : Text) (rest : List Text)
    (es : List (Text × Node)) :
    ∃ es', set v (name :: rest) (directory es) = directory es' ∧
      (∀ other, other ≠ name → es'.lookup other = es.lookup other) ∧
      (rest ≠ [] → es'.lookup name = (es.lookup name).map (set v rest)) := by
  cases rest with
  | nil => exact ⟨_, rfl, fun other hother => lookup_setEntry_of_ne hother, fun h => absurd rfl h⟩
  | cons x rest =>
    cases hentry : es.lookup name with
    | none => exact ⟨es, by simp [set, hentry], fun _ _ => rfl, fun _ => hentry⟩
    | some c =>
      refine ⟨_, by simp only [set, hentry]; rfl, ?_, fun _ => lookup_setEntry_some _ _ _⟩
      exact fun other hother => lookup_setEntry_of_ne hother

/-- What is set below a row of names changes the node that the row leads to. -/
theorem set_append (h : n.find? a = some m) (hb : b ≠ [])
    (v : Option Node) : n.set v (a ++ b) = n.set (some (m.set v b)) a := by
  induction a generalizing n with
  | nil =>
    obtain rfl := Option.some.inj h
    rfl
  | cons x a ih =>
    obtain ⟨es, c, rfl, hc, hfind⟩ := find?_cons_eq_some h
    rw [set_cons hc, ← ih hfind]
    obtain ⟨y, rest, hrest⟩ := List.exists_cons_of_ne_nil (List.append_ne_nil_of_right_ne_nil a hb)
    rw [List.cons_append, hrest]
    simp [set, hc]

/-- What is set at a row of names changes an entry of the directory that the row before its last
name leads to. -/
theorem set_concat (h : n.find? p = some (directory es)) (name : Text) (v : Option Node) :
    n.set v (p ++ [name]) = n.set (some (directory (setEntry name v es))) p := by
  induction p generalizing n with
  | nil =>
    obtain rfl : n = directory es := by simpa [find?] using h
    rfl
  | cons x p ih =>
    obtain ⟨es', c, rfl, hc, hfind⟩ := find?_cons_eq_some h
    rw [set_cons hc, ← ih hfind]
    cases p with
    | nil => simp [set, hc]
    | cons y p => simp [set, hc]

theorem find?_set_self (h : n.find? p = some m) (v : Node) :
    (n.set (some v) p).find? p = some v := by
  induction p generalizing n with
  | nil => rfl
  | cons x p ih =>
    obtain ⟨es, c, rfl, hc, hfind⟩ := find?_cons_eq_some h
    rw [set_cons hc, find?_cons_directory (lookup_setEntry_some _ _ _)]
    exact ih hfind

theorem set_self (h : n.find? p = some m) : n.set (some m) p = n := by
  induction p generalizing n with
  | nil => exact (Option.some.inj h).symm
  | cons x p ih =>
    obtain ⟨es, c, rfl, hc, hfind⟩ := find?_cons_eq_some h
    rw [set_cons hc, ih hfind, setEntry_self hc]

theorem set_set (h : n.find? p = some m) (v w : Node) :
    (n.set (some v) p).set (some w) p = n.set (some w) p := by
  induction p generalizing n with
  | nil => rfl
  | cons x p ih =>
    obtain ⟨es, c, rfl, hc, hfind⟩ := find?_cons_eq_some h
    rw [set_cons hc, set_cons (lookup_setEntry_some _ _ _), set_cons hc, ih hfind,
      setEntry_setEntry]

/-- Neither row of names starts with the other. -/
def Apart (p q : List Text) : Prop := ¬p <+: q ∧ ¬q <+: p

theorem Apart.symm (h : Apart p q) : Apart q p := ⟨h.2, h.1⟩

theorem not_apart_nil (q : List Text) : ¬Apart [] q := fun h => h.1 List.nil_prefix

theorem apart_cons {x : Text} : Apart (x :: p) (x :: q) ↔ Apart p q := by
  simp [Apart, List.cons_prefix_cons]

theorem Apart.append_left (h : Apart p q) (r : List Text) : Apart (p ++ r) q := by
  refine ⟨fun hp => h.1 ((List.prefix_append p r).trans hp), fun hq => ?_⟩
  rcases List.prefix_or_prefix_of_prefix hq (List.prefix_append p r) with hq | hp
  · exact h.2 hq
  · exact h.1 hp

/-- What is set at a place changes no node apart from it. -/
theorem find?_set_of_apart (h : Apart p q) (v : Option Node) (n : Node) :
    (n.set v q).find? p = n.find? p := by
  induction q generalizing n p with
  | nil => exact absurd h.symm (not_apart_nil p)
  | cons y q ih =>
    cases p with
    | nil => exact absurd h (not_apart_nil _)
    | cons x p =>
      cases n with
      | file | link | pipe => cases q <;> rfl
      | directory es =>
        obtain ⟨es', hset, hother, hsame⟩ := exists_set_cons v y q es
        rw [hset]
        by_cases hxy : x = y
        · subst hxy
          have hpq := apart_cons.mp h
          -- Two paths that are apart and start alike both go on.
          have hne : q ≠ [] := by
            rintro rfl
            exact not_apart_nil p hpq.symm
          simp only [find?, child?, entries, hsame hne]
          cases es.lookup x with
          | none => rfl
          | some c => exact ih hpq c
        · simp only [find?, child?, entries, hother x hxy]

theorem set_comm {m' : Node} (h : Apart p q) (hp : n.find? p = some m) (hq : n.find? q = some m')
    (v w : Node) : (n.set (some w) q).set (some v) p = (n.set (some v) p).set (some w) q := by
  induction p generalizing n q with
  | nil => exact absurd h (not_apart_nil q)
  | cons x p ih =>
    obtain ⟨es, c, rfl, hc, hfind⟩ := find?_cons_eq_some hp
    cases q with
    | nil => exact absurd h.symm (not_apart_nil _)
    | cons y q =>
      obtain ⟨_, d, he, hd, hfind'⟩ := find?_cons_eq_some hq
      cases he
      -- Rows that part here change different entries; otherwise they part further down.
      by_cases hxy : y = x
      · subst hxy
        obtain rfl : c = d := by simpa [hc] using hd
        rw [set_cons hc, set_cons hc, set_cons (lookup_setEntry_some _ _ _),
          set_cons (lookup_setEntry_some _ _ _), setEntry_setEntry, setEntry_setEntry,
          ih (apart_cons.mp h) hfind hfind']
      · have hc' := (lookup_setEntry_of_ne (v := some (set (some w) q d)) (Ne.symm hxy)).trans hc
        have hd' := (lookup_setEntry_of_ne (v := some (set (some v) p c)) hxy).trans hd
        rw [set_cons hd, set_cons hc, set_cons hc', set_cons hd',
          setEntry_comm hxy (by simp [hc]) (by simp [hd])]

/-! ## Growth -/

/-- What a node becomes by changes to what is below it: any directory stays one, and anything else
stays as it is. -/
def Alike (n m : Node) : Prop := n = m ∨ ∃ es es', n = directory es ∧ m = directory es'

/-- Every node of the one tree has its like in the other. -/
def Grows (n m : Node) : Prop := ∀ p c, n.find? p = some c → ∃ d, m.find? p = some d ∧ c.Alike d

theorem Alike.trans {k : Node} (h : n.Alike m) (h' : m.Alike k) : n.Alike k := by
  rcases h with rfl | ⟨es, es', rfl, rfl⟩
  · exact h'
  · rcases h' with rfl | ⟨_, es'', _, rfl⟩
    · exact Or.inr ⟨es, es', rfl, rfl⟩
    · exact Or.inr ⟨es, es'', rfl, rfl⟩

theorem Grows.trans {k : Node} (h : n.Grows m) (h' : m.Grows k) : n.Grows k := by
  intro p c hc
  obtain ⟨d, hd, hcd⟩ := h p c hc
  obtain ⟨e, he, hde⟩ := h' p d hd
  exact ⟨e, he, hcd.trans hde⟩

/-- An empty directory that is filled grows. -/
theorem grows_set (h : n.find? q = some (directory [])) (es : List (Text × Node)) :
    n.Grows (n.set (some (directory es)) q) := by
  -- down to the directory that is filled; what stands beside the way is not touched
  induction q generalizing n with
  | nil =>
    obtain rfl : n = directory [] := by simpa [find?] using h
    intro p c hc
    cases p with
    | nil =>
      obtain rfl : directory [] = c := by simpa [find?] using hc
      exact ⟨directory es, rfl, Or.inr ⟨[], es, rfl, rfl⟩⟩
    | cons x p => contradiction
  | cons y q ih =>
    obtain ⟨es', c', rfl, hc', hfind⟩ := find?_cons_eq_some h
    rw [set_cons hc']
    intro p c hc
    cases p with
    | nil =>
      obtain rfl : directory es' = c := by simpa [find?] using hc
      exact ⟨_, rfl, Or.inr ⟨es', _, rfl, rfl⟩⟩
    | cons x p =>
      by_cases hxy : x = y
      · subst hxy
        rw [find?_cons_directory hc'] at hc
        rw [find?_cons_directory (lookup_setEntry_some _ _ _)]
        exact ih hfind p c hc
      · refine ⟨c, ?_, Or.inl rfl⟩
        rw [← hc]
        simp only [find?, child?, entries, lookup_setEntry_of_ne hxy]

end Node

end Triage
