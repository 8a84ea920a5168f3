import Triage.Proofs.FileSystem.Ways

/-!
Where paths lead.

A path leads where its names lead from the place at which it starts, as long as the system takes it
(`locate_eq_ok_iff`). A name put after a path that leads to a directory leads to the entry of that
directory (`locate_join`), and a path that leads somewhere leads there as well after entries were
added (`locate_grows`). The canonical path of an entry is that of its directory with its name,
whether or not there is such an entry (`canonical_entry`).
-/

namespace Triage

namespace FileSystem

open Triage.Path (IsName AreNames)

variable {fs fs' : FileSystem} {ns here todo : List Text} {name path : Text}
variable {es : List (Text × Node)} {followLast : Bool} {links : Nat}

/-! ## Paths -/

/-- Where following a path starts. -/
def startOf (fs : FileSystem) (path : Text) : List Text :=
  if Path.isAbsolute path then [] else fs.workingDirectory

/-- The path can be handed to the system: it is not empty, not too long and has no zero byte. -/
structure Fits (path : Text) : Prop where
  ne_nil : path ≠ []
  noZero : 0 ∉ path
  length_le : path.length ≤ maxPath

theorem locate_of_fits (h : Fits path) :
    fs.locate followLast path = (do
      let found ← fs.follow (followLast || Path.endsInSlash path) maxLinks (fs.startOf path)
        (Path.names path)
      match found.node with
      | some (.directory _) | none => pure found
      | some _ => if Path.endsInSlash path then throw .notDirectory else pure found) := by
  rw [locate, Text.before_of_not_mem h.noZero]
  simp only [List.isEmpty_eq_false_iff.mpr h.ne_nil, Bool.false_eq_true, if_false,
    Nat.not_lt.mpr h.length_le]
  rfl

/-- What it takes for a path to lead somewhere. Only the bytes before the first zero byte count. -/
theorem locate_eq_ok_iff {found : Location} :
    fs.locate followLast path = .ok found ↔
      Text.before 0 path ≠ [] ∧ (Text.before 0 path).length ≤ maxPath ∧
      fs.follow (followLast || Path.endsInSlash (Text.before 0 path)) maxLinks
        (fs.startOf (Text.before 0 path)) (Path.names (Text.before 0 path)) = .ok found ∧
      (Path.endsInSlash (Text.before 0 path) → ∀ n, found.node = some n →
        ∃ es, n = .directory es) := by
  unfold locate startOf
  simp only [List.isEmpty_iff]
  by_cases hempty : Text.before 0 path = []
  · simp [hempty]
  by_cases hlength : maxPath < (Text.before 0 path).length
  · simp [hempty, hlength, Nat.not_le.mpr hlength]
  simp only [hempty, hlength, if_false, not_false_eq_true, ne_eq, Nat.le_of_not_lt hlength, true_and]
  cases hfollow : fs.follow (followLast || Path.endsInSlash (Text.before 0 path)) maxLinks
      (if Path.isAbsolute (Text.before 0 path) then [] else fs.workingDirectory)
      (Path.names (Text.before 0 path)) with
  | error e => simp [bind, Except.bind]
  | ok found' =>
    simp only [bind, Except.bind, Except.ok.injEq]
    -- A slash at the end is refused only for what is there and is no directory.
    constructor
    · intro h
      split at h
      all_goals rename_i hnode
      · obtain rfl := Except.ok.inj h
        exact ⟨rfl, fun _ n hn => ⟨_, Option.some.inj (hn.symm.trans hnode)⟩⟩
      · obtain rfl := Except.ok.inj h
        exact ⟨rfl, fun _ n hn => nomatch hn.symm.trans hnode⟩
      · split at h
        · contradiction
        · rename_i hslash
          exact ⟨Except.ok.inj h, fun h => absurd h hslash⟩
    · rintro ⟨rfl, hslash⟩
      split
      · rfl
      · rfl
      · rename_i n hdir hnone
        split
        · rename_i h
          obtain ⟨es, rfl⟩ := hslash h n hnone
          exact absurd rfl (hdir es)
        · rfl

theorem nodeAt?_of_locate {found : Option Node} (h : fs.locate followLast path = .ok ⟨ns, found⟩) :
    fs.nodeAt? ns = found := nodeAt?_of_follow (locate_eq_ok_iff.mp h).2.2.1

/-- The path leads to a directory, links followed. -/
def LeadsTo (fs : FileSystem) (path : Text) (ns : List Text) (es : List (Text × Node)) : Prop :=
  fs.locate true path = .ok ⟨ns, some (.directory es)⟩

theorem follow_of_locate {found : Location} (hpath : Fits path)
    (h : fs.locate followLast path = .ok found) :
    fs.follow (followLast || Path.endsInSlash path) maxLinks (fs.startOf path) (Path.names path) =
      .ok found := by
  rw [locate_of_fits hpath] at h
  cases hfollow : fs.follow (followLast || Path.endsInSlash path) maxLinks (fs.startOf path)
      (Path.names path) with
  | error e =>
    rw [hfollow] at h
    contradiction
  | ok found' =>
    rw [hfollow] at h
    simp only [bind, Except.bind] at h
    split at h
    · exact h
    · exact h
    · split at h
      · contradiction
      · exact h

theorem follow_of_leadsTo (hpath : Fits path) (h : fs.LeadsTo path ns es) :
    fs.follow true maxLinks (fs.startOf path) (Path.names path) =
      .ok ⟨ns, some (.directory es)⟩ := follow_of_locate hpath h

theorem locate_of_follow {node : Option Node} (hpath : Fits path) (hdir : node = none ∨
    (∃ es, node = some (.directory es)) ∨ Path.endsInSlash path = false)
    (h : fs.follow (followLast || Path.endsInSlash path) maxLinks (fs.startOf path)
      (Path.names path) = .ok ⟨ns, node⟩) :
    fs.locate followLast path = .ok ⟨ns, node⟩ := by
  rw [locate_of_fits hpath, h]
  obtain rfl | ⟨es, rfl⟩ | hslash := hdir
  · rfl
  · rfl
  · simp only [bind, Except.bind, hslash, Bool.false_eq_true, if_false]
    split <;> rfl

theorem locate_join_of_follow {node : Option Node} (hpath : Fits path) (hname : IsName name)
    (hlength : (Path.join path name).length ≤ maxPath)
    (h : fs.follow followLast maxLinks (fs.startOf path) (Path.names path ++ [name]) =
      .ok ⟨ns, node⟩) :
    fs.locate followLast (Path.join path name) = .ok ⟨ns, node⟩ := by
  have hfits : Fits (Path.join path name) :=
    ⟨Path.join_ne_nil hname, Path.not_mem_join hname (by decide) hpath.noZero hname.noZero, hlength⟩
  have hslash := Path.endsInSlash_join path hname
  have hstart : fs.startOf (Path.join path name) = fs.startOf path := by
    rw [startOf, Path.isAbsolute_join hname hpath.ne_nil, startOf]
  refine locate_of_follow hfits (Or.inr (Or.inr hslash)) ?_
  rw [hslash, hstart, Path.names_join hname, Bool.or_false]
  exact h

theorem node_of_locate {n : Node} (h : fs.locate followLast path = .ok ⟨ns, some n⟩) :
    fs.node followLast path = .ok n := by
  simp only [node, h]
  rfl

theorem node_of_missing (h : fs.locate followLast path = .ok ⟨ns, none⟩) :
    fs.node followLast path = .error .notFound := by
  simp only [node, h]
  rfl

theorem locate_of_node {n : Node} (h : fs.node followLast path = .ok n) :
    ∃ ns, fs.locate followLast path = .ok ⟨ns, some n⟩ := by
  rw [node] at h
  cases hlocate : fs.locate followLast path with
  | error e => simp [hlocate, bind, Except.bind] at h
  | ok found =>
    obtain ⟨names, _ | m⟩ := found
    · simp [hlocate, bind, Except.bind, throw, throwThe, MonadExceptOf.throw] at h
    · simp only [hlocate, bind, Except.bind, pure, Except.pure, Except.ok.injEq] at h
      exact ⟨names, by rw [h]⟩

theorem isDirectory_iff : fs.isDirectory path ↔ ∃ ns es, fs.LeadsTo path ns es := by
  rw [isDirectory]
  constructor
  · intro h
    split at h
    · rename_i es hnode
      obtain ⟨ns, hlocate⟩ := locate_of_node hnode
      exact ⟨ns, es, hlocate⟩
    · contradiction
  · rintro ⟨ns, es, hleads⟩
    rw [node_of_locate hleads]

theorem entryExists_of_locate {found : Option Node} (h : fs.locate false path = .ok ⟨ns, found⟩) :
    fs.entryExists path = found.isSome := by
  cases found with
  | some n =>
    rw [entryExists, node_of_locate h]
    rfl
  | none =>
    rw [entryExists, node_of_missing h]
    rfl

/-- A name put after a path to a directory leads to the entry of that name. -/
theorem locate_join (followLast : Bool) (hpath : Fits path) (h : fs.LeadsTo path ns es)
    (hname : IsName name) (hlength : (Path.join path name).length ≤ maxPath)
    (hlink : NoLink (es.lookup name)) :
    fs.locate followLast (Path.join path name) = .ok ⟨ns ++ [name], es.lookup name⟩ :=
  locate_join_of_follow hpath hname hlength (follow_concat hname hlink (follow_of_leadsTo hpath h))

/-- The same, be the entry a link, if it is not followed. -/
theorem locate_join_last (hpath : Fits path) (h : fs.LeadsTo path ns es) (hname : IsName name)
    (hlength : (Path.join path name).length ≤ maxPath) :
    fs.locate false (Path.join path name) = .ok ⟨ns ++ [name], es.lookup name⟩ :=
  locate_join_of_follow hpath hname hlength (follow_concat_last hname (follow_of_leadsTo hpath h))

/-- The system refuses a path that is too long. -/
theorem locate_tooLong (hzero : 0 ∉ path) (hlong : maxPath < path.length) :
    fs.locate followLast path = .error .nameTooLong := by
  have hempty : path.isEmpty = false := by
    rw [List.isEmpty_eq_false_iff, ← List.length_pos_iff]
    omega
  rw [locate, Text.before_of_not_mem hzero]
  simp only [hempty, Bool.false_eq_true, if_false, hlong, if_true]

theorem fits_of_locate {found : Location} (hzero : 0 ∉ path)
    (h : fs.locate followLast path = .ok found) : Fits path := by
  refine ⟨fun hnil => ?_, hzero, Nat.le_of_not_lt fun hlong => ?_⟩
  · rw [hnil] at h
    contradiction
  · rw [locate_tooLong hzero hlong] at h
    contradiction

/-- If a name put after a path leads anywhere, the path leads to a directory, and the name to an
entry of it. -/
theorem leadsTo_of_locate_join {found : Location} (hpath : Fits path) (hname : IsName name)
    (h : fs.locate false (Path.join path name) = .ok found) :
    ∃ ns es, fs.LeadsTo path ns es ∧ found = ⟨ns ++ [name], es.lookup name⟩ := by
  have hzero : 0 ∉ Path.join path name :=
    Path.not_mem_join hname (by decide) hpath.noZero hname.noZero
  have hfollow := follow_of_locate (fits_of_locate hzero h) h
  rw [Path.endsInSlash_join path hname, Path.names_join hname, startOf,
    Path.isAbsolute_join hname hpath.ne_nil, ← startOf] at hfollow
  obtain ⟨ns, es, hdir, rfl⟩ := follow_of_concat hname hfollow
  refine ⟨ns, es, locate_of_follow hpath (Or.inr (Or.inl ⟨es, rfl⟩)) ?_, rfl⟩
  rwa [Bool.true_or]

theorem fits_absoluteText (hs : AreNames ns) (hlength : (absoluteText ns).length ≤ maxPath) :
    Fits (absoluteText ns) :=
  ⟨List.cons_ne_nil _ _, hs.zero_not_mem_absoluteText, hlength⟩

/-- The names of a directory, written as a path, lead to it. -/
theorem leadsTo_absoluteText (hs : AreNames ns) (h : fs.nodeAt? ns = some (.directory es))
    (hlength : (absoluteText ns).length ≤ maxPath) : fs.LeadsTo (absoluteText ns) ns es := by
  have hstart : fs.startOf (absoluteText ns) = [] := rfl
  refine locate_of_follow (fits_absoluteText hs hlength) (Or.inr (Or.inl ⟨es, rfl⟩)) ?_
  rw [hstart, hs.names_absoluteText]
  exact follow_names hs h

theorem fits_of_leadsTo (hzero : 0 ∉ path) (h : fs.LeadsTo path ns es) : Fits path :=
  fits_of_locate hzero h

/-- If a path leads anywhere, no name in it is too long. -/
theorem length_le_of_locate {found : Location} (hzero : 0 ∉ path)
    (h : fs.locate followLast path = .ok found) : ∀ name ∈ Path.names path, name.length ≤ maxName :=
  length_le_of_follow (follow_of_locate (fits_of_locate hzero h) h)

/-- The system refuses what is too long to be a name, or makes a path too long, when it is put after
a path to a directory. -/
theorem locate_join_tooLong {piece : Text} (hpath : Fits path) (h : fs.LeadsTo path ns es)
    (hpiece : Path.IsPiece piece) (hzero : 0 ∉ piece)
    (hlong : maxName < piece.length ∨ maxPath < (Path.join path piece).length) :
    fs.locate false (Path.join path piece) = .error .nameTooLong := by
  have hnoZero : 0 ∉ Path.join path piece := hpiece.not_mem_join (by decide) hpath.noZero hzero
  have hne : Path.join path piece ≠ [] := Path.join_relative_ne_nil hpiece.isAbsolute hpath.ne_nil
  by_cases hlength : maxPath < (Path.join path piece).length
  · exact locate_tooLong hnoZero hlength
  · have hname := hlong.resolve_right hlength
    obtain ⟨hdir, links', hrest⟩ : fs.nodeAt? ns = some (.directory es) ∧ ∃ links',
        fs.follow false maxLinks (fs.startOf path) (Path.names path ++ [piece]) =
          fs.follow false links' ns [piece] :=
      follow_append (List.cons_ne_nil piece []) (follow_of_leadsTo hpath h)
    have hslash : Path.endsInSlash (Path.join path piece) = false := by
      rw [Path.endsInSlash_join_relative hpiece.isAbsolute hpiece.ne_nil,
        Path.endsInSlash_of_not_mem hpiece.noSlash]
    have hstart : fs.startOf (Path.join path piece) = fs.startOf path := by
      rw [startOf, Path.isAbsolute_join_relative hpiece.isAbsolute hpath.ne_nil, startOf]
    rw [locate_of_fits ⟨hne, hnoZero, Nat.le_of_not_lt hlength⟩, hslash, hstart, hpiece.names_join,
      Bool.or_self, hrest, follow_tooLong (isDirectoryAt_of_nodeAt? hdir) hname]
    rfl

/-- A name in a directory, written as a path, leads to the entry of that name. -/
theorem locate_entry (followLast : Bool) (hs : AreNames ns) (hname : IsName name)
    (hdir : fs.nodeAt? ns = some (.directory es)) (hlink : NoLink (es.lookup name))
    (hlength : (absoluteText (ns ++ [name])).length ≤ maxPath) :
    fs.locate followLast (absoluteText (ns ++ [name])) = .ok ⟨ns ++ [name], es.lookup name⟩ := by
  have hshorter := Nat.le_trans (Path.length_absoluteText_le ns [name]) hlength
  rw [← hs.join_absoluteText hname] at hlength ⊢
  exact locate_join followLast (fits_absoluteText hs hshorter)
    (leadsTo_absoluteText hs hdir hshorter) hname hlength hlink

/-- The same, be the entry a link, if it is not followed. -/
theorem locate_entry_last (hs : AreNames ns) (hname : IsName name)
    (hdir : fs.nodeAt? ns = some (.directory es))
    (hlength : (absoluteText (ns ++ [name])).length ≤ maxPath) :
    fs.locate false (absoluteText (ns ++ [name])) = .ok ⟨ns ++ [name], es.lookup name⟩ := by
  have hshorter := Nat.le_trans (Path.length_absoluteText_le ns [name]) hlength
  rw [← hs.join_absoluteText hname] at hlength ⊢
  exact locate_join_last (fits_absoluteText hs hshorter)
    (leadsTo_absoluteText hs hdir hshorter) hname hlength

theorem locate_grows (hgrows : fs.root.Grows fs'.root)
    (hstart : fs'.workingDirectory = fs.workingDirectory) {found : Option Node}
    (hmissing : found = none → ∃ es, fs'.nodeAt? ns = some (.directory es))
    (h : fs.locate followLast path = .ok ⟨ns, found⟩) :
    fs'.locate followLast path = .ok ⟨ns, fs'.nodeAt? ns⟩ := by
  have hnode := nodeAt?_of_locate h
  obtain ⟨hne, hlength, hfollow, hslash⟩ := locate_eq_ok_iff.mp h
  rw [startOf, ← hstart] at hfollow
  refine locate_eq_ok_iff.mpr ⟨hne, hlength, follow_grows hgrows hmissing hfollow, ?_⟩
  intro hends m (hm : fs'.nodeAt? ns = some m)
  cases found with
  | none =>
    obtain ⟨es, hes⟩ := hmissing rfl
    exact ⟨es, Option.some.inj (hm.symm.trans hes)⟩
  | some n =>
    obtain ⟨es, rfl⟩ := hslash hends n rfl
    obtain ⟨m', hm', halike⟩ := nodeAt?_grows hgrows hnode
    obtain rfl : m = m' := Option.some.inj (hm.symm.trans hm')
    obtain rfl | ⟨_, es', _, rfl⟩ := halike
    · exact ⟨es, rfl⟩
    · exact ⟨es', rfl⟩

/-- Entries that are added below a path's directory do not change where it leads. -/
theorem leadsTo_grows {es' : List (Text × Node)} (h : fs.LeadsTo path ns es)
    (hgrows : fs.root.Grows fs'.root) (hstart : fs'.workingDirectory = fs.workingDirectory)
    (hes : fs'.nodeAt? ns = some (.directory es')) : fs'.LeadsTo path ns es' := by
  have hlocate := locate_grows hgrows hstart (fun hnone => by contradiction) h
  rwa [hes] at hlocate

/-! ## Rows of names below a directory -/

/-- A row of names put after a path to a directory is followed from that directory on. -/
theorem follow_below {ms : List Text} {es' : List (Text × Node)} (hms : AreNames ms)
    (h : fs.follow true links here todo = .ok ⟨ns, some (.directory es)⟩)
    (hdir : fs.nodeAt? (ns ++ ms) = some (.directory es')) :
    fs.follow true links here (todo ++ ms) = .ok ⟨ns ++ ms, some (.directory es')⟩ := by
  by_cases hnil : ms = []
  · subst hnil
    rw [List.append_nil] at hdir ⊢
    rw [List.append_nil, h, ← nodeAt?_of_follow h, hdir]
  · obtain ⟨links', hrest⟩ : ∃ links', fs.follow true links here (todo ++ ms) =
        fs.follow true links' ns ms := (follow_append hnil h).2
    rw [hrest, follow_names hms hdir]

/-- Where a row of names put after a path to a directory leads. -/
theorem follow_below_entry {ms : List Text} {n : Node} (hms : AreNames ms) (hne : ms ≠ [])
    (h : fs.follow true links here todo = .ok ⟨ns, some (.directory es)⟩)
    (hn : fs.nodeAt? (ns ++ ms) = some n) (hlink : NoLink (some n)) :
    fs.follow followLast links here (todo ++ ms) = .ok ⟨ns ++ ms, some n⟩ := by
  -- All but the last of the names lead down through directories.
  obtain ⟨init, last, rfl⟩ := (List.eq_nil_or_concat ms).resolve_left hne
  rw [List.concat_eq_append] at hms hn ⊢
  obtain ⟨c, hc, hlast⟩ : ∃ c, fs.nodeAt? (ns ++ init) = some c ∧ c.find? [last] = some n := by
    rw [nodeAt?, ← List.append_assoc, Node.find?_append, Option.bind_eq_some_iff] at hn
    exact hn
  obtain ⟨es', m, rfl, hm, hmn⟩ := Node.find?_cons_eq_some hlast
  obtain rfl : m = n := Option.some.inj hmn
  have hinit := follow_below hms.left h hc
  have hlookup : fs.follow followLast links here (todo ++ init ++ [last]) =
      .ok ⟨ns ++ init ++ [last], es'.lookup last⟩ :=
    follow_concat (hms last (by simp)) (hm ▸ hlink) hinit
  rwa [hm, List.append_assoc, List.append_assoc] at hlookup

/-- The path of what stands below a directory leads there, unless the system does not take it. -/
theorem locate_below {ms : List Text} {n : Node} (hpath : Fits path) (h : fs.LeadsTo path ns es)
    (hms : AreNames ms) (hne : ms ≠ []) (hn : fs.nodeAt? (ns ++ ms) = some n)
    (hlink : NoLink (some n))
    (hlength : (Path.join path (Path.ofNames ms)).length ≤ maxPath) :
    fs.locate followLast (Path.join path (Path.ofNames ms)) = .ok ⟨ns ++ ms, some n⟩ := by
  have hrelative := hms.isAbsolute_ofNames
  have hslash : Path.endsInSlash (Path.join path (Path.ofNames ms)) = false := by
    rw [Path.endsInSlash_join_relative hrelative (hms.ofNames_ne_nil hne), hms.endsInSlash_ofNames]
  have habsolute := Path.isAbsolute_join_relative hrelative hpath.ne_nil
  have hfits : Fits (Path.join path (Path.ofNames ms)) :=
    { ne_nil := Path.join_relative_ne_nil hrelative hpath.ne_nil
      noZero := Path.not_mem_join_relative hrelative (by decide) hpath.noZero
        hms.zero_not_mem_ofNames
      length_le := hlength }
  refine locate_of_follow hfits (Or.inr (Or.inr hslash)) ?_
  rw [hslash, Bool.or_false, startOf, habsolute, Path.names_join_relative hrelative,
    hms.names_ofNames]
  exact follow_below_entry hms hne (follow_of_leadsTo hpath h) hn hlink

/-! ## Names behind dots -/

section Dotted

variable {k : Nat}

theorem fits_dotted (h : IsName name) (hlength : 2 * k + name.length ≤ maxPath) :
    Fits (Path.dotted k name) where
  ne_nil := by
    cases k with
    | zero => exact h.ne_nil
    | succ k => simp [Path.dotted_succ]
  noZero := h.noZero_dotted k
  length_le := by rwa [Path.length_dotted]

/-- With dots before it, the name of a directory leads to it still. -/
theorem leadsTo_dotted (h : IsName name) (hlength : 2 * k + name.length ≤ maxPath)
    (hstart : fs.workingDirectory = []) (hdir : fs.nodeAt? [name] = some (.directory es)) :
    fs.LeadsTo (Path.dotted k name) [name] es := by
  obtain ⟨_, hroot⟩ := nodeAt?_nil_of_directory hdir
  have hdots : ∀ m todo, fs.follow true maxLinks [] (List.replicate m Path.dot ++ todo) =
      fs.follow true maxLinks [] todo := by
    intro m todo
    induction m with
    | zero => rfl
    | succ m ih => exact (follow_dot (isDirectoryAt_of_nodeAt? hroot)).trans ih
  have hbegin : fs.startOf (Path.dotted k name) = [] := by
    rw [startOf, h.isAbsolute_dotted, hstart]
    rfl
  have hname : AreNames [name] := fun other hother => List.mem_singleton.mp hother ▸ h
  refine locate_of_follow (fits_dotted h hlength) (Or.inr (Or.inl ⟨es, rfl⟩)) ?_
  rw [Bool.true_or, hbegin, h.names_dotted, hdots]
  exact follow_names hname hdir

end Dotted

/-! ## Canonical paths -/

theorem kind?_of_leadsTo (h : fs.LeadsTo path ns es) : fs.kind? path = .ok (some .directory) := by
  rw [LeadsTo] at h
  simp [kind?, node, h]
  rfl

theorem canonical_of_locate {n : Node} (h : fs.locate true path = .ok ⟨ns, some n⟩) :
    fs.canonical path = .ok (absoluteText ns) := by
  simp [canonical, kind?, node, h, bind, Except.bind, pure, Except.pure]

theorem canonical_of_leadsTo (h : fs.LeadsTo path ns es) :
    fs.canonical path = .ok (absoluteText ns) := canonical_of_locate h

theorem kind?_of_missing (h : fs.locate true path = .ok ⟨ns, none⟩) : fs.kind? path = .ok none := by
  simp [kind?, node, h]
  rfl

/-- As long as there are directories, a further name is found. -/
theorem existingPart_names (done : List Text) {rest : List Text} (hs : AreNames (done ++ rest))
    (hname : IsName name) (hdir : fs.nodeAt? (done ++ rest) = some (.directory es))
    (hentry : es.lookup name = none)
    (hlength : (absoluteText (done ++ rest ++ [name])).length ≤ maxPath) :
    fs.existingPart (absoluteText done) (rest ++ [name]) =
      .ok (absoluteText (done ++ rest), [name]) := by
  -- down the names that exist; the last one is where the search stops
  induction rest generalizing done with
  | nil =>
    rw [List.append_nil] at hs hdir hlength ⊢
    have hmissing :
        fs.locate true (absoluteText (done ++ [name])) = .ok ⟨done ++ [name], none⟩ := by
      rw [← hentry]
      exact locate_entry true hs hname hdir (by simp [NoLink, hentry]) hlength
    rw [List.nil_append, existingPart, hs.join_absoluteText hname, kind?_of_missing hmissing]
    rfl
  | cons x rest ih =>
    have happend : done ++ x :: rest = done ++ [x] ++ rest := List.append_cons ..
    rw [happend] at hs hdir hlength ⊢
    obtain ⟨es', hes'⟩ := nodeAt?_of_append hdir
    have hjoin := hs.left.left.join_absoluteText (hs x (by simp))
    have hshorter : (absoluteText (done ++ [x])).length ≤ maxPath := by
      calc (absoluteText (done ++ [x])).length
          ≤ (absoluteText (done ++ [x] ++ (rest ++ [name]))).length :=
            Path.length_absoluteText_le _ _
        _ ≤ maxPath := by rwa [← List.append_assoc]
    have hkind := kind?_of_leadsTo (leadsTo_absoluteText hs.left hes' hshorter)
    rw [List.cons_append, existingPart, hjoin, hkind]
    exact ih (done ++ [x]) hs hdir hlength

/-- The canonical path of an entry that is no link is that of its directory with the name, be there
anything of that name or nothing yet. -/
theorem canonical_entry (hs : AreNames ns) (hname : IsName name)
    (hdir : fs.nodeAt? ns = some (.directory es)) (hlink : NoLink (es.lookup name))
    (hlength : (absoluteText (ns ++ [name])).length ≤ maxPath) :
    fs.canonical (absoluteText (ns ++ [name])) = .ok (absoluteText (ns ++ [name])) := by
  have hshorter := Nat.le_trans (Path.length_absoluteText_le ns [name]) hlength
  have hjoin := hs.join_absoluteText hname
  have hleads := leadsTo_absoluteText hs hdir hshorter
  have hall := hs.concat hname
  have hlocate := locate_entry true hs hname hdir hlink hlength
  cases hlookup : es.lookup name with
  | some n =>
    rw [hlookup] at hlocate
    exact canonical_of_locate hlocate
  | none =>
    rw [hlookup] at hlocate
    -- The path begins with a slash, and the topmost directory exists.
    have hroot : fs.existingPart [] ([Byte.slash] :: (ns ++ [name])) =
        fs.existingPart (absoluteText []) (ns ++ [name]) := by
      obtain ⟨es', hes'⟩ := nodeAt?_nil_of_directory hdir
      have hslash : Path.join [] [Byte.slash] = absoluteText [] := rfl
      rw [existingPart, hslash, kind?_of_leadsTo
        (leadsTo_absoluteText (List.forall_mem_nil _) hes' (by decide))]
      rfl
    have hpart := existingPart_names [] hs hname hdir hlookup hlength
    have hnonempty : (absoluteText ns).isEmpty = false := rfl
    rw [canonical, kind?_of_missing hlocate, hall.elements_absoluteText]
    simp only [hroot, hpart]
    rw [LeadsTo] at hleads
    simp [hleads, hjoin, hall.normal_absoluteText, bind, Except.bind, pure, Except.pure, hnonempty]

end FileSystem

end Triage
