import Mathlib.Logic.Function.Basic
import Triage.Proofs.Quarantine.Calls

/-!
The quarantine as a catalogue.

An item is quarantined, approved or absent. `Catalogue.answer` says what a call does to a catalogue
of items, with nothing said of paths, locks, tombstones or errors of the system. A call of the
quarantine does that to what stands below the roots, and nothing else (`call_answers`); runs of
calls follow by induction (`serve_stock`).
-/

namespace Triage

open FileSystem (maxPath)

namespace Quarantine

/-! ## The catalogue -/

/-- What the items of a quarantine are, and where they stand; an id without an item is absent. -/
abbrev Catalogue := Text → Option (ItemStatus × Node)

/-- The catalogue of what stands below the roots. -/
def Stock.catalogue (s : Stock) : Catalogue := fun id =>
  match s.quarantined.lookup id with
  | some n => some (.quarantined, n)
  | none => (s.approved.lookup id).map fun n => (.approved, n)

/-- A call of the quarantine. A rejection carries the number of its process and its own. -/
inductive Call where
  | approve (id : Text)
  | reject (id : Text) (process count : UInt32)
  deriving DecidableEq, Repr

namespace Call

def id : Call → Text
  | approve id | reject id _ _ => id

/-- What a call does. -/
def attempt (q : Quarantine) : Call → Attempt Unit
  | approve id => q.approve id
  | reject id process count => q.reject (mark process count) id

/-- Makes a call. -/
def perform (q : Quarantine) (fs : FileSystem) (c : Call) :
    FileSystem × Except QuarantineError Unit :=
  Procedure.run fs (c.attempt q).run

end Call

/-- Makes calls one after the other and gives their outcomes. -/
def serve (q : Quarantine) (fs : FileSystem) :
    List Call → FileSystem × List (Except QuarantineError Unit)
  | [] => (fs, [])
  | c :: rest =>
    let (fs, outcome) := c.perform q fs
    let (fs, outcomes) := q.serve fs rest
    (fs, outcome :: outcomes)

namespace Catalogue

/-- What a call for a valid id does to the catalogue, and how it ends. -/
def move (m : Catalogue) : Call → Catalogue × Except QuarantineErrorKind Unit
  | .approve id =>
    match m id with
    | some (.quarantined, tree) => (Function.update m id (some (.approved, tree)), .ok ())
    | some _ => (m, .error .alreadyExists)
    | none => (m, .error .notFound)
  | .reject id _ _ =>
    match m id with
    | some (.quarantined, _) => (Function.update m id none, .ok ())
    | _ => (m, .error .notFound)

/-- What a call does to the catalogue, and how it ends. -/
def answer (m : Catalogue) (c : Call) : Catalogue × Except QuarantineErrorKind Unit :=
  if ItemId.isValid c.id then m.move c else (m, .error .invalidId)

/-- What calls do one after the other, and how they end. -/
def serve (m : Catalogue) : List Call → Catalogue × List (Except QuarantineErrorKind Unit)
  | [] => (m, [])
  | c :: rest =>
    let (m, outcome) := m.answer c
    let (m, outcomes) := serve m rest
    (m, outcome :: outcomes)

end Catalogue

/-! ## What a call preserves -/

variable {p : Places} {q : Quarantine} {fs : FileSystem} {s : Stock} {id : Text} {n : Node}

/-- An entry that is taken out is no longer there, and all others are. -/
theorem mem_names_removed {es : List (Text × Node)} (hes : Node.UniqueNames es) {other : Text}
    (h : other ∈ (Node.setEntry id none es).map Prod.fst) :
    other ≠ id ∧ other ∈ es.map Prod.fst := by
  have hother : other ≠ id := by
    rintro rfl
    exact Node.lookup_eq_none_iff.mp (hes.lookup_setEntry_none other) h
  exact ⟨hother, (Node.mem_names_setEntry h).resolve_left hother⟩

theorem mem_of_mem_removed {es : List (Text × Node)} {e : Text × Node}
    (h : e ∈ Node.setEntry id none es) : e ∈ es := by
  rcases Node.mem_setEntry h with h | ⟨_, ⟨⟩, _⟩
  exact h

theorem Stock.Sound.reject (hs : s.Sound) (id : Text) :
    Stock.Sound { s with quarantined := Node.setEntry id none s.quarantined } where
  quarantined := Node.uniqueNames_setEntry hs.quarantined id none
  approved := hs.approved
  items := by
    intro e he
    rcases List.mem_append.mp he with he | he
    · exact hs.items e (List.mem_append_left _ (mem_of_mem_removed he))
    · exact hs.items e (List.mem_append_right _ he)
  apart := fun other hother => hs.apart other (mem_names_removed hs.quarantined hother).2

theorem Stock.Sound.approve (hs : s.Sound) (hitem : s.quarantined.lookup id = some n) :
    Stock.Sound ⟨Node.setEntry id none s.quarantined, Node.setEntry id (some n) s.approved⟩ where
  quarantined := Node.uniqueNames_setEntry hs.quarantined id none
  approved := Node.uniqueNames_setEntry hs.approved id (some n)
  items := by
    intro e he
    rcases List.mem_append.mp he with he | he
    · exact hs.items e (List.mem_append_left _ (mem_of_mem_removed he))
    · rcases Node.mem_setEntry he with he | ⟨_, ⟨⟩, rfl⟩
      · exact hs.items e (List.mem_append_right _ he)
      · exact hs.isItem_quarantined hitem
  apart := by
    intro other hother happroved
    obtain ⟨hne, hmem⟩ := mem_names_removed hs.quarantined hother
    exact hs.apart other hmem ((Node.mem_names_setEntry happroved).resolve_left hne)

theorem Stock.catalogue_quarantined (h : s.quarantined.lookup id = some n) :
    s.catalogue id = some (.quarantined, n) := by
  rw [catalogue, h]

theorem Stock.catalogue_missing (h : s.quarantined.lookup id = none) :
    s.catalogue id = (s.approved.lookup id).map fun n => (.approved, n) := by
  rw [catalogue, h]

theorem Stock.Sound.catalogue_reject (hs : s.Sound) (hitem : s.quarantined.lookup id = some n) :
    Stock.catalogue { s with quarantined := Node.setEntry id none s.quarantined } =
      Function.update s.catalogue id none := by
  have hfree : s.approved.lookup id = none := by
    rw [Node.lookup_eq_none_iff]
    exact hs.apart id (List.mem_map_of_mem (Node.mem_of_lookup hitem))
  funext other
  by_cases h : other = id
  · subst h
    simp [Stock.catalogue, hs.quarantined.lookup_setEntry_none, hfree]
  · simp [Stock.catalogue, Node.lookup_setEntry_of_ne h, h]

theorem Stock.Sound.catalogue_approve (hs : s.Sound) (id : Text) (n : Node) :
    Stock.catalogue ⟨Node.setEntry id none s.quarantined, Node.setEntry id (some n) s.approved⟩ =
      Function.update s.catalogue id (some (.approved, n)) := by
  funext other
  by_cases h : other = id
  · subst h
    simp [Stock.catalogue, hs.quarantined.lookup_setEntry_none, Node.lookup_setEntry_some]
  · simp [Stock.catalogue, Node.lookup_setEntry_of_ne h, h]

/-! ## Calls and runs -/

/-- The call does to the stock what it does to the catalogue; if it fails, it does nothing. -/
def Answers (p : Places) (q : Quarantine) (fs : FileSystem) (s : Stock) (c : Call) : Prop :=
  ∃ s' outcome, c.perform q (p.stock fs s) = (p.stock fs s', outcome) ∧ s'.Sound ∧
    s.catalogue.answer c = (s'.catalogue, outcome.mapError QuarantineError.kind) ∧
    (outcome ≠ .ok () → s' = s)

section

variable (h : p.Hold q fs) (hs : s.Sound) (hlength : id.length ≤ ItemId.maxItemId)

include h hs hlength

theorem approve_answers : Answers p q fs s (.approve id) := by
  cases hid : ItemId.isValid id with
  | false =>
    refine ⟨s, _, approve_invalid hid, hs, ?_, fun _ => rfl⟩
    rw [Catalogue.answer, Call.id, hid]
    rfl
  | true =>
    cases hitem : s.quarantined.lookup id with
    | some n =>
      refine ⟨_, _, approve_quarantined h hs hid hlength hitem, hs.approve hitem, ?_,
        fun hne => absurd rfl hne⟩
      rw [hs.catalogue_approve, Catalogue.answer, Call.id, if_pos hid, Catalogue.move,
        Stock.catalogue_quarantined hitem]
      rfl
    | none =>
      refine ⟨s, _, approve_missing h hs hid hlength hitem, hs, ?_, fun _ => rfl⟩
      rw [Catalogue.answer, Call.id, if_pos hid, Catalogue.move, Stock.catalogue_missing hitem]
      cases s.approved.lookup id with
      | some n => rfl
      | none => rfl

theorem reject_answers (process count : UInt32) : Answers p q fs s (.reject id process count) := by
  cases hid : ItemId.isValid id with
  | false =>
    refine ⟨s, _, reject_invalid hid _, hs, ?_, fun _ => rfl⟩
    rw [Catalogue.answer, Call.id, hid]
    rfl
  | true =>
    cases hitem : s.quarantined.lookup id with
    | some n =>
      refine ⟨_, _, reject_quarantined h hs hid hlength hitem process count, hs.reject id, ?_,
        fun hne => absurd rfl hne⟩
      rw [hs.catalogue_reject hitem, Catalogue.answer, Call.id, if_pos hid, Catalogue.move,
        Stock.catalogue_quarantined hitem]
      rfl
    | none =>
      refine ⟨s, _, reject_missing h hs hid hlength hitem _, hs, ?_, fun _ => rfl⟩
      rw [Catalogue.answer, Call.id, if_pos hid, Catalogue.move, Stock.catalogue_missing hitem]
      cases s.approved.lookup id with
      | some n => rfl
      | none => rfl

end

theorem call_answers (h : p.Hold q fs) (hs : s.Sound) (c : Call)
    (hlength : c.id.length ≤ ItemId.maxItemId) : Answers p q fs s c := by
  cases c with
  | approve id => exact approve_answers h hs hlength
  | reject id process count => exact reject_answers h hs hlength process count

/-- From the stock on, calls do to what stands below the roots what they do to the catalogue. -/
theorem serve_stock (h : p.Hold q fs) (hs : s.Sound) (calls : List Call)
    (hlength : ∀ c ∈ calls, c.id.length ≤ ItemId.maxItemId) :
    ∃ s', (q.serve (p.stock fs s) calls).1 = p.stock fs s' ∧ s'.Sound ∧
      s.catalogue.serve calls = (s'.catalogue,
        (q.serve (p.stock fs s) calls).2.map (Except.mapError QuarantineError.kind)) := by
  induction calls generalizing s with
  | nil => exact ⟨s, rfl, hs, rfl⟩
  | cons c rest ih =>
    obtain ⟨m, outcome, hcall, hm, hanswer, -⟩ := call_answers h hs c (hlength c List.mem_cons_self)
    obtain ⟨s', hfiles, hs', hserve⟩ :=
      ih hm fun other hother => hlength other (List.mem_cons_of_mem _ hother)
    refine ⟨s', ?_, hs', ?_⟩
    · rw [serve, hcall]
      exact hfiles
    · simp only [serve, Catalogue.serve, hcall, hanswer, hserve, List.map_cons]

/-- An item of a quarantine is quarantined, approved or absent. Calls take it from one to the other
as the catalogue says, and end as the catalogue says. After any calls, there are only items below
the two roots, none of them below both, and all else is as it was; and a further call that fails
leaves all files as they are. -/
theorem serve_refines (h : p.Hold q fs) (hs : s.Sound)
    (hroot : fs.nodeAt? p.root = some (.directory s.quarantined))
    (happroved : fs.nodeAt? p.approved = some (.directory s.approved)) (calls : List Call)
    (hlength : ∀ c ∈ calls, c.id.length ≤ ItemId.maxItemId) :
    ∃ s', (q.serve fs calls).1 = p.stock fs s' ∧ s'.Sound ∧
      (q.serve fs calls).1.nodeAt? p.root = some (.directory s'.quarantined) ∧
      (q.serve fs calls).1.nodeAt? p.approved = some (.directory s'.approved) ∧
      s.catalogue.serve calls = (s'.catalogue,
        (q.serve fs calls).2.map (Except.mapError QuarantineError.kind)) ∧
      ∀ c : Call, c.id.length ≤ ItemId.maxItemId →
        (c.perform q (q.serve fs calls).1).2 ≠ .ok () →
          (c.perform q (q.serve fs calls).1).1 = (q.serve fs calls).1 := by
  obtain ⟨s', hfiles, hs', hserve⟩ := serve_stock h hs calls hlength
  rw [Places.stock_self hroot happroved] at hfiles hserve
  rw [hfiles]
  refine ⟨s', rfl, hs', Places.nodeAt?_root h s', Places.nodeAt?_approved h s', hserve, ?_⟩
  intro c hc hfails
  obtain ⟨s'', outcome, hcall, -, -, hsame⟩ := call_answers h hs' c hc
  rw [hcall] at hfails ⊢
  rw [hsame hfails]

/-! ## A quarantine of one item -/

/-- The empty item `a`, waiting in the directory `q` for its approval into `p`. -/
def oneItem : Stock := ⟨[("a".ascii, Node.empty)], []⟩

def oneItemFiles : FileSystem :=
  ⟨.directory [("q".ascii, .directory oneItem.quarantined), ("p".ascii, Node.empty)], []⟩

def besideRoots : Places := ⟨["q".ascii], ["p".ascii]⟩

theorem oneItem_sound : oneItem.Sound where
  quarantined := by simp [oneItem, Node.UniqueNames]
  approved := by simp [oneItem, Node.UniqueNames]
  items := by
    intro e he
    obtain rfl : e = ("a".ascii, Node.empty) := by simpa [oneItem] using he
    exact ⟨by decide, by decide, ⟨[], rfl⟩⟩
  apart := by simp [oneItem]

theorem areNames_singleton {name : Text} (h : Path.IsName name) : Path.AreNames [name] := by
  intro other hother
  exact List.mem_singleton.mp hother ▸ h

theorem isName_q : Path.IsName "q".ascii := ItemId.isName_of_isValid (by decide)
theorem isName_a : Path.IsName "a".ascii := ItemId.isName_of_isValid (by decide)
theorem isName_p : Path.IsName "p".ascii := ItemId.isName_of_isValid (by decide)

/-- A name leads from the topmost directory to the directory of that name. -/
theorem leadsTo_name {fs : FileSystem} {name : Text} {es : List (Text × Node)}
    (hname : Path.IsName name) (hstart : fs.workingDirectory = [])
    (hdir : fs.nodeAt? [name] = some (.directory es)) :
    fs.LeadsTo name [name] es := by
  have hfits : FileSystem.Fits name :=
    ⟨hname.ne_nil, hname.noZero, Nat.le_trans hname.length_le (by decide)⟩
  refine FileSystem.locate_of_follow hfits (Or.inr (Or.inl ⟨es, rfl⟩)) ?_
  rw [FileSystem.startOf, hname.isAbsolute, hstart, hname.names_eq]
  exact FileSystem.follow_names (areNames_singleton hname) hdir

/-- Wherever there are two directories `q` and `p`, they are the roots of a quarantine. -/
theorem hold_besideRoots {fs : FileSystem} (hstart : fs.workingDirectory = [])
    (hroot : fs.isDirectoryAt besideRoots.root) (happroved : fs.isDirectoryAt besideRoots.approved) :
    besideRoots.Hold ⟨"q".ascii, "p".ascii⟩ fs := by
  have hapart : Node.Apart besideRoots.root besideRoots.approved := by
    unfold Node.Apart
    decide
  exact
    { apart := hapart
      rootNames := areNames_singleton isName_q
      approvedNames := areNames_singleton isName_p
      rootIsDirectory := hroot
      approvedIsDirectory := happroved
      rootLeads := leadsTo_name isName_q hstart (Places.nodeAt?_stock_root hapart hroot _)
      approvedLeads :=
        leadsTo_name isName_p hstart (Places.nodeAt?_stock_approved hapart happroved _)
      rootNoZero := isName_q.noZero
      approvedNoZero := isName_p.noZero
      rootRoom := by decide
      approvedRoom := by decide
      tombRoom := by decide }

theorem besideRoots_hold : besideRoots.Hold ⟨"q".ascii, "p".ascii⟩ oneItemFiles :=
  hold_besideRoots rfl rfl rfl

theorem serve_refines_oneItem :
    (serve ⟨"q".ascii, "p".ascii⟩ oneItemFiles
      [.approve "a".ascii, .approve "a".ascii, .reject "a".ascii 1 0, .reject "b".ascii 1 0]).2.map
        (Except.mapError QuarantineError.kind) =
      [.ok (), .error .alreadyExists, .error .notFound, .error .notFound] := by
  obtain ⟨s', -, -, -, -, hserve, -⟩ := serve_refines besideRoots_hold oneItem_sound rfl rfl
    [.approve "a".ascii, .approve "a".ascii, .reject "a".ascii 1 0, .reject "b".ascii 1 0]
    (by decide)
  exact (congrArg Prod.snd hserve).symm.trans rfl

/-! ## A root behind an item -/

/-- The same roots, but the path of the one leads through the item. -/
def throughItem : Quarantine := ⟨"q/a/..".ascii, "p".ascii⟩

theorem oneItem_root :
    oneItemFiles.nodeAt? besideRoots.root = some (.directory oneItem.quarantined) := rfl

theorem throughItem_fits : FileSystem.Fits throughItem.root := ⟨by decide, by decide, by decide⟩

theorem names_throughItem : Path.names throughItem.root = ["q".ascii, "a".ascii, Path.dotDot] := by
  decide

/-- The path leads to the root as long as there is the item. -/
theorem throughItem_leadsTo :
    oneItemFiles.LeadsTo throughItem.root besideRoots.root oneItem.quarantined := by
  refine FileSystem.locate_of_follow throughItem_fits (Or.inr (Or.inl ⟨_, rfl⟩)) ?_
  rw [names_throughItem]
  calc oneItemFiles.follow true FileSystem.maxLinks [] ["q".ascii, "a".ascii, Path.dotDot]
      = oneItemFiles.follow true FileSystem.maxLinks ["q".ascii] ["a".ascii, Path.dotDot] :=
        FileSystem.follow_directory rfl isName_q oneItem_root
    _ = oneItemFiles.follow true FileSystem.maxLinks ["q".ascii, "a".ascii] [Path.dotDot] :=
        FileSystem.follow_directory oneItem_root isName_a rfl
    _ = oneItemFiles.follow true FileSystem.maxLinks ["q".ascii] [] :=
        FileSystem.follow_dotDot rfl
    _ = .ok ⟨besideRoots.root, some (.directory oneItem.quarantined)⟩ := FileSystem.follow_nil

/-- Without the item, nothing is found below the path. -/
theorem removeTree_throughItem {files : FileSystem} {es : List (Text × Node)} {name : Text}
    (hname : Path.IsName name) (hlength : (Path.join throughItem.root name).length ≤ maxPath)
    (hstart : files.workingDirectory = [])
    (hfiles : files.nodeAt? ["q".ascii] = some (.directory es))
    (hitem : es.lookup "a".ascii = none) :
    files.removeTree (Path.join throughItem.root name) = .ok files := by
  obtain ⟨_, hroot⟩ := FileSystem.nodeAt?_nil_of_directory hfiles
  have hfits : FileSystem.Fits (Path.join throughItem.root name) :=
    { ne_nil := Path.join_ne_nil hname
      noZero := Path.not_mem_join hname (by decide) throughItem_fits.noZero hname.noZero
      length_le := hlength }
  have hslash := Path.endsInSlash_join throughItem.root hname
  have hbegin : files.startOf (Path.join throughItem.root name) = [] := by
    rw [FileSystem.startOf, Path.isAbsolute_join hname throughItem_fits.ne_nil]
    exact hstart
  -- Following the path ends at the missing item, before the dots lead back.
  have hfollow : files.follow false FileSystem.maxLinks []
      (["q".ascii, "a".ascii, Path.dotDot] ++ [name]) = .error .notFound := by
    apply (FileSystem.follow_directory hroot isName_q hfiles).trans
    apply (FileSystem.follow_name hfiles isName_a (by simp [FileSystem.NoLink, hitem])).trans
    rw [hitem]
    rfl
  rw [FileSystem.removeTree, FileSystem.locate_of_fits hfits, hslash, hbegin, Path.names_join hname,
    names_throughItem, Bool.or_self, hfollow]
  rfl

/-- A rejection by such a path succeeds, but leaves the tombstone. -/
theorem tombstone_stays :
    oneItemFiles.LeadsTo throughItem.root besideRoots.root oneItem.quarantined ∧
    oneItemFiles.LeadsTo throughItem.approvedRoot besideRoots.approved oneItem.approved ∧
    Node.Apart besideRoots.root besideRoots.approved ∧ oneItem.Sound ∧
    ∃ files, (Call.reject "a".ascii 1 0).perform throughItem oneItemFiles = (files, .ok ()) ∧
      files.nodeAt? (besideRoots.root ++ [tombName "a".ascii (mark 1 0)]) = some Node.empty := by
  have hq := besideRoots_hold
  have hid : ItemId.isValid "a".ascii = true := by decide
  obtain ⟨htomb, hshort⟩ := isName_tombName hid (by decide) 1 0
  have hitem : oneItem.quarantined.lookup "a".ascii = some Node.empty := rfl
  have hfree := oneItem_sound.lookup_tombName "a".ascii (mark 1 0)
  have hlength : (Path.join throughItem.root (tombName "a".ascii (mark 1 0))).length ≤ maxPath := by
    have hjoin := Path.length_join_le throughItem.root htomb
    have hsix : throughItem.root.length = 6 := by decide
    have hroom : 6 + 1 + maxTombName ≤ maxPath := by decide
    omega
  have hstock : besideRoots.stock oneItemFiles oneItem = oneItemFiles := Places.stock_self rfl rfl
  have hsource := locate_quarantined hq oneItem_sound hid (by decide)
  have hexists := FileSystem.entryExists_of_locate hsource
  have hopen := openPath_item hq oneItem_sound hid (by decide) hitem
  -- The rename still finds the item on its way, the deletion after it does not.
  have htarget := FileSystem.locate_join false throughItem_fits throughItem_leadsTo htomb
    hlength (by simp [FileSystem.NoLink, hfree])
  rw [hstock] at hsource hexists hopen
  rw [hitem] at hsource
  rw [hfree] at htarget
  have hresolve := QuarantineStep.resolvePath_entry hid hq.rootNames throughItem_leadsTo
    (noLink_of_isItem fun _ => oneItem_sound.isItem_quarantined) (by decide)
  have hrename := FileSystem.renameNew_of_locate hsource htarget
    (tombName_not_inside hid besideRoots.root (mark 1 0))
  have hmoved := Places.setAt_root_entry hq oneItem "a".ascii none
  rw [hstock] at hmoved
  rw [hmoved, Places.setAt_root_entry hq] at hrename
  have hgone : (Node.setEntry (tombName "a".ascii (mark 1 0)) (some Node.empty)
      (Node.setEntry "a".ascii none oneItem.quarantined)).lookup "a".ascii = none :=
    (Node.lookup_setEntry_of_ne (tombName_ne hid _).symm).trans
      (oneItem_sound.quarantined.lookup_setEntry_none "a".ascii)
  have hroot := Places.nodeAt?_root hq
    ⟨Node.setEntry (tombName "a".ascii (mark 1 0)) (some Node.empty)
      (Node.setEntry "a".ascii none oneItem.quarantined), oneItem.approved⟩
  have hremove := removeTree_throughItem htomb hlength rfl hroot hgone
  refine ⟨throughItem_leadsTo, leadsTo_name isName_p rfl rfl, hq.apart, oneItem_sound, _, ?_,
    (FileSystem.nodeAt?_concat hroot _).trans (Node.lookup_setEntry_some _ _ _)⟩
  refine Runs.bind ((runs_resolve hresolve).bind ((runs_exists hexists).bind (runs_pure _ _))) ?_
  refine (runs_moveItem hopen hrename).bind (runs_must (runs_ask ?_))
  show QuarantineStep.change _ (FileSystem.removeTree _ _) = _
  rw [tombstone_eq, hremove]
  rfl

end Quarantine

end Triage
