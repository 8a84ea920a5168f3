import Triage.Proofs.Quarantine.Catalogue
import Triage.Proofs.Quarantine.Claims

/-!
Creations that are under way at once.

As long as no new item is approved or rejected, all calls keep to one protocol: a creation claims an
id and acts on its own item only (`upholds_create`), and an approval or a rejection of an id that has
no item fails and changes nothing (`upholds_decide`).
-/

namespace Triage

open Triage.Path (IsName AreNames)
open FileSystem (maxPath absoluteText)

namespace Quarantine

/-! ## Calls -/

/-- A call that changes the quarantine. -/
inductive Mutation where
  | create (source : Text)
  | decide (call : Call)
  deriving DecidableEq, Repr

namespace Mutation

/-- What a call does. A creation gives the id of the new item. -/
def attempt (q : Quarantine) (now : Int) (descriptor : Text) : Mutation → Attempt (Option Text)
  | create source => do
    let id ← q.create now descriptor source
    pure (some id)
  | decide call => do
    call.attempt q
    pure none

/-- The content that a creation copies, as far as it can be copied, and whether the copy is complete;
nothing if it does not come to a copy. -/
def content? (fs : FileSystem) (descriptor : Text) : Mutation → Option (Node × Bool)
  | create source =>
    match Source.check descriptor with
    | .ok () => contentOf? fs source
    | .error _ => none
  | decide _ => none

/-- Whether the copy of a creation is complete, if it comes to one. -/
def part (fs : FileSystem) (descriptor : Text) (m : Mutation) : Option Bool :=
  (m.content? fs descriptor).map Prod.snd

/-- What a creation copies is no part of the quarantine; what is approved or rejected has a name that
a new item can get, and is not quarantined yet. -/
def Fits (p : Places) (fs : FileSystem) (s : Stock) (base : Text) : Mutation → Prop
  | create source => p.Beside fs source
  | decide call => IsCandidate base call.id ∧ s.quarantined.lookup call.id = none

/-- With which kind of error a call fails that has no complete copy. -/
def failure (fs : FileSystem) (s : Stock) (descriptor : Text) : Mutation → QuarantineErrorKind
  | create source =>
    match Source.check descriptor, QuarantineStep.inspectPath fs source with
    | .error _, _ => .invalidSource
    | .ok (), none => .notFound
    | .ok (), some _ => .io
  | decide (.approve id) => if (s.approved.lookup id).isSome then .alreadyExists else .notFound
  | decide (.reject ..) => .notFound

/-- Items that are only quarantined change no failure. -/
theorem failure_add (fs : FileSystem) (s : Stock) (descriptor : Text) (m : Mutation)
    (rows : List (Text × Node)) : m.failure fs (s.add rows) descriptor = m.failure fs s descriptor := by
  cases m with
  | create source => rfl
  | decide call => cases call <;> rfl

/-- How a call can end that has come so far. -/
inductive Ends (fs : FileSystem) (s : Stock) (now : Int) (descriptor : Text) (m : Mutation) :
    Progress → Except QuarantineError (Option Text) → Prop where
  /-- A creation whose copy is complete gives the id of the item that it has filled. -/
  | gives {content : Node} (hcontent : m.content? fs descriptor = some (content, true)) (id : Text) :
    Ends fs s now descriptor m (.fills id (newItem now descriptor id content)) (.ok (some id))
  /-- A creation has found all ids claimed. -/
  | full (hpart : m.part fs descriptor ≠ none) (e : QuarantineError) :
    Ends fs s now descriptor m (.looks (maxCandidates + 1)) (.error e)
  | fails {role : Progress} {e : QuarantineError} (hpart : m.part fs descriptor ≠ some true)
    (hrole : ∀ id item, role ≠ .fills id item) (hkind : e.kind = m.failure fs s descriptor) :
    Ends fs s now descriptor m role (.error e)

theorem contentOf?_of_content? {fs : FileSystem} {descriptor source : Text} {copy : Node × Bool}
    (h : (create source).content? fs descriptor = some copy) : contentOf? fs source = some copy := by
  rw [content?] at h
  split at h
  · exact h
  · contradiction

theorem check_of_content? {fs : FileSystem} {descriptor source : Text} {copy : Node × Bool}
    (h : (create source).content? fs descriptor = some copy) : Source.check descriptor = .ok () := by
  rw [content?] at h
  split at h
  · assumption
  · contradiction

/-- Whether it comes to a copy is seen from the source. -/
theorem part_create_eq_none_iff (fs : FileSystem) {descriptor : Text} (source : Text)
    (hcheck : Source.check descriptor = .ok ()) : (create source).part fs descriptor = none ↔
      ∀ kind, QuarantineStep.inspectPath fs source = some kind → kind = .other := by
  rw [part, content?, hcheck]
  unfold contentOf? QuarantineStep.inspectPath
  cases fs.node false source with
  | error e => simp
  | ok c => cases c <;> simp

variable {fs : FileSystem} {s : Stock} {now : Int} {descriptor : Text} {m : Mutation}
variable {role : Progress} {outcome : Except QuarantineError (Option Text)}

/-- A creation gives the id of the item that it has filled. -/
theorem Ends.exists_fills {id : Text} (h : m.Ends fs s now descriptor role (.ok (some id))) :
    ∃ item, role = .fills id item := by
  cases h with
  | gives hcontent => exact ⟨_, rfl⟩

/-- Only a complete copy makes a call succeed. -/
theorem Ends.exists_error (h : m.Ends fs s now descriptor role outcome)
    (hpart : m.part fs descriptor ≠ some true)
    (hroom : m.part fs descriptor ≠ none → role ≠ .looks (maxCandidates + 1)) :
    (∀ id item, role ≠ .fills id item) ∧
      ∃ e, outcome = .error e ∧ e.kind = m.failure fs s descriptor := by
  cases h with
  | gives hcontent => exact absurd (congrArg (Option.map Prod.snd) hcontent) hpart
  | full hsome => exact absurd rfl (hroom hsome)
  | fails _ hrole hkind => exact ⟨hrole, _, rfl, hkind⟩

end Mutation

/-! ## Claiming, then copying -/

/-- What a creation does until it has claimed an id. -/
def prepare (q : Quarantine) (now : Int) (descriptor source : Text) :
    Attempt (SourceKind × Text × Text) := do
  match Source.check descriptor with
  | .ok () => pure ()
  | .error e => throw (.invalidSource e)
  match ← Attempt.ask (.inspect source) with
  | none => throw (.noSource source)
  | some .other => throw (.unusableSource source)
  | some kind =>
    q.makeRoots
    let (id, path) ← q.claim (baseId now descriptor) maxCandidates 1
    pure (kind, id, path)

theorem create_eq (q : Quarantine) (now : Int) (descriptor source : Text) :
    q.create now descriptor source = q.prepare now descriptor source >>= fun (kind, id, path) =>
      finish kind now descriptor source id path := by
  unfold create prepare
  cases Source.check descriptor with
  | error e => rfl
  | ok =>
    simp only [bind_assoc]
    refine bind_congr fun kind => ?_
    rcases kind with - | - | - | -
    · rfl
    · simp only [bind_assoc]
      rfl
    · simp only [bind_assoc]
      rfl
    · rfl

/-- How a creation has come to have an id, or to have none. -/
inductive Prepared (p : Places) (fs : FileSystem) (s : Stock) (base descriptor source : Text) :
    Progress → Except QuarantineError (SourceKind × Text × Text) → Prop where
  | claimed {kind : SourceKind} {id : Text}
    (hpart : (Mutation.create source).part fs descriptor ≠ none)
    (hkind : QuarantineStep.inspectPath fs source = some kind) (hid : IsCandidate base id) :
    Prepared p fs s base descriptor source (.fills id Node.empty)
      (.ok (kind, id, absoluteText (p.root ++ [id])))
  | full (hpart : (Mutation.create source).part fs descriptor ≠ none) (e : QuarantineError) :
    Prepared p fs s base descriptor source (.looks (maxCandidates + 1)) (.error e)
  | fails {e : QuarantineError} (hpart : (Mutation.create source).part fs descriptor = none)
    (hkind : e.kind = (Mutation.create source).failure fs s descriptor) :
    Prepared p fs s base descriptor source (.looks 1) (.error e)

/-! ## The protocol -/

variable {n : Nat}

/-- The protocol of creations: what is claimed below the quarantine is the stage of the files. -/
def creating (p : Places) (fs : FileSystem) (s : Stock) (base : Text) (part : Fin n → Option Bool) :
    Protocol n (List (Text × Node)) Progress where
  files rows := p.stock fs (s.add rows)
  Agrees rows roles := Claims s base part rows roles
  Moves i role rows role' rows' := role.Goes s base (part i) rows role' rows'
  agrees_update := Claims.go

variable {p : Places} {q : Quarantine} {fs : FileSystem} {s t : Stock} {base id : Text}
variable {part : Fin n → Option Bool} {i : Fin n} {handle : Handle} {role : Progress}
variable {rows : List (Text × Node)} {α : Type}

section

variable (h : p.Admits q fs) (hid : IsName id) (hlength : id.length ≤ ItemId.maxItemId)

include h hid hlength

/-- Whether an id is approved. -/
theorem entryExists_approved (t : Stock) :
    (p.stock fs t).entryExists (Path.join q.approvedRoot id) = (t.approved.lookup id).isSome := by
  have hjoin := Path.length_join_le q.approvedRoot hid
  have hroom := h.probeRoom
  exact FileSystem.entryExists_of_locate (FileSystem.locate_join_last h.leads.fits_approved
    (h.leads.leadsTo_approved t) hid (by omega))

theorem perform_makeDirectory_taken {c : Node} (hentry : t.quarantined.lookup id = some c) :
    (QuarantineStep.makeDirectory (absoluteText (p.root ++ [id]))).perform (p.stock fs t) =
      (p.stock fs t, .error .fileExists) := by
  have hlocate := h.leads.locate_root t hid (h.itemRoom hlength)
  rw [hentry] at hlocate
  exact QuarantineStep.perform_makeDirectory_taken hlocate

theorem perform_makeDirectory_free (hentry : t.quarantined.lookup id = none) :
    (QuarantineStep.makeDirectory (absoluteText (p.root ++ [id]))).perform (p.stock fs t) =
      (p.stock fs (t.add [(id, Node.empty)]), .ok ()) := by
  have hlocate := h.leads.locate_root t hid (h.itemRoom hlength)
  rw [hentry] at hlocate
  rw [QuarantineStep.perform_makeDirectory_free hlocate, h.leads.setAt_root_entry,
    Node.setEntry_of_lookup hentry]
  rfl

end

theorem files_creating (p : Places) (fs : FileSystem) (s : Stock) (base : Text)
    (part : Fin n → Option Bool) (rows : List (Text × Node)) :
    (creating p fs s base part).files rows = p.stock fs (s.add rows) := rfl

/-- An item that is claimed can be changed like any other one. -/
theorem Stock.put_add (hid : s.quarantined.lookup id = none) (v : Option Node) :
    (s.add rows).put id v = s.add (Node.setEntry id v rows) := by
  rw [put, add, add, Node.setEntry_append hid]

/-! ## What a creation does -/

section

variable {ends : Progress → Handle → α → Prop}

theorem upholds_roots (h : p.Admits q fs) {ends : Progress → Handle → Except QuarantineError α → Prop}
    {next : Unit → Attempt α}
    (hnext : (creating p fs s base part).Upholds i ends (next ()).run role handle) :
    (creating p fs s base part).Upholds i ends (q.makeRoots >>= next).run role handle := by
  refine Protocol.upholds_bind.mpr (Protocol.upholds_bind.mpr (Protocol.upholds_must.mpr ?_))
  refine ⟨trivial, fun rows _ => ⟨rows, .ok (), h.leads.makeRoot_root _, ?_⟩⟩
  intro after hafter
  subst hafter
  refine ⟨role, .stays _ _, Protocol.upholds_must.mpr ?_⟩
  refine ⟨trivial, fun rows _ => ⟨rows, .ok (), h.leads.makeRoot_approved _, ?_⟩⟩
  intro after hafter
  subst hafter
  exact ⟨role, .stays _ _, hnext⟩

/-- A caller that acts on its own item only keeps to the protocol. -/
theorem upholds_actsOn {procedure : Procedure α} {item : Node} {item' : Option Node} {a : α}
    (hacts : ActsOn p fs id procedure item item' a) (hpart : item' = none → part i = some false)
    (hends : ends (item'.elim (.left id) (.fills id)) handle a) :
    (creating p fs s base part).Upholds i ends procedure (.fills id item) handle := by
  have hfind : ∀ {rows c}, (creating p fs s base part).Finds i (.fills id c) rows →
      s.quarantined.lookup id = none ∧ (s.add rows).quarantined.lookup id = some c := by
    rintro rows c ⟨roles, hclaims, hi⟩
    have hfree := (hclaims.lookup_eq_none_of_mem_names (hclaims.mem_names hi)).1
    refine ⟨hfree, ?_⟩
    rw [Stock.lookup_add, hfree, (hclaims.owned _ _).mpr ⟨i, hi⟩]
    rfl
  -- Whatever the others do meanwhile, the caller finds its own item as it left it.
  induction hacts with
  | done a item => exact hends
  | step hstep _ ih =>
    obtain ⟨hplain, hdirectory, hperform⟩ := hstep
    refine ⟨hplain.ready handle, fun rows hrows => ?_⟩
    obtain ⟨hfree, hitem⟩ := hfind hrows
    refine ⟨_, _, (hperform _ hitem).trans (by rw [Stock.put_add hfree]; rfl), ?_⟩
    intro after hafter
    obtain rfl := hplain.eq_of_leaves hafter
    exact ⟨_, .fills (hdirectory _ rfl), ih hpart hends⟩
  | remove hstep hnext =>
    obtain ⟨hplain, -, hperform⟩ := hstep
    refine ⟨hplain.ready handle, fun rows hrows => ?_⟩
    obtain ⟨hfree, hitem⟩ := hfind hrows
    refine ⟨_, _, (hperform _ hitem).trans (by rw [Stock.put_add hfree]; rfl), ?_⟩
    intro after hafter
    obtain rfl := hplain.eq_of_leaves hafter
    refine ⟨_, .leaves (hpart rfl), ?_⟩
    rw [hnext]
    exact hends

end

section

variable (h : p.Admits q fs) (hs : s.Sound) (hbase : IsBase base)

include h hs hbase

/-- What a caller finds of the paths of a candidate, whatever has been claimed. -/
theorem resolvePath_root_of_finds (hid : IsCandidate base id)
    (hfinds : (creating p fs s base part).Finds i role rows) :
    QuarantineStep.resolvePath ((creating p fs s base part).files rows) q.root id =
      .ok (absoluteText (p.root ++ [id])) := by
  obtain ⟨roles, hclaims, -⟩ := hfinds
  exact resolvePath_root h.toHold (hclaims.sound hs hbase) (hid.isValid hbase) (hid.length_le hbase)

theorem resolvePath_approved_of_finds (hid : IsCandidate base id)
    (hfinds : (creating p fs s base part).Finds i role rows) :
    QuarantineStep.resolvePath ((creating p fs s base part).files rows) q.approvedRoot id =
      .ok (absoluteText (p.approved ++ [id])) := by
  obtain ⟨roles, hclaims, -⟩ := hfinds
  exact resolvePath_approved h.toHold (hclaims.sound hs hbase) (hid.isValid hbase)
    (hid.length_le hbase)

omit hs in
/-- The directory of a candidate that is not approved can be made once. -/
theorem upholds_make {k : Nat} {next : Except FileError Unit → Attempt α}
    {ends : Progress → Handle → Except QuarantineError α → Prop} (hk : 1 ≤ k)
    (hmax : k ≤ maxCandidates) (hpart : part i ≠ none)
    (happroved : s.approved.lookup (candidate base k) = none)
    (htaken : (creating p fs s base part).Upholds i ends (next (.error .fileExists)).run
      (.looks (k + 1)) handle)
    (hmade : (creating p fs s base part).Upholds i ends (next (.ok ())).run
      (.fills (candidate base k) Node.empty) handle) :
    (creating p fs s base part).Upholds i ends
      (Attempt.ask (.makeDirectory (absoluteText (p.root ++ [candidate base k]))) >>= next).run
      (.looks k) handle := by
  have hid : IsCandidate base (candidate base k) := ⟨k, hk, hmax, rfl⟩
  have hname := hid.isName hbase
  have hlength := hid.length_le hbase
  refine Protocol.upholds_ask trivial fun rows hrows => ?_
  obtain ⟨roles, hclaims, hi⟩ := hrows
  -- Either another caller has made the directory, or the id is claimed now.
  cases hentry : (s.add rows).quarantined.lookup (candidate base k) with
  | some c =>
    refine ⟨rows, _, perform_makeDirectory_taken h hname hlength hentry, ?_⟩
    intro after hafter
    subst hafter
    refine ⟨.looks (k + 1), .skips fun hfree => ?_, htaken⟩
    rw [Stock.lookup_add, (Stock.isFree_iff.mp (Stock.mem_freeIds.mp hfree).2).1,
      Option.none_or] at hentry
    exact List.mem_map_of_mem (Node.mem_of_lookup hentry)
  | none =>
    have hperform := perform_makeDirectory_free h hname hlength hentry
    rw [Stock.add_add] at hperform
    refine ⟨_, _, hperform, ?_⟩
    intro after hafter
    subst hafter
    rw [Stock.lookup_add, Option.or_eq_none_iff] at hentry
    have hfree := Stock.mem_freeIds.mpr ⟨hid, Stock.isFree_iff.mpr ⟨hentry.1, happroved⟩⟩
    exact ⟨_, .claims hk hfree (Node.lookup_eq_none_iff.mp hentry.2) hpart, hmade⟩

/-- A creation claims an id, or finds that all of them are claimed. -/
theorem upholds_claim {left k : Nat} (hk : 1 ≤ k) (hleft : k + left = maxCandidates + 1)
    (hpart : part i ≠ none) {ends : Progress → Handle → Except QuarantineError (Text × Text) → Prop}
    (hclaimed : ∀ id, IsCandidate base id →
      ends (.fills id Node.empty) handle (.ok (id, absoluteText (p.root ++ [id]))))
    (hfull : ∀ e, ends (.looks (maxCandidates + 1)) handle (.error e)) :
    (creating p fs s base part).Upholds i ends (q.claim base left k).run (.looks k) handle := by
  induction left generalizing k with
  | zero =>
    obtain rfl : k = maxCandidates + 1 := hleft
    exact hfull _
  | succ left ih =>
    have hmax : k ≤ maxCandidates := by omega
    have hid : IsCandidate base (candidate base k) := ⟨k, hk, hmax, rfl⟩
    have hnext := ih (k := k + 1) (by omega) (by omega)
    have hprobe : ∀ rows, ((creating p fs s base part).files rows).entryExists
        (Path.join q.approvedRoot (candidate base k)) =
          (s.approved.lookup (candidate base k)).isSome :=
      fun rows => entryExists_approved h (hid.isName hbase) (hid.length_le hbase) (s.add rows)
    rw [claim]
    refine Protocol.upholds_exists fun rows _ => ?_
    rw [hprobe]
    -- Nothing is approved meanwhile, so the second look finds what the first did.
    cases happroved : s.approved.lookup (candidate base k) with
    | some c =>
      refine ⟨.looks (k + 1), .skips fun hfree => ?_, hnext⟩
      rw [(Stock.isFree_iff.mp (Stock.mem_freeIds.mp hfree).2).2] at happroved
      contradiction
    | none =>
      refine ⟨.looks k, .stays _ _, Protocol.upholds_resolve fun rows hrows => ?_⟩
      refine ⟨.looks k, .stays _ _, ?_⟩
      rw [resolvePath_root_of_finds h hs hbase hid hrows]
      refine upholds_make h hbase hk hmax hpart happroved hnext ?_
      refine Protocol.upholds_exists fun rows _ => ⟨_, .stays _ _, ?_⟩
      rw [hprobe, happroved]
      exact hclaimed _ hid

end

/-! ## Whole calls -/

section

variable {now : Int} {descriptor source : Text}
variable (h : p.Admits q fs) (hs : s.Sound) (hbase : IsBase base)

include h

/-- A creation fills the item that it has claimed, or removes it. -/
theorem upholds_finish {kind : SourceKind} {content : Node} {complete : Bool}
    (hbeside : p.Beside fs source) (hkind : QuarantineStep.inspectPath fs source = some kind)
    (hcontent : (Mutation.create source).content? fs descriptor = some (content, complete))
    (hid : IsName id) (hlength : id.length ≤ ItemId.maxItemId) (hpart : part i = some complete) :
    (creating p fs s base part).Upholds i
      (fun role _ outcome => (Mutation.create source).Ends fs s now descriptor role
        (outcome.map some))
      (finish kind now descriptor source id (absoluteText (p.root ++ [id]))).run
      (.fills id Node.empty) handle := by
  have hcopy := Mutation.contentOf?_of_content? hcontent
  cases complete with
  | true =>
    have hacts := actsOn_finish_complete h hbeside hid hlength hkind hcopy now descriptor
    exact upholds_actsOn hacts (fun hnone => (nomatch hnone)) (.gives hcontent id)
  | false =>
    obtain ⟨e, he, hacts⟩ := actsOn_finish_broken h hbeside hid hlength hkind hcopy now descriptor
    refine upholds_actsOn hacts (fun _ => hpart) (.fails ?_ (fun _ _ => Progress.noConfusion) ?_)
    · simp [Mutation.part, hcontent]
    · rw [he, Mutation.failure, Mutation.check_of_content? hcontent, hkind]

include hs hbase

/-- A creation that comes to a copy claims an id for it. -/
theorem upholds_claimFor {kind : SourceKind} (heq : baseId now descriptor = base)
    (hpart : part i = (Mutation.create source).part fs descriptor)
    (hsome : (Mutation.create source).part fs descriptor ≠ none)
    (hkind : QuarantineStep.inspectPath fs source = some kind) :
    (creating p fs s base part).Upholds i
      (fun role _ outcome => Prepared p fs s base descriptor source role outcome)
      (q.makeRoots >>= fun _ => q.claim (baseId now descriptor) maxCandidates 1 >>=
        fun (id, path) => pure (kind, id, path)).run (.looks 1) handle := by
  rw [heq]
  refine upholds_roots h (Protocol.upholds_bind.mpr ?_)
  exact upholds_claim h hs hbase (Nat.le_refl 1) rfl (by rwa [hpart])
    (fun id hid => .claimed hsome hkind hid) (.full hsome)

/-- A creation claims an id if it comes to a copy, and fails if it does not. -/
theorem upholds_prepare (hbeside : p.Beside fs source) (heq : baseId now descriptor = base)
    (hpart : part i = (Mutation.create source).part fs descriptor) :
    (creating p fs s base part).Upholds i
      (fun role _ outcome => Prepared p fs s base descriptor source role outcome)
      (q.prepare now descriptor source).run (.looks 1) handle := by
  unfold prepare
  cases hcheck : Source.check descriptor with
  | error e =>
    refine .fails ?_ ?_
    · rw [Mutation.part, Mutation.content?, hcheck]
      rfl
    · rw [Mutation.failure, hcheck]
      rfl
  | ok =>
    have hnone := Mutation.part_create_eq_none_iff fs source hcheck
    have hsome : ∀ kind, QuarantineStep.inspectPath fs source = some kind → kind ≠ .other →
        (Mutation.create source).part fs descriptor ≠ none :=
      fun kind hkind hother hpart => hother (hnone.mp hpart kind hkind)
    refine Protocol.upholds_ask trivial fun rows _ => ⟨rows, _, rfl, ?_⟩
    intro after hafter
    obtain rfl : handle = after := hafter.symm
    rw [files_creating, hbeside.inspectPath_eq]
    refine ⟨_, .stays _ _, ?_⟩
    cases hkind : QuarantineStep.inspectPath fs source with
    | none =>
      refine .fails (hnone.mpr (by simp [hkind])) ?_
      rw [Mutation.failure, hcheck, hkind]
      rfl
    | some kind =>
      cases kind with
      | file => exact upholds_claimFor h hs hbase heq hpart (hsome _ hkind (by decide)) hkind
      | directory => exact upholds_claimFor h hs hbase heq hpart (hsome _ hkind (by decide)) hkind
      | other =>
        refine .fails (hnone.mpr (by simp [hkind])) ?_
        rw [Mutation.failure, hcheck, hkind]
        rfl

theorem upholds_create (hbeside : p.Beside fs source) (heq : baseId now descriptor = base)
    (hpart : part i = (Mutation.create source).part fs descriptor) :
    (creating p fs s base part).Upholds i
      (fun role _ outcome => (Mutation.create source).Ends fs s now descriptor role
        (outcome.map some))
      (q.create now descriptor source).run (.looks 1) handle := by
  rw [create_eq]
  refine Protocol.upholds_bind.mpr
    ((upholds_prepare h hs hbase hbeside heq hpart).mono fun role handle outcome hprepared => ?_)
  cases hprepared with
  | full hsome e => exact .full hsome e
  | fails hnone hkind =>
    exact .fails (by simp [hnone]) (fun _ _ => Progress.noConfusion) hkind
  | @claimed kind id hsome hkind hid =>
    obtain ⟨⟨content, complete⟩, hcopy⟩ :=
      Option.ne_none_iff_exists'.mp fun hnone => hsome (congrArg (Option.map Prod.snd) hnone)
    rw [Mutation.part, hcopy] at hpart
    exact upholds_finish h hbeside hkind hcopy (hid.isName hbase) (hid.length_le hbase) hpart

/-- A candidate that is quarantined neither before nor through a claim is not found. -/
theorem entryExists_root_of_finds (hid : IsCandidate base id)
    (hmissing : s.quarantined.lookup id = none)
    (hfar : id ∉ (s.freeIds base).take (claimers part).length)
    (hfinds : (creating p fs s base part).Finds i role rows) :
    ((creating p fs s base part).files rows).entryExists (absoluteText (p.root ++ [id])) =
      false := by
  obtain ⟨roles, hclaims, -⟩ := hfinds
  have hnew : rows.lookup id = none := by
    rw [Node.lookup_eq_none_iff]
    exact fun hmem => hfar (hclaims.mem_take (fun _ _ => hclaims.mem_claimers_of_claimed) hmem)
  refine (FileSystem.entryExists_of_locate (locate_quarantined h.toHold
    (hclaims.sound hs hbase) (hid.isValid hbase) (hid.length_le hbase))).trans ?_
  rw [Stock.lookup_add, hmissing, hnew]
  rfl

theorem entryExists_approved_of_finds (hid : IsCandidate base id)
    (hfinds : (creating p fs s base part).Finds i role rows) :
    ((creating p fs s base part).files rows).entryExists (absoluteText (p.approved ++ [id])) =
      (s.approved.lookup id).isSome := by
  obtain ⟨roles, hclaims, -⟩ := hfinds
  exact FileSystem.entryExists_of_locate (locate_approved h.toHold (hclaims.sound hs hbase)
    (hid.isValid hbase) (hid.length_le hbase))

/-- An approval or a rejection fails as long as the id has no item. -/
theorem upholds_decide {call : Call} (hid : IsCandidate base call.id)
    (hmissing : s.quarantined.lookup call.id = none)
    (hfar : call.id ∉ (s.freeIds base).take (claimers part).length) :
    (creating p fs s base part).Upholds i
      (fun role _ outcome => (Mutation.decide call).Ends fs s now descriptor role
        (outcome.map fun _ => none))
      (call.attempt q).run (.looks 1) handle := by
  have hroot : ∀ rows, (creating p fs s base part).Finds i (.looks 1) rows →
      QuarantineStep.resolvePath ((creating p fs s base part).files rows) q.root call.id =
        .ok (absoluteText (p.root ++ [call.id])) :=
    fun rows => resolvePath_root_of_finds h hs hbase hid
  have happroved : ∀ rows, (creating p fs s base part).Finds i (.looks 1) rows →
      QuarantineStep.resolvePath ((creating p fs s base part).files rows) q.approvedRoot call.id =
        .ok (absoluteText (p.approved ++ [call.id])) :=
    fun rows => resolvePath_approved_of_finds h hs hbase hid
  have hexists : ∀ rows, (creating p fs s base part).Finds i (.looks 1) rows →
      ((creating p fs s base part).files rows).entryExists
        (absoluteText (p.root ++ [call.id])) = false :=
    fun rows => entryExists_root_of_finds h hs hbase hid hmissing hfar
  have hprobe : ∀ rows, (creating p fs s base part).Finds i (.looks 1) rows →
      ((creating p fs s base part).files rows).entryExists
        (absoluteText (p.approved ++ [call.id])) = (s.approved.lookup call.id).isSome :=
    fun rows => entryExists_approved_of_finds h hs hbase hid
  have hfails : ∀ {e : QuarantineError}, e.kind = (Mutation.decide call).failure fs s descriptor →
      (Mutation.decide call).Ends fs s now descriptor (.looks 1) (.error e) :=
    .fails (fun hpart => (nomatch hpart)) fun _ _ => Progress.noConfusion
  cases call with
  | approve id =>
    rw [Call.id] at hroot happroved hexists hprobe
    refine Protocol.upholds_resolve fun rows hrows => ⟨.looks 1, .stays _ _, ?_⟩
    rw [hroot rows hrows]
    refine Protocol.upholds_resolve fun rows hrows => ⟨.looks 1, .stays _ _, ?_⟩
    rw [happroved rows hrows]
    refine Protocol.upholds_exists fun rows hrows => ⟨.looks 1, .stays _ _, ?_⟩
    rw [hexists rows hrows]
    refine Protocol.upholds_exists fun rows hrows => ⟨.looks 1, .stays _ _, ?_⟩
    rw [hprobe rows hrows]
    rw [Mutation.failure] at hfails
    cases hitem : (s.approved.lookup id).isSome with
    | true => exact hfails (by rw [hitem]; rfl)
    | false => exact hfails (by rw [hitem]; rfl)
  | reject id process count =>
    rw [Call.id] at hroot happroved hexists hprobe
    refine Protocol.upholds_bind.mpr ?_
    refine Protocol.upholds_resolve fun rows hrows => ⟨.looks 1, .stays _ _, ?_⟩
    rw [hroot rows hrows]
    refine Protocol.upholds_exists fun rows hrows => ⟨.looks 1, .stays _ _, ?_⟩
    rw [hexists rows hrows]
    refine Protocol.upholds_resolve fun rows hrows => ⟨.looks 1, .stays _ _, ?_⟩
    rw [happroved rows hrows]
    refine Protocol.upholds_exists fun rows hrows => ⟨.looks 1, .stays _ _, ?_⟩
    rw [hprobe rows hrows]
    cases (s.approved.lookup id).isSome with
    | true => exact hfails rfl
    | false => exact hfails rfl

theorem upholds_mutation (heq : baseId now descriptor = base) {m : Mutation}
    (hfits : m.Fits p fs s base) (hpart : part i = m.part fs descriptor)
    (hfar : ∀ call, m = .decide call → call.id ∉ (s.freeIds base).take (claimers part).length) :
    (creating p fs s base part).Upholds i
      (fun role _ outcome => m.Ends fs s now descriptor role outcome)
      (m.attempt q now descriptor).run (.looks 1) handle := by
  cases m with
  | create source =>
    refine Protocol.upholds_bind.mpr ((Protocol.upholds_congr fun role handle outcome => ?_).mp
      (upholds_create h hs hbase hfits heq hpart))
    cases outcome with
    | ok id => exact Iff.rfl
    | error e => exact Iff.rfl
  | decide call =>
    have hdecide : (creating p fs s base part).Upholds i
        (fun role _ outcome => (Mutation.decide call).Ends fs s now descriptor role
          (outcome.map fun _ => none))
        (call.attempt q).run (.looks 1) handle :=
      upholds_decide h hs hbase hfits.1 hfits.2 (hfar call rfl)
    refine Protocol.upholds_bind.mpr ((Protocol.upholds_congr fun role handle outcome => ?_).mp
      hdecide)
    cases outcome with
    | ok => exact Iff.rfl
    | error e => exact Iff.rfl

end

end Quarantine

end Triage
