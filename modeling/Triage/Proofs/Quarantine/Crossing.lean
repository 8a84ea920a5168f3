import Triage.Proofs.Quarantine.Alone
import Triage.Proofs.Quarantine.Mutations

/-!
Calls that cross.

A creation claims an id, fills its item, and takes no lock for that. So some calls that are under way
at once do what no calls do that come one after the other. If one creation claims an id and its copy
breaks off, the others pass over an id that is free at the end (`exists_mixed`). And if an item is
approved or rejected before it is filled, its creation fails for no reason of its own
(`exists_decided`). The runs that show it are made of callers that go on alone, each up to the next
point where it stops.
-/

namespace Triage

open FileSystem (absoluteText)

namespace Quarantine

variable {n : Nat} {p : Places} {q : Quarantine} {fs : FileSystem} {s : Stock} {now : Int}
variable {descriptor : Text} {calls : Fin n → Mutation}

/-! ## Calls at once -/

/-- Which of the calls copy something, and whether the copy comes to its end. -/
def parts (fs : FileSystem) (descriptor : Text) (calls : Fin n → Mutation) (i : Fin n) :
    Option Bool :=
  (calls i).part fs descriptor

/-- A quarantine with room for what the calls make, before any of them has begun. -/
structure Places.Hosts (p : Places) (q : Quarantine) (fs : FileSystem) (s : Stock) (now : Int)
    (descriptor : Text) (calls : Fin n → Mutation) : Prop where
  admits : p.Admits q fs
  sound : s.Sound
  root : fs.nodeAt? p.root = some (.directory s.quarantined)
  approved : fs.nodeAt? p.approved = some (.directory s.approved)
  baseRoom : (baseId now descriptor).length + 5 ≤ ItemId.maxItemId
  fits : ∀ i, (calls i).Fits p fs s (baseId now descriptor)
  enough : (claimers (parts fs descriptor calls)).length ≤ (s.freeIds (baseId now descriptor)).length

/-- The calls, all of them about to begin. -/
def rush (q : Quarantine) (fs : FileSystem) (now : Int) (descriptor : Text)
    (calls : Fin n → Mutation) : Race n (Except QuarantineError (Option Text)) :=
  Race.start fs (mutations q now descriptor calls)

/-- What a caller is told: the id of its item, or with which kind of error its call has failed. -/
def told : Except QuarantineError (Option Text) → Except QuarantineErrorKind (Option Text) :=
  Except.mapError QuarantineError.kind

@[simp]
theorem told_error (e : QuarantineError) : told (.error e) = .error e.kind := rfl

section

variable (h : p.Hosts q fs s now descriptor calls)

include h

theorem Places.Hosts.stock_eq : p.stock fs s = fs := Places.stock_self h.root h.approved

theorem Places.Hosts.isBase : IsBase (baseId now descriptor) := isBase_baseId h.baseRoom

theorem Places.Hosts.freeIds_ne_nil {i : Fin n} (hi : parts fs descriptor calls i ≠ none) :
    s.freeIds (baseId now descriptor) ≠ [] :=
  List.length_pos_iff.mp ((List.length_pos_of_mem (mem_claimers.mpr hi)).trans_le h.enough)

/-! ## Creations that stop -/

omit h in
theorem attempt_create (q : Quarantine) (now : Int) (descriptor source : Text) :
    (Mutation.create source).attempt q now descriptor =
      q.prepare now descriptor source >>= fun (kind, id, path) =>
        finish kind now descriptor source id path >>= fun id => pure (some id) := by
  rw [Mutation.attempt, create_eq, bind_assoc]

/-- Nobody has anything open, and these items are claimed. -/
structure Rests (p : Places) (fs : FileSystem) (s : Stock) (now : Int) (descriptor : Text)
    (calls : Fin n → Mutation) (rows : List (Text × Node)) (roles : Fin n → Progress)
    (r : Race n (Except QuarantineError (Option Text))) : Prop where
  resting : r.Resting
  files : r.files = p.stock fs (s.add rows)
  claims : Claims s (baseId now descriptor) (parts fs descriptor calls) rows roles

/-- The caller has not begun. -/
def Idle (q : Quarantine) (now : Int) (descriptor : Text) (calls : Fin n → Mutation)
    (roles : Fin n → Progress) (r : Race n (Except QuarantineError (Option Text))) (i : Fin n) :
    Prop :=
  roles i = .looks 1 ∧ (r.callers i).rest = mutations q now descriptor calls i

/-- The creation has claimed an id and has done nothing else. -/
def HasClaimed (p : Places) (now : Int) (descriptor : Text) (roles : Fin n → Progress)
    (r : Race n (Except QuarantineError (Option Text))) (i : Fin n) : Prop :=
  ∃ source kind id, roles i = .fills id Node.empty ∧ IsCandidate (baseId now descriptor) id ∧
    (r.callers i).rest = (finish kind now descriptor source id (absoluteText (p.root ++ [id])) >>=
      fun id => pure (some id)).run

variable {rows : List (Text × Node)} {roles : Fin n → Progress}
variable {r : Race n (Except QuarantineError (Option Text))} {i : Fin n}

/-- A creation that has not begun can claim an id. -/
theorem Rests.claim (hrests : Rests p fs s now descriptor calls rows roles r)
    (hidle : Idle q now descriptor calls roles r i) (hpart : parts fs descriptor calls i ≠ none) :
    ∃ r' rows' role, r.Reaches r' ∧
      Rests p fs s now descriptor calls rows' (Function.update roles i role) r' ∧
      HasClaimed p now descriptor (Function.update roles i role) r' i ∧
      ∀ j, j ≠ i → (r'.callers j).rest = (r.callers j).rest := by
  obtain ⟨hrole, hrest⟩ := hidle
  have hfits := h.fits i
  cases hcall : calls i with
  | decide call =>
    rw [parts, hcall] at hpart
    exact absurd rfl hpart
  | create source =>
    rw [hcall] at hfits
    have hupholds : (creating p fs s (baseId now descriptor) (parts fs descriptor calls)).Upholds i _
        (q.prepare now descriptor source).run (.looks 1) .closed :=
      upholds_prepare h.admits h.sound h.isBase hfits rfl (by rw [parts, hcall])
    obtain ⟨rows', role, -, hfiles, hclaims, hprepared⟩ := hupholds.run hrests.claims hrole
    rw [files_creating] at hfiles hprepared
    rw [mutations, hcall, attempt_create] at hrest
    generalize houtcome : ((q.prepare now descriptor source).run.run (p.stock fs (s.add rows))).2 =
      outcome at hprepared
    cases hprepared with
    | full =>
      -- There is an id for each creation.
      exact absurd (Function.update_self ..) (Claims.exists_unclaimed hclaims hpart h.enough)
    | fails hnone =>
      rw [parts, hcall, hnone] at hpart
      exact absurd rfl hpart
    | @claimed kind id hsome hkind hid =>
      have hruns : Runs (q.prepare now descriptor source) r.files (p.stock fs (s.add rows'))
          (.ok (kind, id, absoluteText (p.root ++ [id]))) := by
        rw [hrests.files]
        exact Prod.ext hfiles houtcome
      obtain ⟨r', hreaches, hresting, hfiles', hrest', hothers⟩ := hrests.resting.run_bind hrest
        hruns (tidy_prepare ..) fun _ => tidy_bind (tidy_finish ..) fun _ => rfl
      exact ⟨r', rows', _, hreaches, ⟨hresting, hfiles', hclaims⟩,
        ⟨source, kind, id, Function.update_self .., hid, hrest'⟩, hothers⟩

/-- Creations can claim an id each, with no other caller having begun. -/
theorem exists_hasClaimed {callers : List (Fin n)} (hnodup : callers.Nodup)
    (hcallers : ∀ i ∈ callers, parts fs descriptor calls i ≠ none) : ∃ r rows roles,
      (rush q fs now descriptor calls).Reaches r ∧ Rests p fs s now descriptor calls rows roles r ∧
        (∀ i ∈ callers, HasClaimed p now descriptor roles r i) ∧
        ∀ i, i ∉ callers → Idle q now descriptor calls roles r i := by
  induction callers with
  | nil =>
    refine ⟨_, [], fun _ => .looks 1, .refl, ⟨Race.resting_start fun i => tidy_mutation .., ?_,
      Claims.start _ _ _⟩, fun _ hi => (nomatch hi), fun i _ => ⟨rfl, rfl⟩⟩
    rw [Stock.add_nil, h.stock_eq]
    rfl
  | cons i callers ih =>
    rw [List.nodup_cons] at hnodup
    rw [List.forall_mem_cons] at hcallers
    obtain ⟨r, rows, roles, hreaches, hrests, hclaimed, hidle⟩ := ih hnodup.2 hcallers.2
    obtain ⟨r', rows', role, hreaches', hrests', hnew, hrest⟩ :=
      Rests.claim h hrests (hidle i hnodup.1) hcallers.1
    have hrole : ∀ j, j ≠ i → Function.update roles i role j = roles j :=
      fun j hj => Function.update_of_ne hj ..
    refine ⟨r', rows', _, hreaches.trans hreaches', hrests', ?_, fun j hj => ?_⟩
    · refine List.forall_mem_cons.mpr ⟨hnew, fun j hj => ?_⟩
      have hji : j ≠ i := fun heq => hnodup.1 (heq ▸ hj)
      rw [HasClaimed, hrole j hji, hrest j hji]
      exact hclaimed j hj
    · obtain ⟨hji, hj⟩ := not_or.mp fun hmem => hj (List.mem_cons.mpr hmem)
      rw [Idle, hrole j hji, hrest j hji]
      exact hidle j hj

/-- A creation that has not begun can come to its end. -/
theorem Rests.create (hrests : Rests p fs s now descriptor calls rows roles r)
    (hidle : Idle q now descriptor calls roles r i) (hpart : parts fs descriptor calls i ≠ none) :
    ∃ r' rows' role outcome, r.Reaches r' ∧
      Rests p fs s now descriptor calls rows' (Function.update roles i role) r' ∧
      r'.outcome? i = some outcome ∧
      (calls i).Ends fs s now descriptor role outcome ∧
      ∀ j, j ≠ i → (r'.callers j).rest = (r.callers j).rest := by
  obtain ⟨hrole, hrest⟩ := hidle
  have hupholds : (creating p fs s (baseId now descriptor) (parts fs descriptor calls)).Upholds i _
      (mutations q now descriptor calls i) (.looks 1) .closed :=
    upholds_mutation h.admits h.sound h.isBase rfl (h.fits i) rfl fun call hcall => by
      rw [parts, hcall] at hpart
      exact absurd rfl hpart
  obtain ⟨rows', role, -, hfiles, hclaims, hends⟩ := hupholds.run hrests.claims hrole
  obtain ⟨r', hreaches, hresting, hfiles', houtcome, hothers⟩ := hrests.resting.finish i
  rw [hrests.files, hrest] at hfiles' houtcome
  exact ⟨r', rows', role, _, hreaches, ⟨hresting, hfiles'.trans hfiles, hclaims⟩, houtcome, hends,
    hothers⟩

/-- Creations that have not begun can come to their ends, and get no id that another caller has. -/
theorem Rests.createAll (hrests : Rests p fs s now descriptor calls rows roles r) {id : Text}
    {item : Node} (hi : roles i = .fills id item) {callers : List (Fin n)} (hnodup : callers.Nodup)
    (hcallers : ∀ j ∈ callers, parts fs descriptor calls j ≠ none)
    (hidle : ∀ j ∈ callers, Idle q now descriptor calls roles r j) :
    ∃ r' rows' roles', r.Reaches r' ∧ Rests p fs s now descriptor calls rows' roles' r' ∧
      (∀ j ∈ callers, ∃ outcome, r'.outcome? j = some outcome ∧ outcome ≠ .ok (some id)) ∧
      ∀ j, j ∉ callers → roles' j = roles j ∧ (r'.callers j).rest = (r.callers j).rest := by
  induction callers with
  | nil => exact ⟨r, rows, roles, .refl, hrests, fun _ hj => (nomatch hj), fun _ _ => ⟨rfl, rfl⟩⟩
  | cons j callers ih =>
    rw [List.nodup_cons] at hnodup
    rw [List.forall_mem_cons] at hcallers hidle
    obtain ⟨r₁, rows₁, roles₁, hreaches₁, hrests₁, hdone, hsame⟩ := ih hnodup.2 hcallers.2 hidle.2
    obtain ⟨hrolej, hrestj⟩ := hsame j hnodup.1
    have hidlej : Idle q now descriptor calls roles₁ r₁ j := by
      rw [Idle, hrolej, hrestj]
      exact hidle.1
    obtain ⟨r₂, rows₂, role, outcome, hreaches₂, hrests₂, houtcome, hends, hothers⟩ :=
      Rests.create h hrests₁ hidlej hcallers.1
    have hne : ∀ l, Idle q now descriptor calls roles r l → i ≠ l := by
      rintro l ⟨hl, -⟩ rfl
      rw [hi] at hl
      contradiction
    refine ⟨r₂, rows₂, _, hreaches₁.trans hreaches₂, hrests₂, ?_, fun l hl => ?_⟩
    · refine List.forall_mem_cons.mpr ⟨⟨outcome, houtcome, ?_⟩, fun l hl => ?_⟩
      · -- Another caller has this id.
        rintro rfl
        obtain ⟨item', rfl⟩ := hends.exists_fills
        have hi₁ := (hsame i fun hmem => hne i (hidle.2 i hmem) rfl).1
        refine hne j hidle.1 (hrests₂.claims.single i j id item item' ?_ (Function.update_self ..))
        rw [Function.update_of_ne (hne j hidle.1), hi₁, hi]
      · obtain ⟨other, hother, hid⟩ := hdone l hl
        exact ⟨other, hreaches₂.outcome?_eq hother, hid⟩
    · obtain ⟨hlj, hl⟩ := not_or.mp fun hmem => hl (List.mem_cons.mpr hmem)
      rw [Function.update_of_ne hlj, hothers l hlj]
      exact hsame l hl

omit h in
/-- Nobody has claimed an id without having begun. -/
theorem mem_of_claimed {callers : List (Fin n)}
    (hidle : ∀ j, j ∉ callers → Idle q now descriptor calls roles r j) (j : Fin n) (x : Text)
    (hj : (roles j).claimed? = some x) : j ∈ callers := by
  by_contra hmem
  rw [(hidle j hmem).1] at hj
  contradiction

/-- In turn, the first complete creation gets the first free id. -/
theorem exists_first_complete {id : Text} {rest : List Text}
    (hfree : s.freeIds (baseId now descriptor) = id :: rest)
    (hi : parts fs descriptor calls i = some true) {order : List (Fin n)}
    (horder : order.Perm (List.finRange n)) : ∃ j, parts fs descriptor calls j = some true ∧
      (j, .ok (some id)) ∈ (Race.inTurn (mutations q now descriptor calls) fs order).2 := by
  obtain ⟨j, hj⟩ : ∃ j, order.find? (fun j => parts fs descriptor calls j = some true) = some j := by
    rw [← Option.isSome_iff_exists, List.find?_isSome]
    exact ⟨i, horder.mem_iff.mpr (List.mem_finRange i), by simpa using hi⟩
  obtain ⟨hcomplete, before, after, rfl, hbefore⟩ := List.find?_eq_some_iff_append.mp hj
  have hcomplete : parts fs descriptor calls j = some true := by simpa using hcomplete
  obtain ⟨⟨content, complete⟩, hcontent, rfl⟩ := Option.map_eq_some_iff.mp hcomplete
  obtain ⟨hfails, -⟩ := inTurn_fails h.admits h.isBase rfl h.sound (fun k _ => h.fits k)
    (fun k hk => show parts fs descriptor calls k ≠ some true by simpa using hbefore k hk)
    fun _ _ _ => by simp [hfree]
  obtain ⟨hrun, -⟩ := run_complete h.admits h.sound h.isBase rfl (h.fits j) hcontent hfree
  rw [h.stock_eq] at hfails hrun
  refine ⟨j, hcomplete, ?_⟩
  rw [Race.inTurn_append, hfails, Race.inTurn, mutations, hrun]
  exact List.mem_append_right _ List.mem_cons_self

/-- A creation whose copy breaks off makes the others pass over an id that is free at the end. -/
theorem exists_mixed {j : Fin n} (hi : parts fs descriptor calls i = some true)
    (hj : parts fs descriptor calls j = some false) :
    ∃ r, (rush q fs now descriptor calls).Reaches r ∧ (∀ k, ∃ value, r.outcome? k = some value) ∧
      ¬r.IsSerial told (mutations q now descriptor calls) fs := by
  -- The one claims its id, the others come to their ends, and then it breaks off.
  obtain ⟨r₁, rows₁, roles₁, hreaches₁, hrests₁, hclaimed, hidle⟩ :=
    exists_hasClaimed h (List.nodup_singleton j) (by simp [hj])
  obtain ⟨-, -, id, hrole, -, -⟩ := hclaimed j List.mem_cons_self
  obtain ⟨r₂, rows₂, roles₂, hreaches₂, hrests₂, hdone, -⟩ := Rests.createAll h hrests₁ hrole
    ((List.nodup_finRange n).filter fun k => parts fs descriptor calls k = some true)
    (fun k hk => by simp_all) (fun k hk => hidle k (by rintro hkj; simp_all))
  obtain ⟨r₃, hreaches₃, hend⟩ := hrests₂.resting.complete
  refine ⟨r₃, hreaches₁.trans (hreaches₂.trans hreaches₃), hend, fun hserial => ?_⟩
  obtain ⟨order, hperm, hvalues⟩ := hserial.exists_order
  obtain ⟨rest, hfree⟩ : ∃ rest, s.freeIds (baseId now descriptor) = id :: rest := by
    have hfirst := hrests₁.claims.mem_take (mem_of_claimed hidle) (hrests₁.claims.mem_names hrole)
    cases hfree : s.freeIds (baseId now descriptor) with
    | nil => simp [hfree] at hfirst
    | cons x rest =>
      rw [hfree] at hfirst
      rw [List.mem_singleton.mp hfirst]
      exact ⟨rest, rfl⟩
  obtain ⟨k, hk, hmem⟩ := exists_first_complete (q := q) h hfree hi hperm
  obtain ⟨outcome, houtcome, hother⟩ := hdone k (by simp [hk])
  have hid : told outcome = told (.ok (some id)) :=
    hvalues _ _ _ hmem (hreaches₃.outcome?_eq houtcome)
  cases outcome with
  | error e => contradiction
  | ok value => exact hother (congrArg Except.ok (Except.ok.inj hid))

/-- In turn, no creation fails whose copy comes to its end. -/
theorem complete_succeeds {order : List (Fin n)} (horder : order.Perm (List.finRange n)) {i : Fin n}
    (hi : parts fs descriptor calls i = some true) : ∃ id,
      (i, .ok (some id)) ∈ (Race.inTurn (mutations q now descriptor calls) fs order).2 := by
  have hroom : (order.filter fun i => (calls i).part fs descriptor = some true).length ≤
      (s.freeIds (baseId now descriptor)).length := by
    refine Nat.le_trans ?_ h.enough
    rw [(horder.filter _).length_eq]
    refine (List.monotone_filter_right _ fun i hi => ?_).length_le
    rw [parts, of_decide_eq_true hi]
    rfl
  have henough := inTurn_enough h.admits h.isBase rfl h.sound h.fits hroom
  rw [h.stock_eq] at henough
  obtain ⟨value, hmem⟩ := Race.exists_mem_inTurn (mutations q now descriptor calls) fs
    (horder.mem_iff.mpr (List.mem_finRange i))
  obtain ⟨id, hvalue⟩ := henough _ hmem hi
  obtain rfl : value = .ok (some id) := hvalue
  exact ⟨id, hmem⟩

/-- An item can be approved or rejected before it is filled; then its creation fails. -/
theorem exists_undercut {d : Fin n} {call : Call} (hcall : calls d = .decide call)
    (hid : call.id ∈
      (s.freeIds (baseId now descriptor)).take (claimers (parts fs descriptor calls)).length) :
    ∃ r i e, (rush q fs now descriptor calls).Reaches r ∧ r.Resting ∧
      parts fs descriptor calls i ≠ none ∧ r.outcome? d = some (.ok none) ∧
      r.outcome? i = some (.error e) := by
  obtain ⟨r₁, rows, roles, hreaches₁, hrests, hclaimed, hidle⟩ := exists_hasClaimed h
    (nodup_claimers (parts fs descriptor calls)) fun i => mem_claimers.mp
  -- The id is claimed, but its item is empty.
  have hnames := hrests.claims.mem_names_of_mem_take (nodup_claimers _)
    (mem_of_claimed hidle) (fun i hi => by
      obtain ⟨-, -, id, hrole, -⟩ := hclaimed i hi
      exact ⟨id, _, hrole⟩) hid
  obtain ⟨i, item, hi⟩ := hrests.claims.exists_owner hnames
  have hmem := mem_of_claimed hidle i call.id (by rw [hi]; rfl)
  obtain ⟨source, kind, id, hrole, hcandidate, hresti⟩ := hclaimed i hmem
  obtain ⟨rfl, rfl⟩ := Progress.fills.inj (hi.symm.trans hrole)
  have hd : d ∉ claimers (parts fs descriptor calls) := by
    rw [mem_claimers, parts, hcall]
    exact not_not.mpr rfl
  have hitem : (s.add rows).quarantined.lookup call.id = some Node.empty := by
    rw [Stock.lookup_add, (hrests.claims.lookup_eq_none_of_mem_names hnames).1,
      (hrests.claims.owned _ _).mpr ⟨i, hi⟩]
    rfl
  obtain ⟨t, hdecide, hgone⟩ :=
    runs_decide h.admits h.isBase (hrests.claims.sound h.sound h.isBase) hcandidate hitem
  have hrun : (mutations q now descriptor calls d).run (p.stock fs (s.add rows)) =
      (p.stock fs t, .ok none) := by
    rw [mutations, hcall]
    exact hdecide.bind (runs_pure none _)
  obtain ⟨r₂, hreaches₂, hresting₂, hfiles₂, hdone, hothers⟩ := hrests.resting.finish d
  rw [(hidle d hd).2, hrests.files, hrun] at hfiles₂ hdone
  -- Now the creation finds that its item is gone.
  obtain ⟨r₃, hreaches₃, hresting₃, -, hfailed, -⟩ := hresting₂.finish i
  obtain ⟨e, hmissing⟩ : ∃ e, Runs (finish kind now descriptor source call.id
      (absoluteText (p.root ++ [call.id]))) (p.stock fs t) (p.stock fs t) (.error e) :=
    runs_finish_missing h.admits (hcandidate.isName h.isBase) (hcandidate.length_le h.isBase) hgone
      now descriptor
  rw [hothers i (fun heq => hd (heq ▸ hmem)), hresti, hfiles₂, hmissing.bind_error] at hfailed
  exact ⟨r₃, i, e, hreaches₁.trans (hreaches₂.trans hreaches₃), hresting₃, mem_claimers.mp hmem,
    hreaches₃.outcome?_eq hdone, hfailed⟩

/-- In turn, no creation fails because of an approval or a rejection. -/
theorem exists_decided
    (hcopies : ∀ i j, parts fs descriptor calls i = some true →
      parts fs descriptor calls j ≠ some false)
    {d : Fin n} {call : Call} (hcall : calls d = .decide call)
    (hid : call.id ∈
      (s.freeIds (baseId now descriptor)).take (claimers (parts fs descriptor calls)).length) :
    ∃ r, (rush q fs now descriptor calls).Reaches r ∧ (∀ k, ∃ value, r.outcome? k = some value) ∧
      ¬r.IsSerial told (mutations q now descriptor calls) fs := by
  obtain ⟨r, i, e, hreaches, hresting, hi, hdone, hfailed⟩ := exists_undercut h hcall hid
  obtain ⟨r', hreaches', hend⟩ := hresting.complete
  refine ⟨r', hreaches.trans hreaches', hend, fun hserial => ?_⟩
  -- Suppose some order of the calls explained what they were told.
  obtain ⟨order, hperm, hvalues⟩ := hserial.exists_order
  rcases hpart : parts fs descriptor calls i with - | - | -
  · exact hi hpart
  · -- No copy comes to its end, so in turn there never is an item.
    obtain ⟨-, hfails⟩ := inTurn_fails h.admits h.isBase rfl h.sound (fun k _ => h.fits k)
      (fun k (_ : k ∈ order) hk => hcopies k i hk hpart)
      fun _ _ _ => List.ne_nil_of_mem (List.mem_of_mem_take hid)
    obtain ⟨value, hvalue⟩ := Race.exists_mem_inTurn (mutations q now descriptor calls) fs
      (hperm.mem_iff.mpr (List.mem_finRange d))
    rw [h.stock_eq] at hfails
    obtain ⟨error, hfails, -⟩ := hfails _ hvalue
    obtain rfl : value = .error error := hfails
    have hsucceeds : told (.ok none) = told (.error error) :=
      hvalues _ _ _ hvalue (hreaches'.outcome?_eq hdone)
    contradiction
  · obtain ⟨id, hvalue⟩ := complete_succeeds (q := q) h hperm hpart
    have hfails : told (.error e) = told (.ok (some id)) :=
      hvalues _ _ _ hvalue (hreaches'.outcome?_eq hfailed)
    contradiction

end

end Quarantine

end Triage
