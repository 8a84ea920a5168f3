import Triage.Proofs.Quarantine.Catalogue
import Triage.Proofs.Quarantine.Creation

/-!
Creations, approvals and rejections, one after the other.

A creation whose copy comes to its end gets the first free id (`run_complete`). Any other creation
fails and changes nothing, and so does an approval or a rejection of an id that has no item
(`run_fails`). So of calls that come one after the other, creations get the free ids in their order
(`inTurn_complete`), and no creation fails as long as there are enough ids for all of them, whatever
is approved or rejected in between (`inTurn_enough`).
-/

namespace Triage

namespace Quarantine

/-- The calls as procedures. -/
def mutations {n : Nat} (q : Quarantine) (now : Int) (descriptor : Text) (calls : Fin n → Mutation)
    (i : Fin n) : Procedure (Except QuarantineError (Option Text)) :=
  ((calls i).attempt q now descriptor).run

variable {n : Nat} {p : Places} {q : Quarantine} {fs : FileSystem} {s t : Stock} {base id : Text}
variable {now : Int} {descriptor : Text} {m : Mutation} {content : Node} {rest : List Text}

/-! ## What is claimed -/

section

variable {part : Fin n → Option Bool} {rows : List (Text × Node)} {roles : Fin n → Progress}
variable {item : Node}

theorem Claims.eq_nil (h : Claims s base part rows roles)
    (hroles : ∀ i id item, roles i ≠ .fills id item) : rows = [] := by
  refine List.eq_nil_iff_forall_not_mem.mpr fun row hrow => ?_
  obtain ⟨i, item, hi⟩ := h.exists_owner (List.mem_map_of_mem hrow)
  exact hroles i _ item hi

/-- What a lone caller has claimed is all that is claimed. -/
theorem Claims.eq_singleton {part : Fin 1 → Option Bool} {role : Progress}
    (h : Claims s base part rows fun _ => role) (hrole : role = .fills id item) :
    rows = [(id, item)] := by
  subst hrole
  have hall : ∀ row ∈ rows, row = (id, item) := by
    rintro ⟨x, c⟩ hrow
    obtain ⟨_, hrole⟩ := (h.owned x c).mp (Node.lookup_of_mem h.unique hrow)
    obtain ⟨rfl, rfl⟩ := Progress.fills.inj hrole
    rfl
  have hrows := List.eq_replicate_of_mem hall
  have hmem := Node.mem_of_lookup ((h.owned id item).mpr ⟨0, rfl⟩)
  have hunique := h.unique
  rw [Node.UniqueNames, hrows, List.map_replicate, List.nodup_replicate] at hunique
  rw [hrows, Nat.le_antisymm hunique (List.length_pos_of_mem hmem)]
  rfl

end

/-! ## One call -/

/-- Whether a creation fits does not depend on the items. -/
theorem Mutation.Fits.of_part (hfits : m.Fits p fs s base) (hpart : m.part fs descriptor ≠ none) :
    m.Fits p fs t base := by
  cases m with
  | create source => exact hfits
  | decide call => exact absurd rfl hpart

/-- Calls fit as before with new items that none of them decides on. -/
theorem Mutation.Fits.add {rows : List (Text × Node)} (hfits : m.Fits p fs s base)
    (hnew : ∀ call, m = .decide call → call.id ∉ rows.map Prod.fst) :
    m.Fits p fs (s.add rows) base := by
  cases m with
  | create source => exact hfits
  | decide call =>
    refine ⟨hfits.1, ?_⟩
    rw [Stock.lookup_add, hfits.2, Option.none_or, Node.lookup_eq_none_iff]
    exact hnew call rfl

section

variable (h : p.Admits q fs) (ht : t.Sound) (hbase : IsBase base)
  (heq : baseId now descriptor = base)

include h ht hbase heq

/-- A call that runs alone keeps to the protocol of creations. -/
theorem run_mutation (hfits : m.Fits p fs t base) : ∃ rows role,
    ((m.attempt q now descriptor).run.run (p.stock fs t)).1 = p.stock fs (t.add rows) ∧
      Claims t base (fun _ : Fin 1 => m.part fs descriptor) rows (fun _ => role) ∧
      m.Ends fs t now descriptor role
        ((m.attempt q now descriptor).run.run (p.stock fs t)).2 := by
  have hfar : ∀ call, m = .decide call → call.id ∉ (t.freeIds base).take
      (claimers fun _ : Fin 1 => m.part fs descriptor).length := by
    rintro call rfl hmem
    exact absurd hmem List.not_mem_nil
  have hupholds : (creating p fs t base fun _ : Fin 1 => m.part fs descriptor).Upholds 0
      (fun role _ outcome => m.Ends fs t now descriptor role outcome)
      (m.attempt q now descriptor).run (.looks 1) .closed :=
    upholds_mutation h ht hbase heq hfits rfl hfar
  obtain ⟨rows, role, -, hfiles, hclaims, hends⟩ :=
    hupholds.run (Claims.start t base _) rfl
  have hrole : Function.update (fun _ : Fin 1 => Progress.looks 1) 0 role = fun _ => role := by
    funext i
    rw [Subsingleton.elim i 0, Function.update_self]
  rw [files_creating, Stock.add_nil] at hfiles hends
  rw [hrole] at hclaims
  exact ⟨rows, role, hfiles, hclaims, hends⟩

section

variable {role : Progress} {rows : List (Text × Node)}
  (hclaims : Claims t base (fun _ : Fin 1 => m.part fs descriptor) rows fun _ => role)

omit h ht hbase heq in
include hclaims in
/-- As long as there is a free id, a lone creation finds it. -/
theorem Claims.lone_ne_full (hsome : m.part fs descriptor ≠ none) (hroom : t.freeIds base ≠ []) :
    role ≠ .looks (maxCandidates + 1) := by
  refine hclaims.exists_unclaimed (i := 0) hsome ?_
  refine Nat.le_trans (List.length_filter_le _ _) ?_
  rw [List.length_finRange]
  exact List.length_pos_iff.mpr hroom

end

/-- A call that has nothing to copy to the end fails and changes nothing. -/
theorem run_fails (hfits : m.Fits p fs t base) (hpart : m.part fs descriptor ≠ some true)
    (hroom : m.part fs descriptor ≠ none → t.freeIds base ≠ []) :
    ∃ e, (m.attempt q now descriptor).run.run (p.stock fs t) = (p.stock fs t, .error e) ∧
      e.kind = m.failure fs t descriptor := by
  obtain ⟨rows, role, hfiles, hclaims, hends⟩ := run_mutation h ht hbase heq hfits
  obtain ⟨hrole, e, houtcome, hkind⟩ :=
    hends.exists_error hpart fun hsome => hclaims.lone_ne_full hsome (hroom hsome)
  rw [hclaims.eq_nil fun _ => hrole, Stock.add_nil] at hfiles
  exact ⟨e, Prod.ext hfiles houtcome, hkind⟩

/-- A creation whose copy comes to its end gets the first free id. -/
theorem run_complete (hfits : m.Fits p fs t base)
    (hcontent : m.content? fs descriptor = some (content, true))
    (hfree : t.freeIds base = id :: rest) :
    (m.attempt q now descriptor).run.run (p.stock fs t) =
        (p.stock fs (t.add [(id, newItem now descriptor id content)]), .ok (some id)) ∧
      (t.add [(id, newItem now descriptor id content)]).Sound := by
  obtain ⟨rows, role, hfiles, hclaims, hends⟩ := run_mutation h ht hbase heq hfits
  have hpart : m.part fs descriptor = some true := by rw [Mutation.part, hcontent]; rfl
  have hsound := hclaims.sound ht hbase
  generalize houtcome : ((m.attempt q now descriptor).run.run (p.stock fs t)).2 = outcome at hends
  -- A complete copy excludes that the call fails, and a free id that it finds none.
  cases hends with
  | fails hbroken => exact absurd hpart hbroken
  | full hsome =>
    exact absurd rfl (hclaims.lone_ne_full hsome (by rw [hfree]; exact List.cons_ne_nil _ _))
  | @gives content' hcontent' x =>
    obtain rfl : content' = content := by
      rw [hcontent'] at hcontent
      exact (Prod.mk.inj (Option.some.inj hcontent)).1
    have hrows := hclaims.eq_singleton rfl
    have hfirst := hclaims.first fun _ => by simp [hpart]
    rw [hrows, hfree] at hfirst
    obtain rfl : x = id := List.cons_prefix_cons.mp hfirst |>.1
    rw [hrows] at hfiles hsound
    exact ⟨Prod.ext hfiles houtcome, hsound⟩

omit ht heq in
/-- An approval or a rejection of an item succeeds, and the item is gone. -/
theorem runs_decide {call : Call} {item : Node} (ht : t.Sound) (hid : IsCandidate base call.id)
    (hitem : t.quarantined.lookup call.id = some item) :
    ∃ t', Runs (call.attempt q) (p.stock fs t) (p.stock fs t') (.ok ()) ∧
      t'.quarantined.lookup call.id = none := by
  cases call with
  | approve id =>
    exact ⟨_, approve_quarantined h.toHold ht (hid.isValid hbase) (hid.length_le hbase) hitem,
      ht.quarantined.lookup_setEntry_none id⟩
  | reject id process count =>
    exact ⟨_, reject_quarantined h.toHold ht (hid.isValid hbase) (hid.length_le hbase) hitem process
      count, ht.quarantined.lookup_setEntry_none id⟩

/-! ## What stays free -/

omit h ht hbase heq in
theorem Stock.isFree_iff_catalogue : s.isFree id ↔ s.catalogue id = none := by
  rw [isFree_iff, catalogue]
  cases s.quarantined.lookup id with
  | some n => simp
  | none => simp

omit h ht hbase heq in
/-- No call makes an item. -/
theorem Catalogue.answer_eq_none {m : Catalogue} {c : Call} (hnone : m id = none) :
    (m.answer c).1 id = none := by
  have hother : ∀ {x status tree}, m x = some (status, tree) → ∀ v,
      Function.update m x v id = none := by
    intro x status tree hx v
    rw [Function.update_of_ne, hnone]
    rintro rfl
    rw [hnone] at hx
    contradiction
  rw [answer]
  split
  · cases c with
    | approve x =>
      rw [move]
      split
      · exact hother ‹_› _
      · exact hnone
      · exact hnone
    | reject x process count =>
      rw [move]
      split
      · exact hother ‹_› _
      · exact hnone
  · exact hnone

omit h ht hbase heq in
theorem Stock.length_freeIds_le (hfree : ∀ id, s.isFree id → t.isFree id) (base : Text) :
    (s.freeIds base).length ≤ (t.freeIds base).length :=
  (List.monotone_filter_right _ hfree).length_le

/-- Only a creation whose copy comes to its end takes an id, and it takes one. -/
theorem run_keeps (hfits : m.Fits p fs s base) : ∃ t' outcome,
    (m.attempt q now descriptor).run.run (p.stock fs t) = (p.stock fs t', outcome) ∧ t'.Sound ∧
      (t.freeIds base).length ≤
        (t'.freeIds base).length + if m.part fs descriptor = some true then 1 else 0 := by
  cases m with
  | create source =>
    have hfits' : (Mutation.create source).Fits p fs t base := hfits
    -- Only a complete copy uses up a free id.
    cases hfree : t.freeIds base with
    | nil =>
      obtain ⟨rows, role, hfiles, hclaims, -⟩ := run_mutation h ht hbase heq hfits'
      exact ⟨t.add rows, _, Prod.ext hfiles rfl, hclaims.sound ht hbase, Nat.zero_le _⟩
    | cons id rest =>
      by_cases hpart : (Mutation.create source).part fs descriptor = some true
      · obtain ⟨⟨content, complete⟩, hcontent, rfl⟩ := Option.map_eq_some_iff.mp hpart
        obtain ⟨hrun, hsound⟩ := run_complete h ht hbase heq hfits' hcontent hfree
        refine ⟨_, _, hrun, hsound, ?_⟩
        have hrest : (t.add [(id, newItem now descriptor id content)]).freeIds base = rest :=
          Stock.freeIds_add_prefix hfree
        rw [if_pos hpart, hrest, List.length_cons]
      · obtain ⟨e, hrun, -⟩ := run_fails h ht hbase heq hfits' hpart fun _ => by simp [hfree]
        exact ⟨t, _, hrun, ht, by rw [hfree]; exact Nat.le_add_right _ _⟩
  | decide call =>
    obtain ⟨t', outcome, hcall, hsound, hanswer, -⟩ :=
      call_answers h.toHold ht call (hfits.1.length_le hbase)
    have hcatalogue : (t.catalogue.answer call).1 = t'.catalogue := congrArg Prod.fst hanswer
    have hfree : ∀ x, t.isFree x → t'.isFree x := by
      intro x hx
      rw [Stock.isFree_iff_catalogue] at hx ⊢
      rw [← hcatalogue]
      exact Catalogue.answer_eq_none hx
    have hrun : Runs (call.attempt q) (p.stock fs t) (p.stock fs t') outcome := hcall
    refine ⟨t', outcome.map fun _ => none, ?_, hsound,
      Nat.le_add_right_of_le (Stock.length_freeIds_le hfree base)⟩
    cases outcome with
    | ok => exact hrun.bind (runs_pure _ _)
    | error e => exact hrun.bind_error

end

/-! ## Calls in a row -/

/-- The copy of this caller comes to its end, and is the item with this id. -/
def Fills (now : Int) (fs : FileSystem) (descriptor : Text) (calls : Fin n → Mutation)
    (roles : Fin n → Progress) (i : Fin n) (row : Text × Node) : Prop :=
  ∃ content, (calls i).content? fs descriptor = some (content, true) ∧
    row = (row.1, newItem now descriptor row.1 content) ∧ roles i = .fills row.1 row.2

/-- Each caller fills one item, and each item is filled by one caller. -/
theorem Claims.biUnique_fills {calls : Fin n → Mutation} {part : Fin n → Option Bool}
    {rows : List (Text × Node)} {roles : Fin n → Progress}
    (hclaims : Claims s base part rows roles) :
    Relator.BiUnique (Fills now fs descriptor calls roles) := by
  constructor
  · rintro i j row ⟨-, -, -, hi⟩ ⟨-, -, -, hj⟩
    exact hclaims.single _ _ _ _ _ hi hj
  · rintro i ⟨x, c⟩ ⟨y, d⟩ ⟨-, -, -, hi⟩ ⟨-, -, -, hj⟩
    obtain ⟨rfl, rfl⟩ := Progress.fills.inj (hi.symm.trans hj)
    rfl

theorem Fills.eq_of_fills {calls : Fin n → Mutation} {roles : Fin n → Progress} {i : Fin n}
    {row : Text × Node} {item : Node} (hfills : Fills now fs descriptor calls roles i row)
    (hrole : roles i = .fills id item) : row = (id, item) := by
  obtain ⟨-, -, -, hrow⟩ := hfills
  obtain ⟨hid, hitem⟩ := Progress.fills.inj (hrow.symm.trans hrole)
  exact Prod.ext hid hitem

/-- If each item is filled by a caller, the callers can be put into the order of the items. -/
theorem exists_fillers {calls : Fin n → Mutation} {roles : Fin n → Progress}
    {rows : List (Text × Node)}
    (hrows : ∀ row ∈ rows, ∃ i, Fills now fs descriptor calls roles i row) :
    ∃ order, List.Forall₂ (Fills now fs descriptor calls roles) order rows := by
  induction rows with
  | nil => exact ⟨[], .nil⟩
  | cons row rows ih =>
    rw [List.forall_mem_cons] at hrows
    obtain ⟨i, hi⟩ := hrows.1
    obtain ⟨order, horder⟩ := ih hrows.2
    exact ⟨i :: order, .cons hi horder⟩

section

variable {calls : Fin n → Mutation} {roles : Fin n → Progress} {rows : List (Text × Node)}
variable (h : p.Admits q fs) (hbase : IsBase base) (heq : baseId now descriptor = base)

include h hbase heq

/-- Calls that have nothing to copy to the end leave everything as it is. -/
theorem inTurn_fails {order : List (Fin n)} (ht : t.Sound)
    (hfits : ∀ i ∈ order, (calls i).Fits p fs t base)
    (hpart : ∀ i ∈ order, (calls i).part fs descriptor ≠ some true)
    (hroom : ∀ i ∈ order, (calls i).part fs descriptor ≠ none → t.freeIds base ≠ []) :
    (Race.inTurn (mutations q now descriptor calls) (p.stock fs t) order).1 = p.stock fs t ∧
      ∀ e ∈ (Race.inTurn (mutations q now descriptor calls) (p.stock fs t) order).2,
        ∃ error, e.2 = .error error ∧ error.kind = (calls e.1).failure fs t descriptor := by
  induction order with
  | nil => exact ⟨rfl, fun _ he => (nomatch he)⟩
  | cons i order ih =>
    rw [List.forall_mem_cons] at hfits hpart hroom
    obtain ⟨hfiles, hvalues⟩ := ih hfits.2 hpart.2 hroom.2
    obtain ⟨e, hrun, hkind⟩ := run_fails h ht hbase heq hfits.1 hpart.1 hroom.1
    rw [Race.inTurn, mutations, hrun]
    exact ⟨hfiles, List.forall_mem_cons.mpr ⟨⟨e, rfl, hkind⟩, hvalues⟩⟩

/-- Creations whose copies come to their ends get the free ids in their order. -/
theorem inTurn_complete {order : List (Fin n)} (ht : t.Sound)
    (hfits : ∀ i, (calls i).Fits p fs s base)
    (hfills : List.Forall₂ (Fills now fs descriptor calls roles) order rows)
    (hfree : rows.map Prod.fst <+: t.freeIds base) :
    (Race.inTurn (mutations q now descriptor calls) (p.stock fs t) order).1 =
        p.stock fs (t.add rows) ∧
      ∀ e ∈ (Race.inTurn (mutations q now descriptor calls) (p.stock fs t) order).2,
        ∃ id item, roles e.1 = .fills id item ∧ e.2 = .ok (some id) := by
  induction hfills generalizing t with
  | nil =>
    rw [Stock.add_nil]
    exact ⟨rfl, fun _ he => (nomatch he)⟩
  | @cons i row order rows hfills _ ih =>
    obtain ⟨content, hcontent, hrow, hrole⟩ := hfills
    obtain ⟨rest, hrest⟩ := hfree
    have hpart : (calls i).part fs descriptor ≠ none := by simp [Mutation.part, hcontent]
    obtain ⟨hrun, hsound⟩ :=
      run_complete h ht hbase heq ((hfits i).of_part hpart) hcontent hrest.symm
    rw [← hrow] at hrun hsound
    have hnext : (t.add [row]).freeIds base = rows.map Prod.fst ++ rest :=
      Stock.freeIds_add_prefix hrest.symm
    obtain ⟨hfiles, hvalues⟩ := ih hsound ⟨rest, hnext.symm⟩
    rw [Race.inTurn, mutations, hrun]
    rw [Stock.add_add] at hfiles
    exact ⟨hfiles, List.forall_mem_cons.mpr ⟨⟨row.1, row.2, hrole, rfl⟩, hvalues⟩⟩

/-- Calls that take turns leave items only, and no id below both roots. -/
theorem inTurn_sound (order : List (Fin n)) (ht : t.Sound)
    (hfits : ∀ i, (calls i).Fits p fs s base) : ∃ t',
      (Race.inTurn (mutations q now descriptor calls) (p.stock fs t) order).1 = p.stock fs t' ∧
        t'.Sound := by
  induction order generalizing t with
  | nil => exact ⟨t, rfl, ht⟩
  | cons i order ih =>
    obtain ⟨t', outcome, hrun, hsound, -⟩ := run_keeps h ht hbase heq (hfits i)
    rw [Race.inTurn, mutations, hrun]
    exact ih hsound

/-- If there are enough free ids, no creation fails whose copy comes to its end. -/
theorem inTurn_enough {order : List (Fin n)} (ht : t.Sound)
    (hfits : ∀ i, (calls i).Fits p fs s base)
    (hroom : (order.filter fun i => (calls i).part fs descriptor = some true).length ≤
      (t.freeIds base).length) :
    ∀ e ∈ (Race.inTurn (mutations q now descriptor calls) (p.stock fs t) order).2,
      (calls e.1).part fs descriptor = some true → ∃ id, e.2 = .ok (some id) := by
  induction order generalizing t with
  | nil => exact fun _ he => (nomatch he)
  | cons i order ih =>
    obtain ⟨t', outcome, hrun, hsound, hkeeps⟩ := run_keeps h ht hbase heq (hfits i)
    rw [Race.inTurn, mutations, hrun]
    refine List.forall_mem_cons.mpr ⟨fun hpart => ?_, ih hsound ?_⟩
    · rw [List.filter_cons_of_pos (by simpa using hpart), List.length_cons] at hroom
      obtain ⟨id, rest, hfree⟩ := List.exists_cons_of_length_pos (Nat.zero_lt_of_lt hroom)
      obtain ⟨⟨content, complete⟩, hcontent, rfl⟩ := Option.map_eq_some_iff.mp hpart
      have hsome : (calls i).part fs descriptor ≠ none := by simp [hpart]
      obtain ⟨hcreate, -⟩ :=
        run_complete h ht hbase heq ((hfits i).of_part hsome) hcontent hfree
      rw [hrun] at hcreate
      exact ⟨id, congrArg Prod.snd hcreate⟩
    · rw [List.filter_cons] at hroom
      by_cases hpart : (calls i).part fs descriptor = some true
      · simp only [hpart, decide_true, if_true, List.length_cons] at hroom hkeeps
        omega
      · simp only [hpart, decide_false, if_false, Bool.false_eq_true] at hroom hkeeps
        omega

end

end Quarantine

end Triage
