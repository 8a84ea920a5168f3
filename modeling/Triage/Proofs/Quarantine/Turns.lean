import Triage.Proofs.Quarantine.Race

/-!
Procedures that take turns.

Procedures that run one after the other, each as a whole, are the standard by which a race is judged:
it is serial if some order of its procedures leaves the same files and gives each of them the same
value, as far as a view tells values apart (`Race.IsSerial`). What a procedure does in its turn can be
read off the protocol that it keeps to (`Protocol.Upholds.run`).
-/

namespace Triage

/-! ## Rows of steps -/

namespace Procedure

variable {α β γ : Type}

theorem andThen_done (procedure : Procedure α) : procedure.andThen done = procedure := by
  induction procedure with
  | done a => rfl
  | step s next ih => simp only [andThen, ih]

theorem andThen_assoc (procedure : Procedure α) (next : α → Procedure β)
    (last : β → Procedure γ) :
    (procedure.andThen next).andThen last = procedure.andThen fun a => (next a).andThen last := by
  induction procedure with
  | done a => rfl
  | step s rest ih => simp only [andThen, ih]

instance : LawfulMonad Procedure :=
  LawfulMonad.mk' Procedure andThen_done (fun _ _ => rfl) andThen_assoc

end Procedure

/-! ## One after the other -/

namespace Race

variable {n : Nat} {α β : Type}

/-- Runs procedures one after the other and gives the value of each. -/
def inTurn (procedures : Fin n → Procedure α) (fs : FileSystem) :
    List (Fin n) → FileSystem × List (Fin n × α)
  | [] => (fs, [])
  | i :: order =>
    let (fs, value) := (procedures i).run fs
    let (fs, values) := inTurn procedures fs order
    (fs, (i, value) :: values)

/-- Some order of the procedures, each run as a whole, leaves the files of the race and gives the
values of its callers, as far as the view tells values apart. -/
def IsSerial (view : α → β) (procedures : Fin n → Procedure α) (fs : FileSystem) (r : Race n α) :
    Prop :=
  ∃ order : List (Fin n), order.Perm (List.finRange n) ∧
    (inTurn procedures fs order).1 = r.files ∧
    ∀ e ∈ (inTurn procedures fs order).2, (r.outcome? e.1).map view = some (view e.2)

variable {procedures : Fin n → Procedure α} {fs : FileSystem}

theorem IsSerial.exists_order {view : α → β} {r : Race n α} (h : r.IsSerial view procedures fs) :
    ∃ order : List (Fin n), order.Perm (List.finRange n) ∧
      ∀ i value outcome, (i, value) ∈ (inTurn procedures fs order).2 →
        r.outcome? i = some outcome → view outcome = view value := by
  obtain ⟨order, hperm, -, hvalues⟩ := h
  refine ⟨order, hperm, fun i value outcome hmem houtcome => ?_⟩
  have hvalue := hvalues _ hmem
  rw [houtcome] at hvalue
  exact Option.some.inj hvalue

theorem inTurn_append (procedures : Fin n → Procedure α) (fs : FileSystem)
    (order more : List (Fin n)) :
    inTurn procedures fs (order ++ more) =
      ((inTurn procedures (inTurn procedures fs order).1 more).1,
        (inTurn procedures fs order).2 ++ (inTurn procedures (inTurn procedures fs order).1 more).2) := by
  induction order generalizing fs with
  | nil => rfl
  | cons i order ih => simp only [List.cons_append, inTurn, ih]

theorem map_fst_inTurn (procedures : Fin n → Procedure α) (fs : FileSystem) (order : List (Fin n)) :
    (inTurn procedures fs order).2.map Prod.fst = order := by
  induction order generalizing fs with
  | nil => rfl
  | cons i order ih => rw [inTurn, List.map_cons, ih]

/-- Each procedure has a value when its turn is over. -/
theorem exists_mem_inTurn (procedures : Fin n → Procedure α) (fs : FileSystem)
    {order : List (Fin n)} {i : Fin n} (hi : i ∈ order) :
    ∃ value, (i, value) ∈ (inTurn procedures fs order).2 := by
  rw [← map_fst_inTurn procedures fs order] at hi
  obtain ⟨⟨_, value⟩, hmem, rfl⟩ := List.mem_map.mp hi
  exact ⟨value, hmem⟩

/-- All callers but these. -/
def others (callers : List (Fin n)) : List (Fin n) :=
  (List.finRange n).filter (· ∉ callers)

theorem mem_others {callers : List (Fin n)} {i : Fin n} : i ∈ others callers ↔ i ∉ callers := by
  simp [others]

theorem perm_append_others {callers : List (Fin n)} (h : callers.Nodup) :
    (callers ++ others callers).Perm (List.finRange n) := by
  have hdisjoint : callers.Disjoint (others callers) := fun i hi hother => mem_others.mp hother hi
  have hnodup := h.append ((List.nodup_finRange n).filter _) hdisjoint
  refine (List.perm_ext_iff_of_nodup hnodup (List.nodup_finRange n)).mpr fun i => ?_
  refine iff_of_true (List.mem_append.mpr ?_) (List.mem_finRange i)
  exact (em (i ∈ callers)).imp_right mem_others.mpr

end Race

/-! ## Alone -/

namespace Protocol

variable {n : Nat} {Stage Role α : Type} {P : Protocol n Stage Role}

theorem Upholds.mono {i : Fin n} {ends ends' : Role → Handle → α → Prop} {procedure : Procedure α}
    {role : Role} {handle : Handle} (h : P.Upholds i ends procedure role handle)
    (hends : ∀ role handle value, ends role handle value → ends' role handle value) :
    P.Upholds i ends' procedure role handle := by
  induction procedure generalizing role handle with
  | done value => exact hends role handle value h
  | step s next ih =>
    refine ⟨h.1, fun φ hφ => ?_⟩
    obtain ⟨φ', answer, hperform, hanswer⟩ := h.2 φ hφ
    refine ⟨φ', answer, hperform, fun after hafter => ?_⟩
    obtain ⟨role', hmoves, hnext⟩ := hanswer after hafter
    exact ⟨role', hmoves, ih answer hnext⟩

/-- A procedure that keeps to a protocol does so when it runs alone. -/
theorem Upholds.run {i : Fin n} {ends : Role → Handle → α → Prop} {procedure : Procedure α}
    {role : Role} {handle : Handle} {φ : Stage} {roles : Fin n → Role}
    (h : P.Upholds i ends procedure role handle) (hagrees : P.Agrees φ roles)
    (hrole : roles i = role) :
    ∃ φ' role' handle', (procedure.run (P.files φ)).1 = P.files φ' ∧
      P.Agrees φ' (Function.update roles i role') ∧
      ends role' handle' (procedure.run (P.files φ)).2 := by
  induction procedure generalizing φ roles role handle with
  | done value =>
    subst hrole
    exact ⟨φ, roles i, handle, rfl, by rwa [Function.update_eq_self], h⟩
  | step s next ih =>
    obtain ⟨hready, hstep⟩ := h
    obtain ⟨φ', answer, hperform, hanswer⟩ := hstep φ ⟨roles, hagrees, hrole⟩
    obtain ⟨role', hmoves, hnext⟩ := hanswer _ (QuarantineStep.leaves_after 0 hready answer)
    rw [← hrole] at hmoves
    have hagrees' := P.agrees_update hagrees hmoves
    obtain ⟨φ'', role'', handle'', hfiles, hagrees'', hends⟩ :=
      ih answer hnext hagrees' (Function.update_self ..)
    rw [Procedure.run, hperform]
    rw [Function.update_idem] at hagrees''
    exact ⟨φ'', role'', handle'', hfiles, hagrees'', hends⟩

end Protocol

namespace QuarantineStep

/-- A step that has no part in opening and locking. -/
def Plain : QuarantineStep → Prop
  | openItem _ | lock _ | unlock _ => False
  | _ => True

theorem Plain.ready {s : QuarantineStep} (h : s.Plain) (handle : Handle) : s.Ready handle := by
  cases s with
  | lock => exact h.elim
  | _ => trivial

theorem Plain.eq_of_leaves {s : QuarantineStep} (h : s.Plain) {answer : s.Answer}
    {before after : Handle} (hleaves : s.Leaves answer before after) : after = before := by
  cases s with
  | openItem | lock | unlock => exact h.elim
  | _ => exact hleaves

end QuarantineStep

end Triage
