import Mathlib.Data.List.Basic

/-!
Interleavings of rows of steps.

`Interleaved rows order` says that `order` arises when, again and again, some row that has steps
left takes its next one. Steps of a kind that only one row has keep their order in every
interleaving (`Interleaved.filter_eq`); of the others only the number is kept
(`Interleaved.perm`). An interleaving that has begun can always be brought to its end
(`Begun.complete`).
-/

namespace Triage

inductive Interleaved {α : Type} : List (List α) → List α → Prop where
  | done {rows : List (List α)} (h : ∀ row ∈ rows, row = []) : Interleaved rows []
  | step {before after : List (List α)} {a : α} {row order : List α}
      (h : Interleaved (before ++ row :: after) order) :
      Interleaved (before ++ (a :: row) :: after) (a :: order)

/-- No two of the rows hold related steps. -/
def Apart {α : Type} (r : α → α → Prop) (rows : List (List α)) : Prop :=
  rows.Pairwise fun row row' => ∀ a ∈ row, ∀ b ∈ row', ¬r a b

namespace Interleaved

variable {α : Type} {rows : List (List α)} {order order' : List α}

theorem perm (h : Interleaved rows order) : order.Perm rows.flatten := by
  induction h with
  | done h => rw [List.flatten_eq_nil_iff.mpr h]
  | step _ ih =>
    simp only [List.flatten_append, List.flatten_cons, List.cons_append] at ih ⊢
    exact (ih.cons _).trans List.perm_middle.symm

theorem cons_nil (h : Interleaved rows order) : Interleaved ([] :: rows) order := by
  induction h with
  | done h => exact .done (by simpa using h)
  | @step before after a row order _ ih =>
    rw [← List.cons_append] at ih ⊢
    exact .step ih

/-- A row may be taken before all others. -/
theorem append_row (row : List α) (h : Interleaved rows order) :
    Interleaved (row :: rows) (row ++ order) := by
  induction row with
  | nil => exact h.cons_nil
  | cons a row ih =>
    rw [← List.nil_append (row :: rows)] at ih
    exact .step ih

/-- Some rows may be taken before the others, one after the other. -/
theorem append_rows (first : List (List α)) (h : Interleaved rows order) :
    Interleaved (first ++ rows) (first.flatten ++ order) := by
  induction first with
  | nil => exact h
  | cons row first ih =>
    rw [List.flatten_cons, List.append_assoc]
    exact ih.append_row row

/-- Taking the rows one after the other is an interleaving. -/
theorem sequential (rows : List (List α)) : Interleaved rows rows.flatten := by
  have h := append_rows rows (.done fun row (hrow : row ∈ []) => nomatch hrow)
  rwa [List.append_nil, List.append_nil] at h

/-- The order in which the rows are named does not matter. -/
theorem of_perm (h : Interleaved rows order) :
    ∀ {rows' : List (List α)}, rows.Perm rows' → Interleaved rows' order := by
  induction h with
  | done h => exact fun hperm => .done fun row hrow => h row (hperm.mem_iff.mpr hrow)
  | @step before after a row order _ ih =>
    intro rows' hperm
    have hmem : a :: row ∈ rows' := hperm.mem_iff.mp (by simp)
    obtain ⟨before', after', rfl⟩ := List.append_of_mem hmem
    refine .step (ih ?_)
    -- The row that takes its step may stand elsewhere; the other rows are the same.
    have hrest : (before ++ after).Perm (before' ++ after') :=
      (List.perm_middle.symm.trans (hperm.trans List.perm_middle)).cons_inv
    exact List.perm_middle.trans ((hrest.cons row).trans List.perm_middle.symm)

/-- Reading the steps in another way, or leaving some out, keeps an interleaving one. -/
theorem filterMap {β : Type} (f : α → Option β) (h : Interleaved rows order) :
    Interleaved (rows.map (List.filterMap f)) (order.filterMap f) := by
  induction h with
  | done h =>
    refine .done fun row hrow => ?_
    obtain ⟨row, hmem, rfl⟩ := List.mem_map.mp hrow
    rw [h row hmem, List.filterMap_nil]
  | @step before after a row order _ ih =>
    simp only [List.map_append, List.map_cons, List.filterMap_cons] at ih ⊢
    cases f a with
    | none => exact ih
    | some b => exact .step ih

/-- If only one row has steps of a kind, they stand in their order. -/
theorem filter_eq_flatten {p : α → Bool} (h : Interleaved rows order)
    (hp : Apart (fun a b => p a ∧ p b) rows) : order.filter p = rows.flatten.filter p := by
  induction h with
  | done h => rw [List.flatten_eq_nil_iff.mpr h]
  | @step before after a row order _ ih =>
    unfold Apart at hp ih
    rw [List.pairwise_append, List.pairwise_cons] at hp ih
    obtain ⟨hbefore, ⟨hrow, hafter⟩, hacross⟩ := hp
    have hrest : order.filter p = (before ++ row :: after).flatten.filter p := by
      refine ih ⟨hbefore, ⟨fun row' h' b hb => hrow row' h' b (.tail _ hb), hafter⟩, ?_⟩
      intro first hfirst row' h' b hb c hc
      rcases List.mem_cons.mp h' with rfl | h'
      · exact hacross first hfirst _ List.mem_cons_self b hb c (.tail _ hc)
      · exact hacross first hfirst row' (.tail _ h') b hb c hc
    cases ha : p a with
    | false => simpa [ha] using hrest
    | true =>
      -- The rows before have no steps of this kind, since the row of `a` has one.
      have hnone : before.flatten.filter p = [] := by
        refine List.filter_eq_nil_iff.mpr fun b hb hpb => ?_
        obtain ⟨first, hfirst, hb⟩ := List.mem_flatten.mp hb
        exact hacross first hfirst _ List.mem_cons_self b hb a List.mem_cons_self ⟨hpb, ha⟩
      simp only [List.flatten_append, List.flatten_cons, List.filter_append, hnone,
        List.nil_append] at hrest ⊢
      rw [List.filter_cons_of_pos ha, List.filter_cons_of_pos ha, hrest, List.cons_append]

theorem filter_eq {p : α → Bool} (h : Interleaved rows order) (h' : Interleaved rows order')
    (hp : Apart (fun a b => p a ∧ p b) rows) : order.filter p = order'.filter p :=
  (h.filter_eq_flatten hp).trans (h'.filter_eq_flatten hp).symm

/-- Steps of a kind that no other row has are those of the row. -/
theorem filter_eq_head {p : α → Bool} {row : List α} (h : Interleaved (row :: rows) order)
    (hp : ∀ other ∈ rows, ∀ a ∈ other, ¬p a) : order.filter p = row.filter p := by
  have hapart : Apart (fun a b => p a ∧ p b) (row :: rows) :=
    List.pairwise_cons.mpr ⟨fun other hother _ _ b hb hab => hp other hother b hb hab.2,
      List.pairwise_of_forall_mem_list fun other hother _ _ a ha _ _ hab =>
        hp other hother a ha hab.1⟩
  have hrest : rows.flatten.filter p = [] := by
    refine List.filter_eq_nil_iff.mpr fun a ha => ?_
    obtain ⟨other, hother, ha⟩ := List.mem_flatten.mp ha
    exact hp other hother a ha
  rw [h.filter_eq_flatten hapart, List.flatten_cons, List.filter_append, hrest, List.append_nil]

end Interleaved

/-- Some steps of the rows were taken, in this order, and this is left of the rows. -/
inductive Begun {α : Type} : List (List α) → List α → List (List α) → Prop where
  | start (rows : List (List α)) : Begun rows [] rows
  | step {before after left : List (List α)} {a : α} {row taken : List α}
      (h : Begun (before ++ row :: after) taken left) :
      Begun (before ++ (a :: row) :: after) (a :: taken) left

/-- What is left may go on in any order. -/
theorem Begun.complete {α : Type} {rows left : List (List α)} {taken order : List α}
    (h : Begun rows taken left) (h' : Interleaved left order) :
    Interleaved rows (taken ++ order) := by
  induction h with
  | start rows => exact h'
  | step _ ih => exact .step (ih h')

end Triage
