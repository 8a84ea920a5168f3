import Mathlib
import Triage.Proofs.Quarantine.Crossing

/-!
When calls that are under way at once act as if they came one after the other.

Creations of one second with one descriptor, approvals and rejections are serial unless they cross:
as long as either all copies come to their ends or none does, and nothing is approved or rejected
that a creation can claim, every run ends as the calls do one after the other, the creations in the
order of their claims. Calls that cross have a run that is not serial, so `isSerial_iff` says for
which calls all runs are.
-/

namespace Triage

namespace Quarantine

variable {n : Nat} {p : Places} {q : Quarantine} {fs : FileSystem} {s : Stock} {now : Int}
variable {descriptor : Text} {calls : Fin n → Mutation}

variable {rows : List (Text × Node)} {roles : Fin n → Progress}
variable {r : Race n (Except QuarantineError (Option Text))}

/-! ## Calls that do not cross -/

/-- Either all copies come to their ends or none does, and what is approved or rejected is none of the
ids that creations get. -/
structure Uncrossed (fs : FileSystem) (s : Stock) (now : Int) (descriptor : Text)
    (calls : Fin n → Mutation) : Prop where
  copies : ∀ i j, parts fs descriptor calls i = some true → parts fs descriptor calls j ≠ some false
  ids : ∀ i call, calls i = .decide call → call.id ∉
    (s.freeIds (baseId now descriptor)).take (claimers (parts fs descriptor calls)).length

/-- All calls are done. What is claimed below the quarantine, and how each call has ended, agree. -/
structure Ended (p : Places) (fs : FileSystem) (s : Stock) (now : Int) (descriptor : Text)
    (calls : Fin n → Mutation) (rows : List (Text × Node)) (roles : Fin n → Progress)
    (r : Race n (Except QuarantineError (Option Text))) : Prop where
  files : r.files = p.stock fs (s.add rows)
  claims : Claims s (baseId now descriptor) (parts fs descriptor calls) rows roles
  ends : ∀ i, ∃ outcome, r.outcome? i = some outcome ∧
    (calls i).Ends fs s now descriptor (roles i) outcome

section

variable (h : p.Hosts q fs s now descriptor calls)

include h

/-- Calls that decide on no id that is claimed come to their ends with claims that agree. -/
theorem exists_ended
    (hids : ∀ i call, calls i = .decide call → call.id ∉
      (s.freeIds (baseId now descriptor)).take (claimers (parts fs descriptor calls)).length)
    (hreaches : (rush q fs now descriptor calls).Reaches r)
    (hdone : ∀ i, ∃ outcome, r.outcome? i = some outcome) :
    ∃ rows roles, Ended p fs s now descriptor calls rows roles r := by
  have hstart : (creating p fs s (baseId now descriptor) (parts fs descriptor calls)).Governs
      (fun i role _ outcome => (calls i).Ends fs s now descriptor role outcome)
      (rush q fs now descriptor calls) := by
    refine ⟨[], fun _ => .looks 1, ?_, Claims.start _ _ _, fun i => ?_⟩
    · rw [files_creating, Stock.add_nil, h.stock_eq]
      rfl
    · exact upholds_mutation h.admits h.sound h.isBase rfl (h.fits i) rfl (hids i)
  obtain ⟨rows, roles, hfiles, hclaims, hupholds⟩ := hstart.reaches hreaches
  refine ⟨rows, roles, hfiles, hclaims, fun i => ?_⟩
  obtain ⟨outcome, houtcome⟩ := hdone i
  exact ⟨outcome, houtcome, (hupholds i).ends_of_outcome? houtcome⟩

/-- A call that has no complete copy has filled no item and has failed, as it does alone. -/
theorem Ended.exists_error (hended : Ended p fs s now descriptor calls rows roles r) {i : Fin n}
    (hpart : parts fs descriptor calls i ≠ some true) : (∀ id item, roles i ≠ .fills id item) ∧
      ∃ e, r.outcome? i = some (.error e) ∧ e.kind = (calls i).failure fs s descriptor := by
  obtain ⟨outcome, houtcome, hends⟩ := hended.ends i
  obtain ⟨hrole, e, rfl, hkind⟩ :=
    hends.exists_error hpart fun hsome => hended.claims.exists_unclaimed hsome h.enough
  exact ⟨hrole, e, houtcome, hkind⟩

/-- If no copy comes to its end, all calls fail, in whichever order. -/
theorem Ended.isSerial_of_no_complete (hended : Ended p fs s now descriptor calls rows roles r)
    (hparts : ∀ i, parts fs descriptor calls i ≠ some true) :
    r.IsSerial told (mutations q now descriptor calls) fs := by
  have hrows : rows = [] :=
    hended.claims.eq_nil fun i => (Ended.exists_error h hended (hparts i)).1
  obtain ⟨hsame, hvalues⟩ := inTurn_fails h.admits h.isBase rfl h.sound (fun i _ => h.fits i)
    (fun i (_ : i ∈ List.finRange n) => hparts i) fun i _ hsome => h.freeIds_ne_nil hsome
  rw [h.stock_eq] at hsame hvalues
  refine ⟨List.finRange n, .refl _, ?_, fun e he => ?_⟩
  · rw [hsame, hended.files, hrows, Stock.add_nil, h.stock_eq]
  · obtain ⟨-, error, houtcome, hkind⟩ := Ended.exists_error h hended (hparts e.1)
    obtain ⟨error', hvalue, hkind'⟩ := hvalues e he
    rw [houtcome, hvalue, Option.map_some, told_error, told_error, hkind, hkind']

section

variable (hended : Ended p fs s now descriptor calls rows roles r)
  (hparts : ∀ i, parts fs descriptor calls i ≠ some false)

include hended hparts

/-- If no copy breaks off, each creation has filled its item, and given its id. -/
theorem Ended.exists_row {i : Fin n} (hi : parts fs descriptor calls i ≠ none) : ∃ row ∈ rows,
    Fills now fs descriptor calls roles i row ∧ r.outcome? i = some (.ok (some row.1)) := by
  obtain ⟨outcome, houtcome, hends⟩ := hended.ends i
  generalize hrole : roles i = role at hends
  cases hends with
  | gives hcontent id =>
    exact ⟨_, Node.mem_of_lookup ((hended.claims.owned _ _).mpr ⟨i, hrole⟩),
      ⟨_, hcontent, rfl, hrole⟩, houtcome⟩
  | full => exact absurd hrole (hended.claims.exists_unclaimed hi h.enough)
  | fails hbroken =>
    rcases hpart : parts fs descriptor calls i with - | - | -
    · exact absurd hpart hi
    · exact absurd hpart (hparts i)
    · exact absurd hpart hbroken

/-- The creations in the order of their claims; all other calls copy nothing. -/
theorem Ended.exists_owners : ∃ owners : List (Fin n),
    List.Forall₂ (Fills now fs descriptor calls roles) owners rows ∧ owners.Nodup ∧
      ∀ i ∈ Race.others owners, parts fs descriptor calls i = none := by
  have hunique : Relator.BiUnique (Fills now fs descriptor calls roles) :=
    hended.claims.biUnique_fills
  obtain ⟨owners, howners⟩ :
      ∃ owners, List.Forall₂ (Fills now fs descriptor calls roles) owners rows := by
    refine exists_fillers fun row hrow => ?_
    obtain ⟨i, hi⟩ := (hended.claims.owned _ _).mp (Node.lookup_of_mem hended.claims.unique hrow)
    obtain ⟨row', -, hfills, -⟩ :=
      Ended.exists_row h hended hparts (hended.claims.part_ne_none (by rw [hi]; rfl))
    obtain rfl : row' = row := hfills.eq_of_fills hi
    exact ⟨i, hfills⟩
  refine ⟨owners, howners, (List.rel_nodup hunique howners).mpr
    (List.Nodup.of_map _ hended.claims.unique), fun i hi => ?_⟩
  by_contra hpart
  obtain ⟨row, hrow, hfills, -⟩ := Ended.exists_row h hended hparts hpart
  exact Race.mem_others.mp hi ((List.rel_mem hunique hfills howners).mpr hrow)

/-- If no copy breaks off, the calls are serial with the creations in the order of their claims, and
all others after them. -/
theorem Ended.isSerial_of_no_broken
    (hids : ∀ i call, calls i = .decide call → call.id ∉
      (s.freeIds (baseId now descriptor)).take (claimers (parts fs descriptor calls)).length) :
    r.IsSerial told (mutations q now descriptor calls) fs := by
  obtain ⟨owners, howners, hnodup, hothers⟩ := Ended.exists_owners h hended hparts
  have hfits : ∀ i, (calls i).Fits p fs (s.add rows) (baseId now descriptor) := by
    intro i
    refine (h.fits i).add fun call hcall hmem => hids i call hcall ?_
    exact hended.claims.mem_take (fun _ _ => hended.claims.mem_claimers_of_claimed) hmem
  obtain ⟨hfirst, hgiven⟩ := inTurn_complete h.admits h.isBase rfl h.sound h.fits howners
    (hended.claims.first hparts)
  obtain ⟨hlast, hfailed⟩ := inTurn_fails h.admits h.isBase rfl
    (hended.claims.sound h.sound h.isBase) (fun i _ => hfits i)
    (fun i hi hpart => by
      rw [← parts, hothers i hi] at hpart
      contradiction)
    fun i hi hpart => absurd (hothers i hi) hpart
  rw [h.stock_eq] at hfirst hgiven
  refine ⟨_, Race.perm_append_others hnodup, ?_, fun e he => ?_⟩
  · rw [Race.inTurn_append, hfirst, hlast, hended.files]
  · rw [Race.inTurn_append, hfirst] at he
    rcases List.mem_append.mp he with he | he
    · obtain ⟨id, item, hrole, hvalue⟩ := hgiven e he
      obtain ⟨row, -, hfills, houtcome⟩ :=
        Ended.exists_row h hended hparts (hended.claims.part_ne_none (by rw [hrole]; rfl))
      rw [hfills.eq_of_fills hrole] at houtcome
      rw [houtcome, hvalue]
      rfl
    · have hother : e.1 ∈ Race.others owners := by
        rw [← Race.map_fst_inTurn (mutations q now descriptor calls) (p.stock fs (s.add rows))
          (Race.others owners)]
        exact List.mem_map_of_mem he
      have hnone : parts fs descriptor calls e.1 ≠ some true := by simp [hothers e.1 hother]
      obtain ⟨-, error, houtcome, hkind⟩ := Ended.exists_error h hended hnone
      obtain ⟨error', hvalue, hkind'⟩ := hfailed e he
      -- What the creations add is approved nowhere.
      rw [Mutation.failure_add] at hkind'
      rw [houtcome, hvalue, Option.map_some, told_error, told_error, hkind, hkind']

end

/-- Every run of the calls is serial if and only if the calls do not cross. -/
theorem isSerial_iff :
    (∀ r, (rush q fs now descriptor calls).Reaches r →
      (∀ i, ∃ outcome, r.outcome? i = some outcome) →
        r.IsSerial told (mutations q now descriptor calls) fs) ↔
      Uncrossed fs s now descriptor calls := by
  constructor
  · intro hserial
    have hcopies : ∀ i j, parts fs descriptor calls i = some true →
        parts fs descriptor calls j ≠ some false := by
      intro i j hi hj
      obtain ⟨r, hreaches, hdone, hcrossed⟩ := exists_mixed (q := q) h hi hj
      exact hcrossed (hserial r hreaches hdone)
    refine ⟨hcopies, fun d call hcall hid => ?_⟩
    obtain ⟨r, hreaches, hdone, hcrossed⟩ := exists_decided (q := q) h hcopies hcall hid
    exact hcrossed (hserial r hreaches hdone)
  · rintro ⟨hcopies, hids⟩ r hreaches hdone
    obtain ⟨rows, roles, hended⟩ := exists_ended h hids hreaches hdone
    by_cases hcomplete : ∃ i, parts fs descriptor calls i = some true
    · obtain ⟨i, hi⟩ := hcomplete
      exact Ended.isSerial_of_no_broken h hended (fun j => hcopies i j hi) hids
    · exact Ended.isSerial_of_no_complete h hended (not_exists.mp hcomplete)

end

/-! ## Copies of one file -/

/-- Two empty roots and a file beside them. -/
def oneFile : FileSystem :=
  ⟨.directory [("q".ascii, Node.empty), ("p".ascii, Node.empty),
    ("f".ascii, .file ⟨"x".ascii, 0, false⟩)], []⟩

theorem oneFile_hold : besideRoots.Hold ⟨"q".ascii, "p".ascii⟩ oneFile :=
  hold_besideRoots rfl rfl rfl

theorem isName_f : Path.IsName "f".ascii := ItemId.isName_of_isValid (by decide)

/-- The file is found whatever stands below the roots. -/
theorem oneFile_node (t : Stock) : (besideRoots.stock oneFile t).node false "f".ascii =
    .ok (.file ⟨"x".ascii, 0, false⟩) := by
  have hdir : (besideRoots.stock oneFile t).nodeAt? [] = some (.directory
      [("q".ascii, .directory t.quarantined), ("p".ascii, .directory t.approved),
        ("f".ascii, .file ⟨"x".ascii, 0, false⟩)]) := rfl
  have hfits : FileSystem.Fits "f".ascii := ⟨by decide, by decide, by decide⟩
  have hlink : FileSystem.NoLink (some (.file ⟨"x".ascii, 0, false⟩)) := by simp [FileSystem.NoLink]
  have hfollow : (besideRoots.stock oneFile t).follow false FileSystem.maxLinks [] ["f".ascii] =
      .ok ⟨["f".ascii], some (.file ⟨"x".ascii, 0, false⟩)⟩ :=
    (FileSystem.follow_name hdir isName_f hlink).trans FileSystem.follow_nil
  refine FileSystem.node_of_locate (FileSystem.locate_of_follow hfits (Or.inr (Or.inr rfl))
    (.trans ?_ hfollow))
  rw [FileSystem.startOf, isName_f.isAbsolute, isName_f.names_eq]
  rfl

theorem oneFile_beside : besideRoots.Beside oneFile "f".ascii where
  node_eq t := (oneFile_node t).trans (oneFile_node ⟨[], []⟩).symm
  isName _ _ := ItemId.isName_of_isValid (by decide)

theorem oneFile_hosts {calls : Fin n → Mutation} (hn : n ≤ maxCandidates)
    (hfits : ∀ i, (calls i).Fits besideRoots oneFile ⟨[], []⟩ (baseId 0 "f".ascii)) :
    besideRoots.Hosts ⟨"q".ascii, "p".ascii⟩ oneFile ⟨[], []⟩ 0 "f".ascii calls where
  admits := { oneFile_hold with probeRoom := by decide, contentRoom := by decide }
  sound := ⟨List.nodup_nil, List.nodup_nil, fun _ he => (nomatch he), fun _ hid => (nomatch hid)⟩
  root := rfl
  approved := rfl
  baseRoom := by decide
  fits := hfits
  enough := by
    rw [Stock.freeIds_empty, List.length_map, List.length_range']
    refine Nat.le_trans (List.length_filter_le _ _) ?_
    rwa [List.length_finRange]

theorem oneFile_part : (Mutation.create "f".ascii).part oneFile "f".ascii = some true := by
  cbv

/-- Two creations, and an approval of an id that neither of them gets. -/
def farApproval (i : Fin 3) : Mutation :=
  if i = 2 then .decide (.approve (candidate (baseId 0 "f".ascii) 3)) else .create "f".ascii

theorem farApproval_hosts :
    besideRoots.Hosts ⟨"q".ascii, "p".ascii⟩ oneFile ⟨[], []⟩ 0 "f".ascii farApproval := by
  refine oneFile_hosts (by decide) fun i => ?_
  rw [farApproval]
  split
  · exact ⟨⟨3, by decide, by decide, rfl⟩, rfl⟩
  · exact oneFile_beside

theorem farApproval_parts :
    parts oneFile "f".ascii farApproval = fun i => if i = 2 then none else some true := by
  funext i
  rw [parts, farApproval]
  split
  · rfl
  · exact oneFile_part

theorem farApproval_uncrossed : Uncrossed oneFile ⟨[], []⟩ 0 "f".ascii farApproval where
  copies i j _ := by
    rw [farApproval_parts]
    revert j
    decide
  ids i call hcall := by
    rw [farApproval_parts, Stock.freeIds_empty]
    rw [farApproval] at hcall
    split at hcall
    · obtain rfl := Mutation.decide.inj hcall
      decide
    · contradiction

theorem isSerial_iff_farApproval :
    ∃ r, (rush ⟨"q".ascii, "p".ascii⟩ oneFile 0 "f".ascii farApproval).Reaches r ∧
      (∀ i, ∃ outcome, r.outcome? i = some outcome) ∧
      r.IsSerial told (mutations ⟨"q".ascii, "p".ascii⟩ 0 "f".ascii farApproval) oneFile := by
  have hstart : (rush ⟨"q".ascii, "p".ascii⟩ oneFile 0 "f".ascii farApproval).Resting :=
    Race.resting_start fun i => tidy_mutation ..
  obtain ⟨r, hreaches, hdone⟩ := hstart.complete
  exact ⟨r, hreaches, hdone,
    (isSerial_iff farApproval_hosts).mpr farApproval_uncrossed r hreaches hdone⟩

/-! ## An approval between a claim and its copy -/

/-- Two creations, and an approval of the id that the first one gets. -/
def nearApproval (i : Fin 3) : Mutation :=
  if i = 2 then .decide (.approve (baseId 0 "f".ascii)) else .create "f".ascii

theorem nearApproval_fits (i : Fin 3) :
    (nearApproval i).Fits besideRoots oneFile ⟨[], []⟩ (baseId 0 "f".ascii) := by
  rw [nearApproval]
  split
  · exact ⟨⟨1, by decide, by decide, rfl⟩, rfl⟩
  · exact oneFile_beside

/-- Both creations find the id free; the second one makes its directory again after the approval, and
the first one fills that. -/
theorem play_nearApproval :
    ((rush ⟨"q".ascii, "p".ascii⟩ oneFile 0 "f".ascii nearApproval).play
      [0, 0, 0, 0, 0, 0, 0, 1, 1, 1, 1, 1, 2, 2, 2, 2, 2, 2, 2, 2, 2, 1, 0, 0, 0, 0,
        1, 1, 1, 1, 1, 1, 1, 1, 1, 1]).map
        (fun r => ([r.outcome? 0, r.outcome? 1, r.outcome? 2],
          r.files.nodeAt? (besideRoots.root ++ [baseId 0 "f".ascii]),
          r.files.nodeAt? (besideRoots.approved ++ [baseId 0 "f".ascii]))) =
      some ([some (.ok (some (baseId 0 "f".ascii))),
          some (.ok (some (candidate (baseId 0 "f".ascii) 2))), some (.ok none)],
        some (newItem 0 "f".ascii (baseId 0 "f".ascii)
          (.directory [("f".ascii, .file ⟨"x".ascii, 0, false⟩)])),
        some Node.empty) := by
  cbv

/-- An approval can take what a creation has claimed and not filled, and then the id can be below both
roots at the end, although all calls have succeeded. In turn, that never happens. -/
theorem nearApproval_not_serial :
    ∃ r, (rush ⟨"q".ascii, "p".ascii⟩ oneFile 0 "f".ascii nearApproval).Reaches r ∧
      [r.outcome? 0, r.outcome? 1, r.outcome? 2] = [some (.ok (some (baseId 0 "f".ascii))),
        some (.ok (some (candidate (baseId 0 "f".ascii) 2))), some (.ok none)] ∧
      r.files.nodeAt? (besideRoots.root ++ [baseId 0 "f".ascii]) =
        some (newItem 0 "f".ascii (baseId 0 "f".ascii)
          (.directory [("f".ascii, .file ⟨"x".ascii, 0, false⟩)])) ∧
      r.files.nodeAt? (besideRoots.approved ++ [baseId 0 "f".ascii]) = some Node.empty ∧
      ¬r.IsSerial told (mutations ⟨"q".ascii, "p".ascii⟩ 0 "f".ascii nearApproval) oneFile := by
  obtain ⟨r, hplay, hend⟩ := Option.map_eq_some_iff.mp play_nearApproval
  obtain ⟨houtcomes, hend⟩ := Prod.mk.inj hend
  obtain ⟨hroot, happroved⟩ := Prod.mk.inj hend
  refine ⟨r, Race.reaches_of_play hplay, houtcomes, hroot, happroved, ?_⟩
  rintro ⟨order, -, hfiles, -⟩
  have h := oneFile_hosts (by decide) nearApproval_fits
  obtain ⟨t, hturn, hsound⟩ := inTurn_sound h.admits h.isBase rfl order h.sound nearApproval_fits
  rw [h.stock_eq, hfiles] at hturn
  rw [hturn, FileSystem.nodeAt?_concat (h.admits.leads.nodeAt?_root t)] at hroot
  rw [hturn, FileSystem.nodeAt?_concat (h.admits.leads.nodeAt?_approved t)] at happroved
  have hmem : baseId 0 "f".ascii ∈ t.approved.map Prod.fst :=
    List.mem_map_of_mem (Node.mem_of_lookup happroved)
  exact hsound.apart _ (List.mem_map_of_mem (Node.mem_of_lookup hroot)) hmem

end Quarantine

end Triage
