import Triage.Proofs.Quarantine.Calls
import Triage.Proofs.Quarantine.Candidates
import Triage.Proofs.Quarantine.Turns

/-!
What a creation does to the item that it has claimed.

A procedure acts on an item if each of its steps depends only on what stands below the item and
changes nothing else, whatever else stands below the roots (`ActsOn`). The steps with which a
creation fills its item are of that kind: a copy that comes to its end leaves the content and its
description (`actsOn_finish_complete`), and any other copy leaves nothing at all
(`actsOn_finish_broken`). If the item is no longer where it was claimed, the creation fails and
changes nothing (`runs_finish_missing`).
-/

namespace Triage

open Triage.Path (IsName AreNames)
open FileSystem (maxPath maxName absoluteText)

namespace Path

theorem isName_content : IsName "content".ascii := by decide
theorem isName_description : IsName "meta.json".ascii := by decide

end Path

namespace Quarantine

/-! ## Entries of an item -/

/-- The stock with an entry of the quarantine replaced, added, or removed. -/
def Stock.put (s : Stock) (id : Text) (value : Option Node) : Stock :=
  { s with quarantined := Node.setEntry id value s.quarantined }

/-- The roots of a quarantine with room for the content of a new item. The paths of approved items
that a creation looks at have to fit as well. -/
structure Places.Admits (p : Places) (q : Quarantine) (fs : FileSystem) : Prop
    extends Places.Hold p q fs where
  probeRoom : q.approvedRoot.length + 1 + ItemId.maxItemId ≤ maxPath
  contentRoom : (absoluteText p.root).length + 1 + ItemId.maxItemId + 1 + "content".ascii.length + 1 +
    maxName ≤ maxPath

section

variable {p : Places} {q : Quarantine} {fs : FileSystem} {t : Stock} {id name : Text}
variable {item : Node} {ns : List Text} {es : List (Text × Node)}
variable (h : p.Admits q fs) (hid : IsName id) (hlength : id.length ≤ ItemId.maxItemId)
  (hitem : t.quarantined.lookup id = some item)

include h

theorem Places.Admits.itemRoom (hlength : id.length ≤ ItemId.maxItemId) :
    (absoluteText (p.root ++ [id])).length ≤ maxPath := by
  have hroom := h.contentRoom
  have hid := Path.length_absoluteText_concat_le p.root id
  omega

/-- There is room for the entries of an item, and for those of its content. -/
theorem Places.Admits.entryRoom (hlength : id.length ≤ ItemId.maxItemId) (hname : IsName name)
    (hns : ns = [] ∨ ns = ["content".ascii]) :
    (absoluteText (p.root ++ [id] ++ ns ++ [name])).length ≤ maxPath := by
  have hroom := h.contentRoom
  have hid := Path.length_absoluteText_concat_le p.root id
  have hshort := hname.length_le
  rcases hns with rfl | rfl
  · have hentry := Path.length_absoluteText_concat_le (p.root ++ [id]) name
    rw [List.append_nil]
    omega
  · have hcontent := Path.length_absoluteText_concat_le (p.root ++ [id]) "content".ascii
    have hentry := Path.length_absoluteText_concat_le (p.root ++ [id] ++ ["content".ascii]) name
    omega

include hitem

theorem nodeAt?_item (ns : List Text) :
    (p.stock fs t).nodeAt? (p.root ++ [id] ++ ns) = item.find? ns := by
  have hentry := FileSystem.nodeAt?_concat (Places.nodeAt?_root h.toHold t) id
  rw [hitem, FileSystem.nodeAt?] at hentry
  rw [FileSystem.nodeAt?, Node.find?_append, hentry]
  rfl

theorem setAt_item (hns : ns ≠ []) (v : Option Node) :
    (p.stock fs t).setAt (p.root ++ [id] ++ ns) v = p.stock fs (t.put id (some (item.set v ns))) := by
  have hentry := nodeAt?_item h hitem []
  rw [List.append_nil] at hentry
  have hset := congrArg FileSystem.root
    (Places.setAt_root_entry h.toHold t id (some (item.set v ns)))
  simp only [FileSystem.setAt] at hset
  rw [FileSystem.setAt, Node.set_append hentry hns, hset]
  rfl

include hid hlength

theorem locate_item (hns : ns = [] ∨ ns = ["content".ascii]) (hname : IsName name)
    (hdir : item.find? ns = some (.directory es)) :
    (p.stock fs t).locate false (absoluteText (p.root ++ [id] ++ ns ++ [name])) =
      .ok ⟨p.root ++ [id] ++ ns ++ [name], es.lookup name⟩ := by
  have hnames : AreNames (p.root ++ [id] ++ ns) := by
    refine (h.rootNames.concat hid).append ?_
    rcases hns with rfl | rfl
    · exact List.forall_mem_nil _
    · exact List.forall_mem_singleton.mpr Path.isName_content
  exact FileSystem.locate_entry_last hnames hname ((nodeAt?_item h hitem ns).trans hdir)
    (h.entryRoom hlength hname hns)

/-! ### Steps below an item -/

theorem perform_makeDirectory_item (hns : ns = [] ∨ ns = ["content".ascii]) (hname : IsName name)
    (hdir : item.find? ns = some (.directory es)) (hfree : es.lookup name = none) :
    (QuarantineStep.makeDirectory (absoluteText (p.root ++ [id] ++ ns ++ [name]))).perform
        (p.stock fs t) =
      (p.stock fs (t.put id (some (item.set (some Node.empty) (ns ++ [name])))), .ok ()) := by
  have hlocate := locate_item h hid hlength hitem hns hname hdir
  rw [hfree] at hlocate
  rw [QuarantineStep.perform_makeDirectory_free hlocate, List.append_assoc _ ns, setAt_item h hitem (List.append_ne_nil_of_right_ne_nil ns (List.cons_ne_nil _ _))]

theorem perform_copy_item {source : Text} {n : Node}
    (hsource : (p.stock fs t).node false source = .ok n)
    (hns : ns = [] ∨ ns = ["content".ascii]) (hname : IsName name)
    (hdir : item.find? ns = some (.directory es)) (hfree : es.lookup name = none) :
    (QuarantineStep.copy source (absoluteText (p.root ++ [id] ++ ns ++ [name]))).perform
        (p.stock fs t) =
      (p.stock fs (t.put id (some (item.set n.copy.1 (ns ++ [name])))),
        if n.copy.2 then .ok () else .error .invalid) := by
  have hlocate := locate_item h hid hlength hitem hns hname hdir
  rw [hfree] at hlocate
  rw [QuarantineStep.perform, FileSystem.copyTree, hsource, hlocate]
  simp only
  rw [List.append_assoc _ ns,
    setAt_item h hitem (List.append_ne_nil_of_right_ne_nil ns (List.cons_ne_nil _ _))]

theorem perform_write_item (text : Text) (hname : IsName name) (hdir : item = .directory es)
    (hfree : es.lookup name = none) :
    (QuarantineStep.write (absoluteText (p.root ++ [id] ++ [name])) text).perform (p.stock fs t) =
      (p.stock fs (t.put id (some (item.set (some (.file ⟨text, 0, false⟩)) [name]))), .ok ()) := by
  have hlocate := locate_item h hid hlength hitem (Or.inl rfl) hname (congrArg some hdir)
  rw [hfree, List.append_nil] at hlocate
  have hwritten : (p.stock fs t).writeNew (absoluteText (p.root ++ [id] ++ [name])) text =
      .ok ((p.stock fs t).setAt (p.root ++ [id] ++ [name]) (some (.file ⟨text, 0, false⟩))) := by
    rw [FileSystem.writeNew, hlocate]
    rfl
  rw [QuarantineStep.perform, hwritten, QuarantineStep.change,
    setAt_item h hitem (List.cons_ne_nil _ _)]

theorem perform_measure_item {n : Node} (hname : IsName name) (hdir : item = .directory es)
    (hentry : es.lookup name = some n) :
    (QuarantineStep.measure (absoluteText (p.root ++ [id] ++ [name]))).perform (p.stock fs t) =
      (p.stock fs t, n.treeSize) := by
  have hlocate := locate_item h hid hlength hitem (Or.inl rfl) hname (congrArg some hdir)
  rw [hentry, List.append_nil] at hlocate
  rw [QuarantineStep.perform, QuarantineStep.measurePath, FileSystem.node_of_locate hlocate]

theorem perform_removeTree_item :
    (QuarantineStep.removeTree (absoluteText (p.root ++ [id]))).perform (p.stock fs t) =
      (p.stock fs (t.put id none), .ok ()) := by
  have hlocate := h.leads.locate_root t hid (h.itemRoom hlength)
  rw [hitem] at hlocate
  have hremoved := FileSystem.removeTree_of_locate hlocate
  rw [h.leads.setAt_root_entry] at hremoved
  exact QuarantineStep.perform_removeTree hremoved

end

/-! ## Acting on an item -/

variable {p : Places} {q : Quarantine} {fs : FileSystem} {id : Text}
variable {α β : Type}

theorem Stock.put_self {t : Stock} {n : Node} (h : t.quarantined.lookup id = some n) :
    t.put id (some n) = t := by
  rw [put, Node.setEntry_self h]

/-- The step takes the item from one node to another one and is answered so, whatever else stands
below the roots. -/
def StepActsOn (p : Places) (fs : FileSystem) (id : Text) (s : QuarantineStep) (n : Node)
    (n' : Option Node) (answer : s.Answer) : Prop :=
  s.Plain ∧ (∀ m, n' = some m → ∃ es, m = .directory es) ∧
    ∀ t : Stock, t.quarantined.lookup id = some n →
      s.perform (p.stock fs t) = (p.stock fs (t.put id n'), answer)

/-- The procedure takes the item from one node to another one and ends with this value, whatever else
stands below the roots, and leaves all that as it is. It may remove the item at its end. -/
inductive ActsOn (p : Places) (fs : FileSystem) (id : Text) :
    Procedure α → Node → Option Node → α → Prop where
  | done (a : α) (n : Node) : ActsOn p fs id (.done a) n (some n) a
  | step {s : QuarantineStep} {next : s.Answer → Procedure α} {n m : Node} {n' : Option Node}
      {answer : s.Answer} {a : α} (hstep : StepActsOn p fs id s n (some m) answer)
      (hnext : ActsOn p fs id (next answer) m n' a) : ActsOn p fs id (.step s next) n n' a
  | remove {s : QuarantineStep} {next : s.Answer → Procedure α} {n : Node} {answer : s.Answer} {a : α}
      (hstep : StepActsOn p fs id s n none answer) (hnext : next answer = .done a) :
      ActsOn p fs id (.step s next) n none a

theorem ActsOn.andThen {first : Procedure α} {next : α → Procedure β} {n m : Node}
    {n' : Option Node} {a : α} {b : β} (h : ActsOn p fs id first n (some m) a)
    (hnext : ActsOn p fs id (next a) m n' b) : ActsOn p fs id (first.andThen next) n n' b := by
  generalize hm : some m = m' at h
  induction h with
  | done a n =>
    obtain rfl := Option.some.inj hm
    exact hnext
  | step hstep _ ih => exact .step hstep (ih hnext hm)
  | remove => contradiction

theorem ActsOn.bind {first : Attempt α} {next : α → Attempt β} {n m : Node} {n' : Option Node}
    {a : α} {outcome : Except QuarantineError β} (h : ActsOn p fs id first.run n (some m) (.ok a))
    (hnext : ActsOn p fs id (next a).run m n' outcome) :
    ActsOn p fs id (first >>= next).run n n' outcome := by
  rw [ExceptT.run_bind]
  exact h.andThen hnext

theorem ActsOn.bind_error {first : Attempt α} {next : α → Attempt β} {n m : Node}
    {e : QuarantineError} (h : ActsOn p fs id first.run n (some m) (.error e)) :
    ActsOn p fs id (first >>= next).run n (some m) (.error e) := by
  rw [ExceptT.run_bind]
  exact h.andThen (.done _ _)

theorem StepActsOn.ask {s : QuarantineStep} {n m : Node} {answer : s.Answer}
    (h : StepActsOn p fs id s n (some m) answer) :
    ActsOn p fs id (Attempt.ask s).run n (some m) (.ok answer) := .step h (.done _ _)

theorem ActsOn.must {s : Attempt (Except FileError Unit)} {meaning : FileError → QuarantineError}
    {n m : Node} (h : ActsOn p fs id s.run n (some m) (.ok (.ok ()))) :
    ActsOn p fs id (Attempt.must s meaning).run n (some m) (.ok ()) := h.bind (.done _ _)

theorem ActsOn.must_error {s : Attempt (Except FileError Unit)}
    {meaning : FileError → QuarantineError} {n m : Node} {e : FileError}
    (h : ActsOn p fs id s.run n (some m) (.ok (.error e))) :
    ActsOn p fs id (Attempt.must s meaning).run n (some m) (.error (meaning e)) :=
  h.bind (.done _ _)

/-- What a procedure ends with is told to an attempt that runs it. -/
theorem ActsOn.lift {procedure : Procedure α} {n m : Node} {a : α}
    (h : ActsOn p fs id procedure n (some m) a) :
    ActsOn p fs id (ExceptT.lift procedure : Attempt α).run n (some m) (.ok a) :=
  h.andThen (.done _ _)

/-! ## Filling a new item -/

/-- The content that the copy of a source gives, as far as it can be made, and whether it is complete;
nothing if there is no such copy. -/
def contentOf? (fs : FileSystem) (source : Text) : Option (Node × Bool) :=
  match fs.node false source with
  | .ok (.file data) => some (.directory [(Path.fileName source, .file data)], true)
  | .ok (.directory es) => some (.directory (Node.copyEntries es).1, (Node.copyEntries es).2)
  | _ => none

/-- An item with its description. -/
def newItem (now : Int) (descriptor id : Text) (content : Node) : Node :=
  .directory [("content".ascii, content), ("meta.json".ascii,
    .file ⟨Description.text ⟨id, descriptor, now, content.treeSize⟩, 0, false⟩)]

/-- What a path leads to does not depend on what stands below the roots; a file has a name under
which it can be copied. -/
structure Places.Beside (p : Places) (fs : FileSystem) (source : Text) : Prop where
  node_eq : ∀ t, (p.stock fs t).node false source = fs.node false source
  isName : ∀ data, fs.node false source = .ok (.file data) → IsName (Path.fileName source)

theorem Places.Beside.inspectPath_eq {p : Places} {fs : FileSystem} {source : Text}
    (h : p.Beside fs source) (t : Stock) :
    QuarantineStep.inspectPath (p.stock fs t) source = QuarantineStep.inspectPath fs source := by
  rw [QuarantineStep.inspectPath, h.node_eq]
  rfl

/-- What a creation does after it has claimed an item. -/
def finish (kind : SourceKind) (now : Int) (descriptor source id path : Text) : Attempt Text := do
  match ← ExceptT.lift (ExceptT.run (fill kind now descriptor source id path)) with
  | .ok () => pure id
  | .error e =>
    let _ ← Attempt.ask (.removeTree path)
    throw e

section

variable {source : Text} {es : List (Text × Node)}
variable (h : p.Admits q fs) (hsource : p.Beside fs source) (hid : IsName id)
  (hlength : id.length ≤ ItemId.maxItemId)

include h hid

theorem join_item {name : Text} (hname : IsName name) :
    Path.join (absoluteText (p.root ++ [id])) name = absoluteText (p.root ++ [id] ++ [name]) :=
  (h.rootNames.concat hid).join_absoluteText hname

theorem join_content {name : Text} (hname : IsName name) :
    Path.join (absoluteText (p.root ++ [id] ++ ["content".ascii])) name =
      absoluteText (p.root ++ [id] ++ ["content".ascii] ++ [name]) :=
  ((h.rootNames.concat hid).concat Path.isName_content).join_absoluteText hname

include hlength

/-- What has been copied is measured and described. -/
theorem actsOn_describe (now : Int) (descriptor : Text) (content : Node) :
    ActsOn p fs id (do
        let size ← Attempt.ask (.measure (Path.join (absoluteText (p.root ++ [id])) "content".ascii))
        Attempt.must (Attempt.ask (.write (descriptionPath (absoluteText (p.root ++ [id])))
          (Description.text ⟨id, descriptor, now, size⟩))) fun _ =>
            .cannotDescribe (descriptionPath (absoluteText (p.root ++ [id])))).run
      (.directory [("content".ascii, content)]) (some (newItem now descriptor id content))
      (.ok ()) := by
  have hmeasure : StepActsOn p fs id
      (.measure (absoluteText (p.root ++ [id] ++ ["content".ascii])))
      (.directory [("content".ascii, content)]) (some (.directory [("content".ascii, content)]))
      content.treeSize := by
    refine ⟨trivial, fun m hm => ⟨_, (Option.some.inj hm).symm⟩, fun t ht => ?_⟩
    rw [Stock.put_self ht]
    exact perform_measure_item h hid hlength ht Path.isName_content rfl rfl
  have hwrite : StepActsOn p fs id
      (.write (absoluteText (p.root ++ [id] ++ ["meta.json".ascii]))
        (Description.text ⟨id, descriptor, now, content.treeSize⟩))
      (.directory [("content".ascii, content)]) (some (newItem now descriptor id content))
      (.ok ()) := by
    refine ⟨trivial, fun m hm => ⟨_, (Option.some.inj hm).symm⟩, fun t ht => ?_⟩
    exact perform_write_item h hid hlength ht _ Path.isName_description rfl rfl
  rw [descriptionPath, join_item h hid Path.isName_content, join_item h hid Path.isName_description]
  exact hmeasure.ask.bind hwrite.ask.must

include hsource

theorem stepActsOn_copy (hes : fs.node false source = .ok (.directory es)) :
    StepActsOn p fs id (.copy source (absoluteText (p.root ++ [id] ++ ["content".ascii]))) Node.empty
      (some (.directory [("content".ascii, .directory (Node.copyEntries es).1)]))
      (if (Node.copyEntries es).2 then .ok () else .error .invalid) := by
  refine ⟨trivial, fun m hm => ⟨_, (Option.some.inj hm).symm⟩, fun t ht => ?_⟩
  have hcopy := perform_copy_item h hid hlength ht ((hsource.node_eq t).trans hes) (Or.inl rfl)
    Path.isName_content rfl rfl
  rw [Node.copy, List.append_nil] at hcopy
  exact hcopy

theorem actsOn_fill_directory (hes : fs.node false source = .ok (.directory es))
    (hcomplete : (Node.copyEntries es).2 = true) (now : Int) (descriptor : Text) :
    ActsOn p fs id (fill .directory now descriptor source id (absoluteText (p.root ++ [id]))).run
      Node.empty (some (newItem now descriptor id (.directory (Node.copyEntries es).1)))
      (.ok ()) := by
  have hcopy := stepActsOn_copy h hsource hid hlength hes
  rw [hcomplete, if_pos rfl, ← join_item h hid Path.isName_content] at hcopy
  have hcontent : ActsOn p fs id
      (copyContent .directory source (absoluteText (p.root ++ [id]))).run Node.empty _ (.ok ()) :=
    hcopy.ask.must
  exact hcontent.bind (actsOn_describe h hid hlength now descriptor _)

theorem actsOn_fill_broken (hes : fs.node false source = .ok (.directory es))
    (hbroken : (Node.copyEntries es).2 = false) (now : Int) (descriptor : Text) :
    ∃ m e, QuarantineError.kind e = .io ∧
      ActsOn p fs id (fill .directory now descriptor source id (absoluteText (p.root ++ [id]))).run
        Node.empty (some m) (.error e) := by
  have hcopy := stepActsOn_copy h hsource hid hlength hes
  rw [hbroken, if_neg Bool.false_ne_true, ← join_item h hid Path.isName_content] at hcopy
  have hcontent : ActsOn p fs id
      (copyContent .directory source (absoluteText (p.root ++ [id]))).run Node.empty _
        (.error (.cannotCopy source (Path.join (absoluteText (p.root ++ [id])) "content".ascii)
          .invalid)) := hcopy.ask.must_error
  exact ⟨_, _, rfl, hcontent.bind_error⟩

theorem actsOn_fill_file {data : FileData} (hdata : fs.node false source = .ok (.file data))
    (now : Int) (descriptor : Text) :
    ActsOn p fs id (fill .file now descriptor source id (absoluteText (p.root ++ [id]))).run
      Node.empty (some (newItem now descriptor id (.directory [(Path.fileName source, .file data)])))
      (.ok ()) := by
  have hname := hsource.isName data hdata
  have hmake : StepActsOn p fs id
      (.makeDirectory (absoluteText (p.root ++ [id] ++ ["content".ascii]))) Node.empty
      (some (.directory [("content".ascii, Node.empty)])) (.ok ()) := by
    refine ⟨trivial, fun m hm => ⟨_, (Option.some.inj hm).symm⟩, fun t ht => ?_⟩
    have hmade := perform_makeDirectory_item h hid hlength ht (Or.inl rfl) Path.isName_content rfl rfl
    rw [List.append_nil] at hmade
    exact hmade
  have hcopy : StepActsOn p fs id
      (.copy source (absoluteText (p.root ++ [id] ++ ["content".ascii] ++ [Path.fileName source])))
      (.directory [("content".ascii, Node.empty)])
      (some (.directory
        [("content".ascii, .directory [(Path.fileName source, .file data)])])) (.ok ()) := by
    refine ⟨trivial, fun m hm => ⟨_, (Option.some.inj hm).symm⟩, fun t ht => ?_⟩
    exact perform_copy_item h hid hlength ht ((hsource.node_eq t).trans hdata) (Or.inr rfl) hname
      rfl rfl
  rw [← join_content h hid hname] at hcopy
  rw [← join_item h hid Path.isName_content] at hmake hcopy
  have hcontent : ActsOn p fs id
      (copyContent .file source (absoluteText (p.root ++ [id]))).run Node.empty _ (.ok ()) :=
    hmake.ask.must.bind hcopy.ask.must
  exact hcontent.bind (actsOn_describe h hid hlength now descriptor _)

/-- A complete copy stays. -/
theorem actsOn_finish_complete {kind : SourceKind} {content : Node}
    (hkind : QuarantineStep.inspectPath fs source = some kind)
    (hcontent : contentOf? fs source = some (content, true)) (now : Int) (descriptor : Text) :
    ActsOn p fs id (finish kind now descriptor source id (absoluteText (p.root ++ [id]))).run
      Node.empty (some (newItem now descriptor id content)) (.ok id) := by
  have hfill : ActsOn p fs id
      (fill kind now descriptor source id (absoluteText (p.root ++ [id]))).run Node.empty
      (some (newItem now descriptor id content)) (.ok ()) := by
    unfold contentOf? at hcontent
    unfold QuarantineStep.inspectPath at hkind
    split at hcontent
    · rename_i data hdata
      rw [hdata] at hkind
      obtain ⟨rfl, -⟩ := Prod.mk.inj (Option.some.inj hcontent)
      obtain rfl := Option.some.inj hkind
      exact actsOn_fill_file h hsource hid hlength hdata now descriptor
    · rename_i es hes
      rw [hes] at hkind
      obtain ⟨rfl, hcomplete⟩ := Prod.mk.inj (Option.some.inj hcontent)
      obtain rfl := Option.some.inj hkind
      exact actsOn_fill_directory h hsource hid hlength hes hcomplete now descriptor
    · contradiction
  exact hfill.lift.bind (.done _ _)

/-- A copy that breaks off leaves nothing. -/
theorem actsOn_finish_broken {kind : SourceKind} {content : Node}
    (hkind : QuarantineStep.inspectPath fs source = some kind)
    (hcontent : contentOf? fs source = some (content, false)) (now : Int) (descriptor : Text) :
    ∃ e, QuarantineError.kind e = .io ∧
      ActsOn p fs id (finish kind now descriptor source id (absoluteText (p.root ++ [id]))).run
        Node.empty none (.error e) := by
  obtain ⟨m, e, he, hfill⟩ : ∃ m e, QuarantineError.kind e = .io ∧ ActsOn p fs id
      (fill kind now descriptor source id (absoluteText (p.root ++ [id]))).run Node.empty (some m)
        (.error e) := by
    unfold contentOf? at hcontent
    unfold QuarantineStep.inspectPath at hkind
    split at hcontent
    · exact nomatch (Prod.mk.inj (Option.some.inj hcontent)).2
    · rename_i es hes
      rw [hes] at hkind
      obtain ⟨-, hbroken⟩ := Prod.mk.inj (Option.some.inj hcontent)
      obtain rfl := Option.some.inj hkind
      exact actsOn_fill_broken h hsource hid hlength hes hbroken now descriptor
    · contradiction
  have hremove : StepActsOn p fs id (.removeTree (absoluteText (p.root ++ [id]))) m none (.ok ()) :=
    ⟨trivial, fun _ hm => (nomatch hm),
      fun t ht => perform_removeTree_item h hid hlength ht⟩
  exact ⟨e, he, hfill.lift.bind (.remove hremove rfl)⟩

end

/-! ## An item that is no longer there -/

theorem runs_lift {procedure : Procedure α} {fs fs' : FileSystem} {a : α}
    (h : Procedure.run fs procedure = (fs', a)) :
    Runs (ExceptT.lift procedure : Attempt α) fs fs' (.ok a) := by
  refine (run_andThen _ _ _).trans ?_
  rw [h]
  rfl

section

variable {source : Text} {t : Stock}
variable (h : p.Admits q fs) (hid : IsName id) (hlength : id.length ≤ ItemId.maxItemId)
  (hmissing : t.quarantined.lookup id = none)

include h hid hlength hmissing

theorem locate_missing {name : Text} (followLast : Bool) (hname : IsName name) :
    (p.stock fs t).locate followLast (absoluteText (p.root ++ [id] ++ [name])) =
      .error .notFound := by
  have hnames : AreNames (p.root ++ [id] ++ [name]) := (h.rootNames.concat hid).concat hname
  have hroom : (absoluteText (p.root ++ [id] ++ [name])).length ≤ maxPath := by
    have hentry := h.entryRoom hlength hname (Or.inl rfl)
    rwa [List.append_nil] at hentry
  have hroot := Places.nodeAt?_root h.toHold t
  have hstart : (p.stock fs t).startOf (absoluteText (p.root ++ [id] ++ [name])) = [] := rfl
  rw [FileSystem.locate_of_fits (FileSystem.fits_absoluteText hnames hroom), hstart,
    hnames.names_absoluteText, List.append_assoc p.root, List.singleton_append,
    FileSystem.follow_missing h.rootNames hroot hid hmissing (List.cons_ne_nil _ _)]
  rfl

/-- A creation whose item has been moved away fails and changes nothing. -/
theorem runs_finish_missing {kind : SourceKind} (now : Int) (descriptor : Text) : ∃ e,
    Runs (finish kind now descriptor source id (absoluteText (p.root ++ [id])))
      (p.stock fs t) (p.stock fs t) (.error e) := by
  have hlocate := locate_missing h hid hlength hmissing false Path.isName_content
  rw [← join_item h hid Path.isName_content] at hlocate
  obtain ⟨e, hcontent⟩ : ∃ e, Runs
      (copyContent kind source (absoluteText (p.root ++ [id]))) (p.stock fs t) (p.stock fs t)
      (.error e) := by
    rw [copyContent]
    -- Both ways of copying begin below the directory of the item, which is not there.
    by_cases hkind : kind == .directory
    · rw [if_pos hkind]
      obtain ⟨cause, hcopy⟩ : ∃ cause, (QuarantineStep.copy source
          (Path.join (absoluteText (p.root ++ [id])) "content".ascii)).perform (p.stock fs t) =
            (p.stock fs t, .error cause) := by
        rw [QuarantineStep.perform, FileSystem.copyTree, hlocate]
        cases (p.stock fs t).node false source with
        | error cause => exact ⟨cause, rfl⟩
        | ok n => exact ⟨.notFound, rfl⟩
      exact ⟨_, runs_must_error (runs_ask hcopy)⟩
    · rw [if_neg hkind]
      have hmake : (QuarantineStep.makeDirectory
          (Path.join (absoluteText (p.root ++ [id])) "content".ascii)).perform (p.stock fs t) =
            (p.stock fs t, .error .notFound) := by
        rw [QuarantineStep.perform, FileSystem.makeDirectory, hlocate]
        rfl
      exact ⟨_, (runs_must_error (runs_ask hmake)).bind_error⟩
  have hfill : Runs (fill kind now descriptor source id (absoluteText (p.root ++ [id])))
      (p.stock fs t) (p.stock fs t) (.error e) := hcontent.bind_error
  have hitem := h.leads.locate_root t hid (h.itemRoom hlength)
  rw [hmissing] at hitem
  have hremove : (QuarantineStep.removeTree (absoluteText (p.root ++ [id]))).perform (p.stock fs t) =
      (p.stock fs t, .ok ()) := by
    refine QuarantineStep.perform_removeTree ?_
    rw [FileSystem.removeTree, hitem]
  exact ⟨e, (runs_lift hfill).bind ((runs_ask hremove).bind (runs_throw e _))⟩

end

end Quarantine

end Triage
