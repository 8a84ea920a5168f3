import Triage.Proofs.FileSystem.Path
import Triage.Proofs.FileSystem.Tree

/-!
Ways through a tree of files.

What a name does on a way is said once, by an equation for each kind of entry (`LooksUp.follow_eq`
and the lemmas after it). A `Way` is a row of such steps that leads somewhere; names lead somewhere
exactly if there is a way (`follow_eq_ok_iff`), so what holds of all ways is shown step by step.

A row of names that leads down through directories is followed name by name (`follow_names`), and a
name put after a way to a directory leads to the entry of that directory (`follow_concat`). A way
through one tree is one through any other that has the same links, and directories wherever the
first has some (`Way.carry`); so it is after entries were added (`follow_grows`).
-/

namespace Triage

namespace FileSystem

open Triage.Path (IsName AreNames)

variable {fs fs' : FileSystem} {ns here todo : List Text} {name : Text} {n : Node}
variable {es : List (Text × Node)} {followLast : Bool} {links : Nat} {found : Location}

/-! ## Directories and entries -/

/-- The entry is no link, if there is one. -/
def NoLink (entry : Option Node) : Prop := ∀ target, entry ≠ some (.link target)

theorem noLink_of_directory {entry : Option Node}
    (h : ∀ n, entry = some n → ∃ es, n = .directory es) : NoLink entry := by
  rintro target rfl
  obtain ⟨es, hes⟩ := h _ rfl
  contradiction

theorem isDirectoryAt_iff : fs.isDirectoryAt ns ↔ ∃ es, fs.nodeAt? ns = some (.directory es) := by
  unfold isDirectoryAt
  constructor
  · intro h
    split at h
    · rename_i es hes
      exact ⟨es, hes⟩
    · contradiction
  · rintro ⟨es, hes⟩
    rw [hes]

theorem isDirectoryAt_of_nodeAt? (h : fs.nodeAt? ns = some (.directory es)) :
    fs.isDirectoryAt ns := isDirectoryAt_iff.mpr ⟨es, h⟩

theorem nodeAt?_append (fs : FileSystem) (ns more : List Text) :
    fs.nodeAt? (ns ++ more) = (fs.nodeAt? ns).bind fun n => n.find? more :=
  Node.find?_append ..

theorem nodeAt?_concat (h : fs.nodeAt? here = some (.directory es)) (name : Text) :
    fs.nodeAt? (here ++ [name]) = es.lookup name := by
  rw [nodeAt?] at h
  rw [nodeAt?, Node.find?_append, h]
  simp [Node.find?, Node.child?, Node.entries]

/-- What stands above a directory is a directory. -/
theorem nodeAt?_of_append {more : List Text} (h : fs.nodeAt? (ns ++ more) = some (.directory es)) :
    ∃ es', fs.nodeAt? ns = some (.directory es') := by
  rw [nodeAt?, Node.find?_append, Option.bind_eq_some_iff] at h
  obtain ⟨c, hc, hmore⟩ := h
  cases more with
  | nil => exact ⟨es, hc.trans hmore⟩
  | cons x more =>
    obtain ⟨es', _, rfl, -, -⟩ := Node.find?_cons_eq_some hmore
    exact ⟨es', hc⟩

/-- Files with any directory have a topmost one. -/
theorem nodeAt?_nil_of_directory (h : fs.nodeAt? ns = some (.directory es)) :
    ∃ es', fs.nodeAt? [] = some (.directory es') :=
  nodeAt?_of_append (ns.nil_append.symm ▸ h)

/-! ## One step -/

theorem follow_nil : fs.follow followLast links here [] = .ok ⟨here, fs.nodeAt? here⟩ := by
  rw [follow]

/-- Names are followed in directories only. -/
theorem isDirectoryAt_of_follow
    (h : fs.follow followLast links here (name :: todo) = .ok found) : fs.isDirectoryAt here := by
  by_contra hdir
  rw [follow, if_pos (by simpa using hdir)] at h
  contradiction

/-- A dot leads nowhere else. -/
theorem follow_dot (h : fs.isDirectoryAt here) :
    fs.follow followLast links here (Path.dot :: todo) = fs.follow followLast links here todo := by
  rw [follow, if_neg (by simpa using h), if_pos (by decide)]

/-- Two dots lead back to the directory above. -/
theorem follow_dotDot (h : fs.isDirectoryAt here) :
    fs.follow followLast links here (Path.dotDot :: todo) =
      fs.follow followLast links here.dropLast todo := by
  rw [follow, if_neg (by simpa using h), if_neg (by decide), if_pos (by decide)]

/-- The system takes no name that is too long. -/
theorem follow_tooLong (h : fs.isDirectoryAt here) (hlong : maxName < name.length) :
    fs.follow followLast links here (name :: todo) = .error .nameTooLong := by
  have hne : ∀ short : Text, short.length ≤ maxName → name ≠ short := by
    rintro short hshort rfl
    exact Nat.not_lt.mpr hshort hlong
  have hdot : name ≠ Path.dot := hne _ (by decide)
  have hdots : name ≠ Path.dotDot := hne _ (by decide)
  rw [follow, if_neg (by simpa using h), if_neg (by simpa using hdot), if_neg (by simpa using hdots),
    if_pos hlong]

/-- The name is looked up in the directory: it is neither of the dots, and not too long. -/
structure LooksUp (fs : FileSystem) (here : List Text) (name : Text) : Prop where
  directory : fs.isDirectoryAt here
  ne_dot : name ≠ Path.dot
  ne_dotDot : name ≠ Path.dotDot
  length_le : name.length ≤ maxName

theorem looksUp_of_isName (hname : IsName name) (h : fs.nodeAt? here = some (.directory es)) :
    fs.LooksUp here name :=
  ⟨isDirectoryAt_of_nodeAt? h, hname.ne_dot, hname.ne_dotDot, hname.length_le⟩

/-- Whether a name is looked up depends on the tree only in that there must be a directory. -/
theorem LooksUp.carry (h : fs.LooksUp here name) (hdir : fs'.isDirectoryAt here) :
    fs'.LooksUp here name := { h with directory := hdir }

/-- Where the target of a link is followed from. -/
def linkStart (here : List Text) (target : Text) : List Text :=
  if Path.isAbsolute target then [] else here

theorem LooksUp.follow_eq (h : fs.LooksUp here name) :
    fs.follow followLast links here (name :: todo) =
      match fs.nodeAt? (here ++ [name]) with
      | none => if todo.isEmpty then .ok ⟨here ++ [name], none⟩ else .error .notFound
      | some (.link target) =>
        if todo.isEmpty && !followLast then .ok ⟨here ++ [name], some (.link target)⟩
        else
          match links with
          | 0 => .error .tooManyLinks
          | links + 1 =>
            fs.follow followLast links (linkStart here target) (Path.names target ++ todo)
      | some _ => fs.follow followLast links (here ++ [name]) todo := by
  rw [follow]
  simp only [h.directory, h.ne_dot, h.ne_dotDot, Nat.not_lt.mpr h.length_le, Bool.not_true,
    Bool.false_eq_true, beq_iff_eq, if_false]
  rfl

theorem LooksUp.follow_missing (h : fs.LooksUp here name)
    (hentry : fs.nodeAt? (here ++ [name]) = none) :
    fs.follow followLast links here (name :: todo) =
      if todo.isEmpty then .ok ⟨here ++ [name], none⟩ else .error .notFound := by
  rw [h.follow_eq, hentry]

theorem LooksUp.follow_lastLink {target : Text} (h : fs.LooksUp here name)
    (hentry : fs.nodeAt? (here ++ [name]) = some (.link target)) :
    fs.follow false links here [name] = .ok ⟨here ++ [name], some (.link target)⟩ := by
  rw [h.follow_eq, hentry]
  rfl

theorem LooksUp.follow_link {target : Text} (h : fs.LooksUp here name)
    (hentry : fs.nodeAt? (here ++ [name]) = some (.link target))
    (hlast : todo = [] → followLast = true) :
    fs.follow followLast (links + 1) here (name :: todo) =
      fs.follow followLast links (linkStart here target) (Path.names target ++ todo) := by
  have hfollowed : (todo.isEmpty && !followLast) = false := by
    cases todo with
    | nil => simp [hlast rfl]
    | cons => rfl
  rw [h.follow_eq, hentry]
  simp only [hfollowed, Bool.false_eq_true, if_false]

/-- What is there and no link is gone on from. -/
theorem LooksUp.follow_enter (h : fs.LooksUp here name)
    (hentry : fs.nodeAt? (here ++ [name]) = some n) (hlink : NoLink (some n)) :
    fs.follow followLast links here (name :: todo) =
      fs.follow followLast links (here ++ [name]) todo := by
  rw [h.follow_eq, hentry]
  cases n with
  | link target => exact absurd rfl (hlink target)
  | file | directory | pipe => rfl

/-! ## Ways -/

/-- A way that leads somewhere. -/
inductive Way (fs : FileSystem) (followLast : Bool) :
    (links : Nat) → (here todo : List Text) → (found : Location) → Prop where
  | arrive {links : Nat} {here : List Text} :
      Way fs followLast links here [] ⟨here, fs.nodeAt? here⟩
  | dot {links : Nat} {here todo : List Text} {found : Location} (hdir : fs.isDirectoryAt here)
      (hway : Way fs followLast links here todo found) :
      Way fs followLast links here (Path.dot :: todo) found
  | dotDot {links : Nat} {here todo : List Text} {found : Location} (hdir : fs.isDirectoryAt here)
      (hway : Way fs followLast links here.dropLast todo found) :
      Way fs followLast links here (Path.dotDot :: todo) found
  | missing {links : Nat} {here : List Text} {name : Text} (hname : fs.LooksUp here name)
      (hentry : fs.nodeAt? (here ++ [name]) = none) :
      Way fs followLast links here [name] ⟨here ++ [name], none⟩
  /-- A link in last place that is not followed. -/
  | lastLink {links : Nat} {here : List Text} {name target : Text} (hname : fs.LooksUp here name)
      (hentry : fs.nodeAt? (here ++ [name]) = some (.link target)) (hlast : followLast = false) :
      Way fs followLast links here [name] ⟨here ++ [name], some (.link target)⟩
  | link {links : Nat} {here todo : List Text} {name target : Text} {found : Location}
      (hname : fs.LooksUp here name) (hentry : fs.nodeAt? (here ++ [name]) = some (.link target))
      (hlast : todo = [] → followLast = true)
      (hway : Way fs followLast links (linkStart here target) (Path.names target ++ todo) found) :
      Way fs followLast (links + 1) here (name :: todo) found
  | enter {links : Nat} {here todo : List Text} {name : Text} {n : Node} {found : Location}
      (hname : fs.LooksUp here name) (hentry : fs.nodeAt? (here ++ [name]) = some n)
      (hlink : NoLink (some n)) (hway : Way fs followLast links (here ++ [name]) todo found) :
      Way fs followLast links here (name :: todo) found

/-- Names lead somewhere exactly if there is a way. -/
theorem follow_eq_ok_iff :
    fs.follow followLast links here todo = .ok found ↔ fs.Way followLast links here todo found := by
  constructor
  · have hdirectory : ∀ {here}, ¬(!fs.isDirectoryAt here) = true → fs.isDirectoryAt here :=
      fun h => by simpa using h
    have hlooks : ∀ {here name}, ¬(!fs.isDirectoryAt here) = true → ¬(name == Path.dot) = true →
        ¬(name == Path.dotDot) = true → ¬maxName < name.length → fs.LooksUp here name :=
      fun hdir hdot hdots hlength =>
        ⟨hdirectory hdir, by simpa using hdot, by simpa using hdots, Nat.le_of_not_lt hlength⟩
    fun_induction follow fs followLast links here todo with
    | case1 links here =>
      intro h
      obtain rfl := Except.ok.inj h
      exact .arrive
    | case3 links here other rest hdir hdot ih =>
      intro h
      obtain rfl := eq_of_beq hdot
      exact .dot (hdirectory hdir) (ih h)
    | case4 links here other rest hdir hdot hdots ih =>
      intro h
      obtain rfl := eq_of_beq hdots
      exact .dotDot (hdirectory hdir) (ih h)
    | case6 links here other rest hdir hdot hdots hlength hentry hlast =>
      intro h
      obtain rfl := Except.ok.inj h
      obtain rfl := List.isEmpty_iff.mp hlast
      exact .missing (hlooks hdir hdot hdots hlength) hentry
    | case8 links here other rest hdir hdot hdots hlength target hentry hlast =>
      intro h
      obtain rfl := Except.ok.inj h
      obtain ⟨hrest, hfalse⟩ := Bool.and_eq_true_iff.mp hlast
      obtain rfl := List.isEmpty_iff.mp hrest
      exact .lastLink (hlooks hdir hdot hdots hlength) hentry (by simpa using hfalse)
    | case10 here other rest hdir hdot hdots hlength target hentry hlast links start ih =>
      intro h
      refine .link (hlooks hdir hdot hdots hlength) hentry ?_ (ih h)
      rintro rfl
      simpa using hlast
    | case11 links here other rest hdir hdot hdots hlength n hn hentry ih =>
      intro h
      refine .enter (hlooks hdir hdot hdots hlength) hentry (fun target heq => ?_) (ih h)
      exact hn target (Option.some.inj heq)
    -- Elsewhere nothing is found.
    | case2 | case5 | case7 | case9 => exact fun h => by contradiction
  · intro h
    induction h with
    | arrive => exact follow_nil
    | dot hdir _ ih => rw [follow_dot hdir, ih]
    | dotDot hdir _ ih => rw [follow_dotDot hdir, ih]
    | missing hname hentry =>
      rw [hname.follow_missing hentry]
      rfl
    | lastLink hname hentry hlast => rw [hlast, hname.follow_lastLink hentry]
    | link hname hentry hlast _ ih => rw [hname.follow_link hentry hlast, ih]
    | enter hname hentry hlink _ ih => rw [hname.follow_enter hentry hlink, ih]

namespace Way

theorem isDirectoryAt (h : fs.Way followLast links here (name :: todo) found) :
    fs.isDirectoryAt here := isDirectoryAt_of_follow (follow_eq_ok_iff.mpr h)

/-- Without names, a way stays where it is. -/
theorem eq_of_nil (h : fs.Way followLast links here [] found) : found = ⟨here, fs.nodeAt? here⟩ := by
  cases h
  rfl

/-- A name leads to its entry, be there one or not, unless that is a link. -/
theorem entry (hname : fs.LooksUp here name) (hlink : NoLink (fs.nodeAt? (here ++ [name]))) :
    fs.Way followLast links here [name] ⟨here ++ [name], fs.nodeAt? (here ++ [name])⟩ := by
  cases hentry : fs.nodeAt? (here ++ [name]) with
  | none => exact .missing hname hentry
  | some n =>
    rw [hentry] at hlink
    have harrive : fs.Way followLast links (here ++ [name]) []
        ⟨here ++ [name], fs.nodeAt? (here ++ [name])⟩ := .arrive
    exact .enter hname hentry hlink (hentry ▸ harrive)

/-- What a way leads to is what stands at its end. -/
theorem nodeAt? (h : fs.Way followLast links here todo found) :
    fs.nodeAt? found.names = found.node := by
  induction h with
  | arrive => rfl
  | missing _ hentry => exact hentry
  | lastLink _ hentry _ => exact hentry
  | dot _ _ ih | dotDot _ _ ih | link _ _ _ _ ih | enter _ _ _ _ ih => exact ih

/-- No name on a way is too long. -/
theorem length_le (h : fs.Way followLast links here todo found) :
    ∀ name ∈ todo, name.length ≤ maxName := by
  induction h with
  | arrive => exact List.forall_mem_nil _
  | dot _ _ ih => exact List.forall_mem_cons.mpr ⟨by decide, ih⟩
  | dotDot _ _ ih => exact List.forall_mem_cons.mpr ⟨by decide, ih⟩
  | missing hname _ => exact List.forall_mem_singleton.mpr hname.length_le
  | lastLink hname _ _ => exact List.forall_mem_singleton.mpr hname.length_le
  | link hname _ _ _ ih =>
    exact List.forall_mem_cons.mpr
      ⟨hname.length_le, fun other hother => ih other (List.mem_append_right _ hother)⟩
  | enter hname _ _ _ ih => exact List.forall_mem_cons.mpr ⟨hname.length_le, ih⟩

/-- Whatever comes after a way to a directory is followed from that directory on. -/
theorem follow_append {more : List Text} (hmore : more ≠ [])
    (h : fs.Way true links here todo found) (hdir : found.node = some (.directory es)) :
    ∃ links', fs.follow followLast links here (todo ++ more) =
      fs.follow followLast links' found.names more := by
  -- What comes after stays behind all that is still to be followed, the target of a link included;
  -- no name before it is the last any more.
  induction h with
  | arrive => exact ⟨_, rfl⟩
  | dot hhere _ ih =>
    rw [List.cons_append, follow_dot hhere]
    exact ih hdir
  | dotDot hhere _ ih =>
    rw [List.cons_append, follow_dotDot hhere]
    exact ih hdir
  | missing => contradiction
  | lastLink => contradiction
  | link hname hentry _ _ ih =>
    rw [List.cons_append, hname.follow_link hentry (by simp [hmore]), ← List.append_assoc]
    exact ih hdir
  | enter hname hentry hlink _ ih =>
    rw [List.cons_append, hname.follow_enter hentry hlink]
    exact ih hdir

/-- The last name of a way leads to an entry of a directory, if it is not followed. -/
theorem of_concat {init : List Text} (hname : IsName name)
    (h : fs.Way false links here todo found) (htodo : todo = init ++ [name]) :
    ∃ ns es, fs.Way true links here init ⟨ns, some (.directory es)⟩ ∧
      found = ⟨ns ++ [name], es.lookup name⟩ := by
  -- If only the last name is left, the way has arrived at the directory.
  have hlast : ∀ {links here todo init other entry}, fs.LooksUp here other →
      fs.nodeAt? (here ++ [other]) = entry → todo = [] → other :: todo = init ++ [name] →
      ∃ ns es, fs.Way true links here init ⟨ns, some (.directory es)⟩ ∧
        (⟨here ++ [other], entry⟩ : Location) = ⟨ns ++ [name], es.lookup name⟩ := by
    rintro links here _ init other entry hother hentry rfl htodo
    obtain ⟨es, hes⟩ := isDirectoryAt_iff.mp hother.directory
    have harrive : fs.Way true links here [] ⟨here, fs.nodeAt? here⟩ := .arrive
    obtain ⟨rfl, hsingle⟩ := List.singleton_eq_append_iff.mp htodo |>.resolve_right (by simp)
    obtain rfl := List.singleton_inj.mp hsingle
    exact ⟨here, es, hes ▸ harrive, by rw [← hentry, nodeAt?_concat hes]⟩
  induction h generalizing init with
  | arrive => simp at htodo
  | dot hdir _ ih =>
    cases init with
    | nil => exact absurd (List.cons.inj htodo).1.symm hname.ne_dot
    | cons other init =>
      obtain ⟨rfl, rfl⟩ := List.cons.inj htodo
      obtain ⟨ns, es, hway, rfl⟩ := ih rfl
      exact ⟨ns, es, .dot hdir hway, rfl⟩
  | dotDot hdir _ ih =>
    cases init with
    | nil => exact absurd (List.cons.inj htodo).1.symm hname.ne_dotDot
    | cons other init =>
      obtain ⟨rfl, rfl⟩ := List.cons.inj htodo
      obtain ⟨ns, es, hway, rfl⟩ := ih rfl
      exact ⟨ns, es, .dotDot hdir hway, rfl⟩
  | missing hother hentry => exact hlast hother hentry rfl htodo
  | lastLink hother hentry _ => exact hlast hother hentry rfl htodo
  | link hother hentry hfollowed _ ih =>
    cases init with
    | nil => exact absurd (hfollowed (List.cons.inj htodo).2) (by decide)
    | cons other init =>
      obtain ⟨rfl, rfl⟩ := List.cons.inj htodo
      obtain ⟨ns, es, hway, rfl⟩ := ih (List.append_assoc ..).symm
      exact ⟨ns, es, .link hother hentry (fun _ => rfl) hway, rfl⟩
  | enter hother hentry hlink hrest ih =>
    cases init with
    | nil =>
      obtain rfl := (List.cons.inj htodo).2
      cases hrest
      exact hlast hother rfl rfl htodo
    | cons other init =>
      obtain ⟨rfl, rfl⟩ := List.cons.inj htodo
      obtain ⟨ns, es, hway, rfl⟩ := ih rfl
      exact ⟨ns, es, .enter hother hentry hlink hway, rfl⟩

/-- A way through one tree is one through another that has the same links, and directories wherever
the first has some. -/
theorem carry (hdirectory : ∀ ns, fs.isDirectoryAt ns → fs'.isDirectoryAt ns)
    (hlinks : ∀ ns target, fs.nodeAt? ns = some (.link target) →
      fs'.nodeAt? ns = some (.link target))
    (h : fs.Way followLast links here todo found)
    (hend : NoLink found.node → NoLink (fs'.nodeAt? found.names)) :
    fs'.Way followLast links here todo ⟨found.names, fs'.nodeAt? found.names⟩ := by
  induction h with
  | arrive => exact .arrive
  | dot hdir _ ih => exact .dot (hdirectory _ hdir) (ih hend)
  | dotDot hdir _ ih => exact .dotDot (hdirectory _ hdir) (ih hend)
  | missing hname hentry =>
    exact entry (hname.carry (hdirectory _ hname.directory)) (hend (fun _ => nofun))
  | lastLink hname hentry hlast =>
    have hentry' := hlinks _ _ hentry
    rw [hentry']
    exact .lastLink (hname.carry (hdirectory _ hname.directory)) hentry' hlast
  | link hname hentry hlast _ ih =>
    exact .link (hname.carry (hdirectory _ hname.directory)) (hlinks _ _ hentry) hlast (ih hend)
  | @enter links here todo name n found hname hentry hlink hway ih =>
    have hname' := hname.carry (hdirectory _ hname.directory)
    -- What is reached last may differ, as long as it is no link; on the way are directories.
    cases todo with
    | nil =>
      cases hway
      exact entry hname' (hend (hentry ▸ hlink))
    | cons other todo =>
      obtain ⟨es, hes⟩ := isDirectoryAt_iff.mp (hdirectory _ hway.isDirectoryAt)
      exact .enter hname' hes (fun _ => nofun) (ih hend)

end Way

/-! ## Rows of names -/

theorem nodeAt?_of_follow {entry : Option Node}
    (h : fs.follow followLast links here todo = .ok ⟨ns, entry⟩) : fs.nodeAt? ns = entry :=
  (follow_eq_ok_iff.mp h).nodeAt?

theorem length_le_of_follow (h : fs.follow followLast links here todo = .ok found) :
    ∀ name ∈ todo, name.length ≤ maxName := (follow_eq_ok_iff.mp h).length_le

/-- A name in a directory leads to the entry of that name. -/
theorem follow_name (h : fs.nodeAt? here = some (.directory es)) (hname : IsName name)
    (hlink : NoLink (es.lookup name)) :
    fs.follow followLast links here (name :: todo) =
      match es.lookup name with
      | none => if todo.isEmpty then .ok ⟨here ++ [name], none⟩ else .error .notFound
      | some _ => fs.follow followLast links (here ++ [name]) todo := by
  have hlooks := looksUp_of_isName hname h
  rw [← nodeAt?_concat h] at hlink ⊢
  cases hentry : fs.nodeAt? (here ++ [name]) with
  | none => exact hlooks.follow_missing hentry
  | some n => exact hlooks.follow_enter hentry (hentry ▸ hlink)

/-- The name of a directory leads into it. -/
theorem follow_directory {es' : List (Text × Node)} (h : fs.nodeAt? here = some (.directory es))
    (hname : IsName name) (hdir : fs.nodeAt? (here ++ [name]) = some (.directory es')) :
    fs.follow followLast links here (name :: todo) =
      fs.follow followLast links (here ++ [name]) todo :=
  (looksUp_of_isName hname h).follow_enter hdir (fun _ => nofun)

/-- Names that lead down through directories are followed one after the other. -/
theorem follow_names (hs : AreNames ns) (h : fs.nodeAt? (here ++ ns) = some (.directory es)) :
    fs.follow followLast links here ns = .ok ⟨here ++ ns, some (.directory es)⟩ := by
  induction ns generalizing here with
  | nil => rw [follow_nil, ← h, List.append_nil]
  | cons name ns ih =>
    have happend : here ++ name :: ns = here ++ [name] ++ ns := List.append_cons ..
    rw [happend] at h ⊢
    obtain ⟨_, hdir⟩ := nodeAt?_of_append h
    obtain ⟨_, hhere⟩ := nodeAt?_of_append hdir
    rw [follow_directory hhere (hs name List.mem_cons_self) hdir]
    exact ih (fun other hother => hs other (List.mem_cons_of_mem _ hother)) h

theorem follow_append {more : List Text} (hmore : more ≠ [])
    (h : fs.follow true links here todo = .ok ⟨ns, some (.directory es)⟩) :
    fs.nodeAt? ns = some (.directory es) ∧ ∃ links',
      fs.follow followLast links here (todo ++ more) = fs.follow followLast links' ns more :=
  ⟨nodeAt?_of_follow h, (follow_eq_ok_iff.mp h).follow_append hmore rfl⟩

/-- Nothing is found below a missing entry. -/
theorem follow_missing {rest : List Text} (hns : AreNames ns)
    (hdir : fs.nodeAt? (here ++ ns) = some (.directory es)) (hname : IsName name)
    (hmissing : es.lookup name = none) (hrest : rest ≠ []) :
    fs.follow followLast links here (ns ++ name :: rest) = .error .notFound := by
  obtain ⟨links', hfollow⟩ : ∃ links', fs.follow followLast links here (ns ++ name :: rest) =
      fs.follow followLast links' (here ++ ns) (name :: rest) :=
    (follow_append (List.cons_ne_nil _ _) (follow_names hns hdir)).2
  rw [hfollow, follow_name hdir hname (by simp [NoLink, hmissing]), hmissing]
  simp [hrest]

/-- A name after a path to a directory leads to the entry of that name. -/
theorem follow_concat (hname : IsName name) (hlink : NoLink (es.lookup name))
    (h : fs.follow true links here todo = .ok ⟨ns, some (.directory es)⟩) :
    fs.follow followLast links here (todo ++ [name]) = .ok ⟨ns ++ [name], es.lookup name⟩ := by
  obtain ⟨hdir, links', hrest⟩ := follow_append (List.cons_ne_nil name []) h
  rw [← nodeAt?_concat hdir] at hlink ⊢
  rw [hrest, follow_eq_ok_iff]
  exact .entry (looksUp_of_isName hname hdir) hlink

/-- If the last name is not followed, it leads to the entry of that name even if this is a link. -/
theorem follow_concat_last (hname : IsName name)
    (h : fs.follow true links here todo = .ok ⟨ns, some (.directory es)⟩) :
    fs.follow false links here (todo ++ [name]) = .ok ⟨ns ++ [name], es.lookup name⟩ := by
  by_cases hlink : NoLink (es.lookup name)
  · exact follow_concat hname hlink h
  · obtain ⟨target, htarget⟩ : ∃ target, es.lookup name = some (.link target) := by
      simpa [NoLink] using hlink
    obtain ⟨hdir, links', hrest⟩ := follow_append (List.cons_ne_nil name []) h
    rw [hrest, htarget]
    exact (looksUp_of_isName hname hdir).follow_lastLink ((nodeAt?_concat hdir name).trans htarget)

/-- What a last name that is not followed leads to is an entry of a directory. -/
theorem follow_of_concat (hname : IsName name)
    (h : fs.follow false links here (todo ++ [name]) = .ok found) :
    ∃ ns es, fs.follow true links here todo = .ok ⟨ns, some (.directory es)⟩ ∧
      found = ⟨ns ++ [name], es.lookup name⟩ := by
  obtain ⟨ns, es, hway, rfl⟩ := (follow_eq_ok_iff.mp h).of_concat hname rfl
  exact ⟨ns, es, follow_eq_ok_iff.mpr hway, rfl⟩

/-! ## Growing trees -/

theorem nodeAt?_grows (h : fs.root.Grows fs'.root) (hn : fs.nodeAt? ns = some n) :
    ∃ n', fs'.nodeAt? ns = some n' ∧ n.Alike n' := h ns n hn

theorem isDirectoryAt_grows (h : fs.root.Grows fs'.root) (hdir : fs.isDirectoryAt ns) :
    fs'.isDirectoryAt ns := by
  obtain ⟨es, hes⟩ := isDirectoryAt_iff.mp hdir
  obtain ⟨n, hn, rfl | ⟨_, es', _, rfl⟩⟩ := nodeAt?_grows h hes
  · exact isDirectoryAt_iff.mpr ⟨es, hn⟩
  · exact isDirectoryAt_iff.mpr ⟨es', hn⟩

/-- Entries that are added do not change where a path leads, unless a link is added where nothing
was at its end. -/
theorem follow_grows (hgrows : fs.root.Grows fs'.root) {entry : Option Node}
    (hmissing : entry = none → ∃ es, fs'.nodeAt? ns = some (.directory es))
    (h : fs.follow followLast links here todo = .ok ⟨ns, entry⟩) :
    fs'.follow followLast links here todo = .ok ⟨ns, fs'.nodeAt? ns⟩ := by
  have hnode := nodeAt?_of_follow h
  refine follow_eq_ok_iff.mpr ((follow_eq_ok_iff.mp h).carry (fun _ => isDirectoryAt_grows hgrows)
    (fun ns target hentry => ?_) (fun hlink target htarget => ?_))
  · obtain ⟨_, hentry', rfl | ⟨_, _, ⟨⟩, _⟩⟩ := nodeAt?_grows hgrows hentry
    exact hentry'
  · cases entry with
    | none =>
      obtain ⟨es, hes⟩ := hmissing rfl
      exact nomatch hes.symm.trans htarget
    | some n =>
      obtain ⟨n', hn', rfl | ⟨_, es', _, rfl⟩⟩ := nodeAt?_grows hgrows hnode
      · exact hlink target (hn'.symm.trans htarget)
      · exact nomatch hn'.symm.trans htarget

end FileSystem

end Triage
