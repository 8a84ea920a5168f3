import Triage.Proofs.FileSystem.Agreement

/-!
Directories that are made where nothing was.

What a path leads to may be missing only as an entry of a directory (`isFree_of_locate`). What is
put there changes nothing else, however it is changed afterwards, and it is gone without a trace
when it is removed (`IsFree.setAt_setAt`, `IsFree.setAt_none`). So of a row of directories that were
made on the way to a path (`Made`), each is one to which a part of the path leads, and everything
else is as it was (`Made.agreeAt`, `Made.nodeAt?_eq`).
-/

namespace Triage

open Triage.Path (IsName AreNames)

namespace FileSystem

variable {fs fs' fs'' : FileSystem} {ns here todo place : List Text} {path : Text} {n : Node}
variable {es : List (Text × Node)} {followLast : Bool} {links : Nat} {paths paths' : List Text}

/-! ## Places where nothing is yet -/

/-- There is a directory, and it has no entry of the last name. -/
def IsFree (fs : FileSystem) (place : List Text) : Prop :=
  ∃ dir name es, place = dir ++ [name] ∧ fs.nodeAt? dir = some (.directory es) ∧
    es.lookup name = none

theorem IsFree.nodeAt? (h : fs.IsFree place) : fs.nodeAt? place = none := by
  obtain ⟨dir, name, es, rfl, hdir, hentry⟩ := h
  exact (nodeAt?_concat hdir name).trans hentry

theorem IsFree.nodeAt?_below (h : fs.IsFree place) (more : List Text) :
    fs.nodeAt? (place ++ more) = none := by
  rw [nodeAt?_append, h.nodeAt?]
  rfl

theorem IsFree.nodeAt?_setAt (h : fs.IsFree place) (n : Node) :
    (fs.setAt place (some n)).nodeAt? place = some n := by
  obtain ⟨dir, name, es, rfl, hdir, -⟩ := h
  rw [nodeAt?_concat (nodeAt?_setAt_entry hdir name (some n)), Node.lookup_setEntry_some]

theorem setAt_concat (h : fs.nodeAt? ns = some (.directory es)) (name : Text) (v : Option Node) :
    fs.setAt (ns ++ [name]) v = fs.setAt ns (some (.directory (Node.setEntry name v es))) :=
  congrArg (fun root => { fs with root }) (Node.set_concat h name v)

theorem setAt_setAt (h : fs.nodeAt? ns = some n) (v w : Node) :
    (fs.setAt ns (some v)).setAt ns (some w) = fs.setAt ns (some w) :=
  congrArg (fun root => { fs with root }) (Node.set_set h v w)

/-- What is put at a free place may be replaced or removed again. -/
theorem IsFree.setAt_setAt (h : fs.IsFree place) (n : Node) (v : Option Node) :
    (fs.setAt place (some n)).setAt place v = fs.setAt place v := by
  obtain ⟨dir, name, es, rfl, hdir, -⟩ := h
  rw [setAt_concat (nodeAt?_setAt_entry hdir name (some n)), setAt_concat hdir,
    FileSystem.setAt_setAt hdir, Node.setEntry_setEntry, setAt_concat hdir]

theorem IsFree.setAt_none (h : fs.IsFree place) : fs.setAt place none = fs := by
  obtain ⟨dir, name, es, rfl, hdir, hentry⟩ := h
  rw [setAt_concat hdir, Node.setEntry_none_of_lookup hentry]
  exact congrArg (fun root => { fs with root }) (Node.set_self hdir)

/-- A change below what was put at a free place is a change of that. -/
theorem IsFree.setAt_below (h : fs.IsFree place) (n : Node) {more : List Text} (hmore : more ≠ [])
    (v : Option Node) :
    (fs.setAt place (some n)).setAt (place ++ more) v = fs.setAt place (some (n.set v more)) := by
  have hbelow : (fs.setAt place (some n)).setAt (place ++ more) v =
      (fs.setAt place (some n)).setAt place (some (n.set v more)) :=
    congrArg (fun root => { fs with root }) (Node.set_append (h.nodeAt?_setAt n) hmore v)
  rw [hbelow, h.setAt_setAt]

/-- Nothing is added to what does not have the place below it. -/
theorem IsFree.nodeAt?_of_outside (h : fs.IsFree place) (hn : fs.nodeAt? ns = some n)
    (houtside : ¬ns <+: place) (v : Option Node) : (fs.setAt place v).nodeAt? ns = some n := by
  have hbelow : ¬place <+: ns := by
    rintro ⟨more, rfl⟩
    rw [h.nodeAt?_below] at hn
    contradiction
  rw [← hn]
  exact Node.find?_set_of_apart ⟨houtside, hbelow⟩ v fs.root

theorem IsFree.grows (h : fs.IsFree place) (v : Option Node) :
    fs.root.Grows (fs.setAt place v).root := by
  intro ns c hc
  have houtside : ¬place <+: ns := by
    rintro ⟨more, rfl⟩
    exact nomatch (h.nodeAt?_below more).symm.trans hc
  obtain ⟨d, hd, halone⟩ := (agreeAt_setAt houtside fs v).node hc
  exact ⟨d, hd, Node.alike_of_alone halone⟩

/-- A directory that is made there changes nothing elsewhere. -/
theorem IsFree.agreeAt (h : fs.IsFree place) (hne : ns ≠ place) :
    AgreeAt fs (fs.setAt place (some Node.empty)) ns := by
  by_cases hbelow : place <+: ns
  · obtain ⟨more, rfl⟩ := hbelow
    have hmore : more ≠ [] := by
      rintro rfl
      exact hne (List.append_nil _)
    obtain ⟨x, rest, rfl⟩ := List.exists_cons_of_ne_nil hmore
    rw [AgreeAt, h.nodeAt?_below, nodeAt?_append _ place, h.nodeAt?_setAt]
    rfl
  · exact agreeAt_setAt hbelow _ _

/-! ## Paths to such places -/

/-- What is missing at the end of a way is an entry of a directory. -/
theorem Way.isFree {found : Location} (h : fs.Way followLast links here todo found)
    (hmissing : found.node = none) (hhere : todo = [] → fs.nodeAt? here ≠ none) :
    fs.IsFree found.names := by
  induction h with
  | arrive => exact absurd hmissing (hhere rfl)
  | dot hdir _ ih =>
    obtain ⟨es, hes⟩ := isDirectoryAt_iff.mp hdir
    exact ih hmissing fun _ => by simp [hes]
  | @dotDot links here todo found hdir _ ih =>
    obtain ⟨es, hes⟩ := isDirectoryAt_iff.mp hdir
    obtain ⟨more, hmore⟩ := List.dropLast_prefix here
    obtain ⟨es', hes'⟩ := nodeAt?_of_append (hmore.symm ▸ hes)
    exact ih hmissing fun _ => by simp [hes']
  | missing hname hentry =>
    obtain ⟨es, hes⟩ := isDirectoryAt_iff.mp hname.directory
    exact ⟨_, _, es, rfl, hes, (nodeAt?_concat hes _).symm.trans hentry⟩
  | lastLink => contradiction
  | link hname hentry hlast _ ih =>
    obtain ⟨es, hes⟩ := isDirectoryAt_iff.mp hname.directory
    obtain ⟨es', hes'⟩ := nodeAt?_nil_of_directory hes
    refine ih hmissing fun _ => ?_
    rw [linkStart]
    split
    · simp [hes']
    · simp [hes]
  | enter hname hentry hlink _ ih => exact ih hmissing fun _ => by simp [hentry]

theorem isFree_of_locate (h : fs.locate followLast path = .ok ⟨ns, none⟩) : fs.IsFree ns := by
  have hnode := nodeAt?_of_locate h
  obtain ⟨hne, -, hfollow, -⟩ := locate_eq_ok_iff.mp h
  refine (follow_eq_ok_iff.mp hfollow).isFree rfl fun hnames => ?_
  -- A path without names leads to the topmost directory, which is always there.
  rw [startOf, Path.isAbsolute_of_names_eq_nil hne hnames]
  simp [nodeAt?, Node.find?]

/-- Where nothing is, there is no link to follow. -/
theorem Way.follows_last {found : Location} (h : fs.Way false links here todo found)
    (hmissing : found.node = none) : fs.Way true links here todo found := by
  induction h with
  | arrive => exact .arrive
  | dot hdir _ ih => exact .dot hdir (ih hmissing)
  | dotDot hdir _ ih => exact .dotDot hdir (ih hmissing)
  | missing hname hentry => exact .missing hname hentry
  | lastLink => contradiction
  | link hname hentry _ _ ih => exact .link hname hentry (fun _ => rfl) (ih hmissing)
  | enter hname hentry hlink _ ih => exact .enter hname hentry hlink (ih hmissing)

/-- If nothing is at the end of a path, there is no link either. -/
theorem locate_missing_last (h : fs.locate false path = .ok ⟨ns, none⟩) :
    fs.locate true path = .ok ⟨ns, none⟩ := by
  obtain ⟨hne, hlength, hfollow, hslash⟩ := locate_eq_ok_iff.mp h
  refine locate_eq_ok_iff.mpr ⟨hne, hlength, ?_, hslash⟩
  rw [Bool.true_or]
  cases hends : Path.endsInSlash (Text.before 0 path) with
  | true => rwa [hends, Bool.or_true] at hfollow
  | false =>
    rw [hends, Bool.or_false] at hfollow
    exact follow_eq_ok_iff.mpr ((follow_eq_ok_iff.mp hfollow).follows_last rfl)

/-- A path leads to the directory that is put where it led before. -/
theorem locate_setAt (h : fs.locate followLast path = .ok ⟨place, none⟩)
    (es : List (Text × Node)) :
    (fs.setAt place (some (.directory es))).locate followLast path =
      .ok ⟨place, some (.directory es)⟩ := by
  have hfree := isFree_of_locate h
  have hnode := hfree.nodeAt?_setAt (.directory es)
  have hlocate := locate_grows (hfree.grows (some (.directory es))) rfl (fun _ => ⟨es, hnode⟩) h
  rwa [hnode] at hlocate

theorem leadsTo_setAt (h : fs.locate false path = .ok ⟨place, none⟩) (es : List (Text × Node)) :
    (fs.setAt place (some (.directory es))).LeadsTo path place es :=
  locate_setAt (locate_missing_last h) es

theorem follow_single_missing {name : Text} (hdir : fs.nodeAt? here = some (.directory es))
    (h : fs.follow false links here [name] = .ok ⟨ns, none⟩) : ns = here ++ [name] := by
  -- Without names, a way leads to nothing only from where nothing is.
  have hmissing : ∀ {links here m}, fs.nodeAt? here = some m →
      ¬fs.Way false links here [] ⟨ns, none⟩ := fun hm hway =>
    nomatch hm.symm.trans (Location.mk.inj hway.eq_of_nil).2.symm
  cases follow_eq_ok_iff.mp h with
  | dot _ hway => exact absurd hway (hmissing hdir)
  | dotDot _ hway =>
    obtain ⟨more, hmore⟩ := List.dropLast_prefix here
    obtain ⟨es', hes'⟩ := nodeAt?_of_append (hmore.symm ▸ hdir)
    exact absurd hway (hmissing hes')
  | missing => rfl
  | link _ _ hlast _ => exact absurd (hlast rfl) (by decide)
  | enter _ hentry _ hway => exact absurd hway (hmissing hentry)

/-- If nothing is at the end of a path that leads on from a directory by one name, it is an entry of
the directory that is missing. -/
theorem eq_concat_of_locate_join (hleads : fs.LeadsTo path ns es) {below : Text}
    (hslash : Byte.slash ∉ below)
    (h : fs.locate false (Path.join path below) = .ok ⟨place, none⟩) :
    ∃ name, place = ns ++ [name] := by
  have hrelative := Path.isAbsolute_of_not_mem hslash
  by_cases hzero : 0 ∈ path
  · -- What is put after the path does not count, and at its own end there is something.
    have hlocate : fs.locate false path = .ok ⟨place, none⟩ := by
      rw [← h, locate, locate, Path.before_zero_join hrelative hzero]
    have hsome := (locate_missing_last hlocate).symm.trans hleads
    simp at hsome
  · have hfits := fits_of_leadsTo hzero hleads
    have hfollow := follow_of_leadsTo hfits hleads
    have hbefore := Path.before_join hrelative hzero
    have hslash' : Byte.slash ∉ Text.before 0 below :=
      fun hmem => hslash ((List.takeWhile_prefix _).subset hmem)
    have hrelative' := Path.isAbsolute_of_not_mem hslash'
    obtain ⟨-, -, hend, -⟩ := locate_eq_ok_iff.mp h
    rw [hbefore, startOf, Path.isAbsolute_join_relative hrelative' hfits.ne_nil, ← startOf,
      Path.names_join_relative hrelative', Bool.false_or] at hend
    -- A name that starts with a zero byte is cut away; only the slash before it is left.
    by_cases hnil : Text.before 0 below = []
    · have hends : Path.endsInSlash (Path.join path (Text.before 0 below)) = true := by
        rw [hnil, Path.endsInSlash_join_nil hfits.ne_nil]
      have hnames : Path.names (Text.before 0 below) = [] := by
        rw [hnil]
        rfl
      rw [hends, hnames, List.append_nil, hfollow] at hend
      simp at hend
    · have hends : Path.endsInSlash (Path.join path (Text.before 0 below)) = false := by
        rw [Path.endsInSlash_join_relative hrelative' hnil, Path.endsInSlash_of_not_mem hslash']
      rw [hends, Path.IsPiece.names_eq ⟨hnil, hslash'⟩] at hend
      obtain ⟨hdir, links', hrest⟩ : fs.nodeAt? ns = some (.directory es) ∧ ∃ links',
          fs.follow false maxLinks (fs.startOf path) (Path.names path ++ [Text.before 0 below]) =
            fs.follow false links' ns [Text.before 0 below] :=
        follow_append (List.cons_ne_nil _ []) hfollow
      rw [hrest] at hend
      exact ⟨_, follow_single_missing hdir hend⟩

/-! ## Rows of directories -/

/-- Directories were made one after the other, each where one of the paths led to nothing. -/
inductive Made (paths : List Text) (fs : FileSystem) : FileSystem → Prop where
  | nothing : Made paths fs fs
  | more {fs' : FileSystem} {path : Text} {place : List Text} (before : Made paths fs fs')
      (hpath : path ∈ paths) (hmissing : fs'.locate false path = .ok ⟨place, none⟩) :
      Made paths fs (fs'.setAt place (some Node.empty))

namespace Made

theorem mono (hpaths : ∀ path ∈ paths, path ∈ paths') (h : Made paths fs fs') :
    Made paths' fs fs' := by
  induction h with
  | nothing => exact .nothing
  | more _ hpath hmissing ih => exact .more ih (hpaths _ hpath) hmissing

theorem trans (h : Made paths fs fs') (h' : Made paths fs' fs'') : Made paths fs fs'' := by
  induction h' with
  | nothing => exact h
  | more _ hpath hmissing ih => exact .more ih hpath hmissing

theorem workingDirectory (h : Made paths fs fs') :
    fs'.workingDirectory = fs.workingDirectory := by
  induction h with
  | nothing => rfl
  | more _ _ _ ih => exact ih

theorem grows (h : Made paths fs fs') : fs.root.Grows fs'.root := by
  induction h with
  | nothing => exact fun p c hc => ⟨c, hc, Or.inl rfl⟩
  | more _ _ hmissing ih => exact ih.trans ((isFree_of_locate hmissing).grows _)

theorem leadsTo (h : Made paths fs fs') (hleads : fs.LeadsTo path ns es) :
    ∃ es', fs'.LeadsTo path ns es' := by
  obtain ⟨m, hm, rfl | ⟨_, es', -, rfl⟩⟩ := nodeAt?_grows h.grows (nodeAt?_of_locate hleads)
  · exact ⟨es, leadsTo_grows hleads h.grows h.workingDirectory hm⟩
  · exact ⟨es', leadsTo_grows hleads h.grows h.workingDirectory hm⟩

/-- Every place is as it was, or there was nothing and is a directory now, to which one of the paths
leads. -/
theorem agreeAt (h : Made paths fs fs') (ns : List Text) :
    AgreeAt fs fs' ns ∨
      fs.nodeAt? ns = none ∧ ∃ path ∈ paths, ∃ es, fs'.LeadsTo path ns es := by
  induction h with
  | nothing => exact Or.inl rfl
  | more before hpath hmissing ih =>
    rename_i fs' path place
    have hfree := isFree_of_locate hmissing
    have hstep : Made paths fs' (fs'.setAt place (some Node.empty)) :=
      Made.nothing.more hpath hmissing
    by_cases hplace : ns = place
    · subst hplace
      refine Or.inr ⟨?_, path, hpath, [], leadsTo_setAt hmissing []⟩
      rcases ih with hagree | ⟨hnone, -⟩
      · rw [AgreeAt, hfree.nodeAt?, Option.map_none, Option.map_eq_none_iff] at hagree
        exact hagree
      · exact hnone
    · rcases ih with hagree | ⟨hnone, path', hpath', es, hleads⟩
      · exact Or.inl (hagree.trans (hfree.agreeAt hplace))
      · exact Or.inr ⟨hnone, path', hpath', hstep.leadsTo hleads⟩

/-- A tree is as it was if none of the paths leads to a new directory in it. -/
theorem nodeAt?_eq (h : Made paths fs fs') (hn : fs.nodeAt? ns = some n)
    (hold : ∀ path ∈ paths, ∀ more es, fs'.LeadsTo path (ns ++ more) es →
      fs.nodeAt? (ns ++ more) ≠ none) : fs'.nodeAt? ns = some n := by
  induction h with
  | nothing => exact hn
  | more before hpath hmissing ih =>
    rename_i fs' path place
    have hfree := isFree_of_locate hmissing
    have hstep : Made paths fs' (fs'.setAt place (some Node.empty)) :=
      Made.nothing.more hpath hmissing
    have houtside : ¬ns <+: place := by
      rintro ⟨more, rfl⟩
      have hsome := hold path hpath more [] (leadsTo_setAt hmissing [])
      obtain ⟨m, hm⟩ := Option.ne_none_iff_exists'.mp hsome
      obtain ⟨m', hm', -⟩ := nodeAt?_grows before.grows hm
      rw [hfree.nodeAt?] at hm'
      contradiction
    refine hfree.nodeAt?_of_outside (ih fun path' hpath' more es hleads => ?_) houtside _
    obtain ⟨es', hleads'⟩ := hstep.leadsTo hleads
    exact hold path' hpath' more es' hleads'

end Made

/-! ## Making all directories on the way to a path -/

/-- What is put where nothing may be yet is put at a place that is missing. -/
theorem put_eq_ok (h : (do
      let place ← fs.locate false path
      match place.node with
      | some _ => throw .fileExists
      | none => pure (fs.setAt place.names (some n))) = Except.ok fs') :
    ∃ place, fs.locate false path = .ok ⟨place, none⟩ ∧ fs' = fs.setAt place (some n) := by
  cases hlocate : fs.locate false path with
  | error e => simp [hlocate, bind, Except.bind] at h
  | ok found =>
    obtain ⟨place, _ | m⟩ := found
    · simp only [hlocate, bind, Except.bind] at h
      exact ⟨place, rfl, (Except.ok.inj h).symm⟩
    · simp [hlocate, bind, Except.bind, throw, throwThe, MonadExceptOf.throw] at h

theorem makeDirectory_eq_ok (h : fs.makeDirectory path = .ok fs') :
    ∃ place, fs.locate false path = .ok ⟨place, none⟩ ∧
      fs' = fs.setAt place (some Node.empty) := put_eq_ok h

theorem writeNew_eq_ok {text : Text} (h : fs.writeNew path text = .ok fs') :
    ∃ place, fs.locate false path = .ok ⟨place, none⟩ ∧
      fs' = fs.setAt place (some (.file ⟨text, 0, false⟩)) := put_eq_ok h

theorem made_ensureDirectory (h : fs.ensureDirectory path = .ok fs') (hpath : path ∈ paths) :
    Made paths fs fs' := by
  rw [ensureDirectory] at h
  split at h
  · split at h
    · obtain rfl := Except.ok.inj h
      exact .nothing
    · contradiction
  · obtain ⟨place, hmissing, rfl⟩ := makeDirectory_eq_ok h
    exact .more .nothing hpath hmissing

theorem made_ensureAll (hpaths : ∀ path ∈ todo, path ∈ paths) :
    Made paths fs (fs.ensureAll todo).1 := by
  induction todo generalizing fs with
  | nil => exact .nothing
  | cons path rest ih =>
    obtain ⟨hpath, hrest⟩ := List.forall_mem_cons.mp hpaths
    rw [ensureAll]
    split
    · rename_i fs' hmade
      exact (made_ensureDirectory hmade hpath).trans (ih hrest)
    · exact .nothing

theorem missingDirectories_subset {found missing : List Text}
    (h : fs.missingDirectories found todo = .ok missing) :
    ∀ path ∈ missing, path ∈ found ∨ path ∈ todo := by
  induction todo generalizing found with
  | nil =>
    obtain rfl := Except.ok.inj h
    exact fun path hpath => Or.inl hpath
  | cons path shorter ih =>
    -- The path is one of those that are missing, or has dots at its end.
    have hfound : ∀ other, other ∈ (if Path.fileName path == Path.dot ||
        Path.fileName path == Path.dotDot then found else path :: found) →
          other ∈ found ∨ other ∈ path :: shorter := by
      intro other hother
      split at hother
      · exact Or.inl hother
      · rcases List.mem_cons.mp hother with rfl | hother
        · exact Or.inr List.mem_cons_self
        · exact Or.inl hother
    simp only [missingDirectories] at h
    split at h
    · obtain rfl := Except.ok.inj h
      exact hfound
    · split at h
      · intro other hother
        rcases ih h other hother with hother | hother
        · exact hfound other hother
        · exact Or.inr (List.mem_cons_of_mem _ hother)
      · obtain rfl := Except.ok.inj h
        exact hfound
      · obtain rfl := Except.ok.inj h
        exact hfound
      · contradiction

/-- Whatever comes of it, directories are made only where parts of the path lead. -/
theorem made_makeDirectories (fs : FileSystem) (path : Text) :
    Made (leadingParts path) fs (fs.makeDirectories path).1 := by
  rw [makeDirectories]
  split
  · exact .nothing
  split
  · exact .nothing
  · exact .nothing
  · exact .nothing
  split
  · exact .nothing
  · rename_i missing hmissing
    refine made_ensureAll fun part hpart => ?_
    exact (missingDirectories_subset hmissing part hpart).resolve_left List.not_mem_nil

theorem makeDirectories_of_isDirectory (h : fs.isDirectory path) :
    fs.makeDirectories path = (fs, .ok ()) := by
  obtain ⟨ns, es, hleads⟩ := isDirectory_iff.mp h
  have hempty : path.isEmpty = false := by
    cases path with
    | nil => simp [LeadsTo, locate, Text.before] at hleads
    | cons b rest => rfl
  rw [makeDirectories, hempty, kind?_of_leadsTo hleads]
  rfl

end FileSystem

end Triage
