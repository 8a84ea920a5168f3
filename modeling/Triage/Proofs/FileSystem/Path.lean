import Mathlib.Data.List.Induction
import Triage.FileSystem.Lookup
import Triage.Proofs.Text

/-!
Written paths of plain names.

A name is what an entry of a directory can be called: it is not empty, it has no slash and no zero
byte, and it is not one of the two names that lead back. For a path that is made of names, cutting
it into names, putting it together and normalising it undo each other.
-/

namespace Triage

namespace Path

/-! ## Names -/

/-- A text that can be the name of an entry. -/
structure IsName (name : Text) : Prop where
  ne_nil : name ≠ []
  noSlash : Byte.slash ∉ name
  noZero : 0 ∉ name
  ne_dot : name ≠ dot
  ne_dotDot : name ≠ dotDot
  length_le : name.length ≤ FileSystem.maxName

instance (name : Text) : Decidable (IsName name) :=
  decidable_of_iff (name ≠ [] ∧ Byte.slash ∉ name ∧ 0 ∉ name ∧ name ≠ dot ∧ name ≠ dotDot ∧
    name.length ≤ FileSystem.maxName)
    ⟨fun ⟨hne, hslash, hzero, hdot, hdots, hlength⟩ => ⟨hne, hslash, hzero, hdot, hdots, hlength⟩,
      fun h => ⟨h.ne_nil, h.noSlash, h.noZero, h.ne_dot, h.ne_dotDot, h.length_le⟩⟩

/-- A text that can stand between two slashes of a path, be it too long for a name. -/
structure IsPiece (piece : Text) : Prop where
  ne_nil : piece ≠ []
  noSlash : Byte.slash ∉ piece

theorem IsName.isPiece {name : Text} (h : IsName name) : IsPiece name := ⟨h.ne_nil, h.noSlash⟩

/-- A row of names. -/
def AreNames (ns : List Text) : Prop := ∀ name ∈ ns, IsName name

variable {name path : Text} {ns : List Text}

theorem AreNames.concat (hs : AreNames ns) (h : IsName name) : AreNames (ns ++ [name]) := by
  intro other hother
  rcases List.mem_append.mp hother with hother | hother
  · exact hs other hother
  · exact List.mem_singleton.mp hother ▸ h

theorem AreNames.left {more : List Text} (hs : AreNames (ns ++ more)) : AreNames ns :=
  fun other hother => hs other (List.mem_append_left _ hother)

theorem AreNames.append {more : List Text} (hs : AreNames ns) (hm : AreNames more) :
    AreNames (ns ++ more) := List.forall_mem_append.mpr ⟨hs, hm⟩

theorem IsPiece.endsInSlash_append (h : IsPiece name) (before : Text) :
    endsInSlash (before ++ name) = false := by
  obtain ⟨start, b, rfl⟩ := (List.eq_nil_or_concat name).resolve_left h.ne_nil
  have hb : b ≠ Byte.slash := fun e => h.noSlash (by simp [e])
  rw [endsInSlash, List.concat_eq_append, ← List.append_assoc, List.getLast?_concat]
  simpa using hb

theorem IsName.endsInSlash_append (h : IsName name) (before : Text) :
    endsInSlash (before ++ name) = false := h.isPiece.endsInSlash_append before

theorem isAbsolute_of_not_mem (h : Byte.slash ∉ path) : isAbsolute path = false := by
  rw [isAbsolute, beq_eq_false_iff_ne]
  exact fun hhead => h (List.mem_of_head? hhead)

theorem endsInSlash_of_not_mem (h : Byte.slash ∉ path) : endsInSlash path = false := by
  rw [endsInSlash, beq_eq_false_iff_ne]
  exact fun hlast => h (List.mem_of_getLast? hlast)

theorem IsPiece.isAbsolute (h : IsPiece name) : isAbsolute name = false :=
  isAbsolute_of_not_mem h.noSlash

theorem IsName.isAbsolute (h : IsName name) : isAbsolute name = false := h.isPiece.isAbsolute

theorem slash_not_mem_fileName (path : Text) : Byte.slash ∉ fileName path := by
  intro hmem
  rw [fileName, Text.baseName, Text.afterLast, List.mem_reverse] at hmem
  simpa using List.mem_takeWhile_imp hmem

theorem names_append_slash (a b : Text) : names (a ++ Byte.slash :: b) = names a ++ names b := by
  rw [names, Text.splitOn_append, List.filter_append]
  rfl

theorem IsPiece.names_eq (h : IsPiece name) : names name = [name] := by
  rw [names, Text.splitOn_of_not_mem h.noSlash]
  simp [h.ne_nil]

theorem IsName.names_eq (h : IsName name) : names name = [name] := h.isPiece.names_eq

/-- A path without names is that of the topmost directory, if it is one at all. -/
theorem isAbsolute_of_names_eq_nil (hne : path ≠ []) (h : names path = []) :
    isAbsolute path = true := by
  by_cases hslash : Byte.slash ∈ path
  · obtain ⟨before, after, rfl, hbefore⟩ := List.eq_append_cons_of_mem hslash
    rw [names_append_slash, List.append_eq_nil_iff] at h
    by_cases hnil : before = []
    · rw [hnil]
      rfl
    · rw [IsPiece.names_eq ⟨hnil, hbefore⟩] at h
      exact absurd h.1 (List.cons_ne_nil _ _)
  · rw [IsPiece.names_eq ⟨hne, hslash⟩] at h
    contradiction

/-! ## Putting a name after a path -/

section Relative

variable {below : Text} (h : isAbsolute below = false)

include h

theorem join_relative : join path below =
    if path.isEmpty || endsInSlash path then path ++ below else path ++ Byte.slash :: below := by
  rw [join, h]
  simp

theorem names_join_relative : names (join path below) = names path ++ names below := by
  rw [join_relative h]
  split
  · rename_i hend
    rcases Bool.or_eq_true_iff.mp hend with hempty | hslash
    · rw [List.isEmpty_iff.mp hempty]
      rfl
    · -- A path that ends in a slash has an empty last name, which does not count.
      obtain ⟨before, rfl⟩ := List.getLast?_eq_some_iff.mp (eq_of_beq hslash)
      rw [List.append_assoc, List.singleton_append, names_append_slash, names_append_slash]
      simp [names, Text.splitOn]
  · rw [names_append_slash]

theorem endsInSlash_join_relative (hbelow : below ≠ []) :
    endsInSlash (join path below) = endsInSlash below := by
  obtain ⟨start, b, rfl⟩ := (List.eq_nil_or_concat below).resolve_left hbelow
  have hconcat : ∀ start : Text, endsInSlash (start ++ [b]) = (some b == some Byte.slash) :=
    fun start => by rw [endsInSlash, List.getLast?_concat]
  rw [join_relative h, List.concat_eq_append, hconcat]
  split
  · rw [← List.append_assoc, hconcat]
  · rw [← List.cons_append, ← List.append_assoc, hconcat]

omit h in
theorem endsInSlash_join_nil (hpath : path ≠ []) : endsInSlash (join path []) = true := by
  rw [join_relative rfl]
  cases hends : endsInSlash path with
  | true => rwa [Bool.or_true, if_pos rfl, List.append_nil]
  | false => simp [hpath, endsInSlash]

theorem join_relative_ne_nil (hpath : path ≠ []) : join path below ≠ [] := by
  rw [join_relative h]
  split <;> exact List.append_ne_nil_of_left_ne_nil hpath _

theorem isAbsolute_join_relative (hpath : path ≠ []) :
    isAbsolute (join path below) = isAbsolute path := by
  obtain ⟨b, rest, rfl⟩ := List.exists_cons_of_ne_nil hpath
  rw [join_relative h]
  split <;> rfl

theorem not_mem_join_relative {b : UInt8} (hb : b ≠ Byte.slash) (hpath : b ∉ path)
    (hbelow : b ∉ below) : b ∉ join path below := by
  rw [join_relative h]
  split <;> simp [hpath, hbelow, hb]

/-- A path with a zero byte hides what is put after it. -/
theorem before_zero_join (hzero : 0 ∈ path) :
    Text.before 0 (join path below) = Text.before 0 path := by
  have happend : ∀ more, Text.before 0 (path ++ more) = Text.before 0 path := by
    intro more
    rw [Text.before, List.takeWhile_append, if_neg]
    · rfl
    · intro hall
      have heq := (List.takeWhile_prefix (l := path) (· != 0)).eq_of_length hall
      have hzero := List.mem_takeWhile_imp (heq.symm ▸ hzero)
      simp at hzero
  rw [join_relative h]
  split <;> exact happend _

/-- If no zero byte is in the path, one in what is put after it counts as one there. -/
theorem before_join (hpath : 0 ∉ path) :
    Text.before 0 (join path below) = join path (Text.before 0 below) := by
  have happend : ∀ more, Text.before 0 (path ++ more) = path ++ Text.before 0 more := fun more =>
    List.takeWhile_append_of_pos fun b hb => by
      simpa using fun heq : b = 0 => hpath (heq ▸ hb)
  have hrelative : isAbsolute (Text.before 0 below) = false := by
    cases below with
    | nil => rfl
    | cons b rest =>
      by_cases hb : b = 0
      · subst hb
        rfl
      · have hbefore : Text.before 0 (b :: rest) = b :: Text.before 0 rest := by
          simp [Text.before, hb]
        rwa [hbefore]
  rw [join_relative h, join_relative hrelative]
  split
  · exact happend _
  · exact happend _

end Relative

theorem IsPiece.join_eq (h : IsPiece name) : join path name =
    if path.isEmpty || endsInSlash path then path ++ name else path ++ Byte.slash :: name :=
  join_relative h.isAbsolute

theorem join_name (h : IsName name) : join path name =
    if path.isEmpty || endsInSlash path then path ++ name else path ++ Byte.slash :: name :=
  h.isPiece.join_eq

theorem IsPiece.names_join (h : IsPiece name) : names (join path name) = names path ++ [name] := by
  rw [names_join_relative h.isAbsolute, h.names_eq]

theorem names_join (h : IsName name) : names (join path name) = names path ++ [name] :=
  h.isPiece.names_join

theorem join_ne_nil (h : IsName name) : join path name ≠ [] := by
  rw [join_name h]
  split
  · exact List.append_ne_nil_of_right_ne_nil _ h.ne_nil
  · exact List.append_ne_nil_of_right_ne_nil _ (List.cons_ne_nil _ _)

theorem endsInSlash_join (path : Text) (h : IsName name) :
    endsInSlash (join path name) = false := by
  rw [join_name h]
  split
  · exact h.endsInSlash_append path
  · rw [List.append_cons]
    exact h.endsInSlash_append _

theorem isAbsolute_join (h : IsName name) (hp : path ≠ []) :
    isAbsolute (join path name) = isAbsolute path := by
  obtain ⟨b, rest, rfl⟩ := List.exists_cons_of_ne_nil hp
  rw [join_name h]
  split <;> rfl

theorem IsPiece.not_mem_join {b : UInt8} (h : IsPiece name) (hb : b ≠ Byte.slash) (hp : b ∉ path)
    (hn : b ∉ name) : b ∉ join path name := by
  rw [h.join_eq]
  split <;> simp [hp, hn, hb]

theorem not_mem_join {b : UInt8} (h : IsName name) (hb : b ≠ Byte.slash) (hp : b ∉ path)
    (hn : b ∉ name) : b ∉ join path name := h.isPiece.not_mem_join hb hp hn

theorem length_join_le (path : Text) (h : IsName name) :
    (join path name).length ≤ path.length + 1 + name.length := by
  rw [join_name h]
  split <;> simp only [List.length_append, List.length_cons] <;> omega

theorem le_length_join (path : Text) (h : IsName name) :
    path.length + name.length ≤ (join path name).length := by
  rw [join_name h]
  split <;> simp only [List.length_append, List.length_cons] <;> omega

/-! ## The path of a location -/

open FileSystem (absoluteText)

theorem absoluteText_concat (ns : List Text) (name : Text) :
    absoluteText (ns ++ [name]) =
      if ns = [] then Byte.slash :: name else absoluteText ns ++ Byte.slash :: name := by
  split
  · rename_i h
    rw [h]
    rfl
  · rename_i h
    rw [absoluteText, absoluteText, Text.joinWith_concat _ h]
    simp

theorem length_absoluteText_concat_le (ns : List Text) (name : Text) :
    (absoluteText (ns ++ [name])).length ≤ (absoluteText ns).length + 1 + name.length := by
  rw [absoluteText_concat]
  split
  · simp only [List.length_cons, absoluteText]
    omega
  · simp only [List.length_append, List.length_cons]
    omega

theorem length_absoluteText_le (ns more : List Text) :
    (absoluteText ns).length ≤ (absoluteText (ns ++ more)).length := by
  induction more using List.reverseRecOn with
  | nil => rw [List.append_nil]
  | append_singleton more name ih =>
    have hlonger : (absoluteText (ns ++ more)).length ≤
        (absoluteText (ns ++ more ++ [name])).length := by
      rw [absoluteText_concat]
      split
      · rename_i h
        rw [h]
        exact Nat.succ_le_succ (Nat.zero_le _)
      · rw [List.length_append]
        exact Nat.le_add_right _ _
    calc (absoluteText ns).length
        ≤ (absoluteText (ns ++ more)).length := ih
      _ ≤ (absoluteText (ns ++ more ++ [name])).length := hlonger
      _ = (absoluteText (ns ++ (more ++ [name]))).length := by rw [List.append_assoc]

theorem AreNames.names_absoluteText (hs : AreNames ns) : names (absoluteText ns) = ns := by
  induction ns using List.reverseRecOn with
  | nil => rfl
  | append_singleton ns name ih =>
    have hname : IsName name := hs name (by simp)
    rw [absoluteText_concat]
    split
    · rename_i h
      rw [h, List.nil_append, ← hname.names_eq]
      exact names_append_slash [] name
    · rw [names_append_slash, ih hs.left, hname.names_eq]

theorem AreNames.endsInSlash_absoluteText (hs : AreNames ns) :
    endsInSlash (absoluteText ns) = ns.isEmpty := by
  cases ns using List.reverseRecOn with
  | nil => rfl
  | append_singleton ns name =>
    have hname : IsName name := hs name (by simp)
    have hempty : (ns ++ [name]).isEmpty = false := by simp
    rw [absoluteText_concat, hempty]
    split
    · exact hname.endsInSlash_append [Byte.slash]
    · rw [List.append_cons]
      exact hname.endsInSlash_append _

theorem AreNames.join_absoluteText (hs : AreNames ns) (h : IsName name) :
    join (absoluteText ns) name = absoluteText (ns ++ [name]) := by
  rw [join_name h, absoluteText_concat, hs.endsInSlash_absoluteText]
  by_cases hn : ns = []
  · subst hn
    rfl
  · simp [hn, absoluteText]

theorem AreNames.elements_absoluteText (hs : AreNames ns) :
    elements (absoluteText ns) = [Byte.slash] :: ns := by
  have habsolute : isAbsolute (absoluteText ns) = true := rfl
  rw [elements, hs.names_absoluteText, hs.endsInSlash_absoluteText, habsolute]
  simp

theorem AreNames.zero_not_mem_absoluteText (hs : AreNames ns) : 0 ∉ absoluteText ns := by
  induction ns using List.reverseRecOn with
  | nil => decide
  | append_singleton ns name ih =>
    have hname : IsName name := hs name (by simp)
    rw [← hs.left.join_absoluteText hname]
    exact not_mem_join hname (by decide) (ih hs.left) hname.noZero

/-! ## The path of a row of names -/

/-- The relative path of a row of names. -/
def ofNames (ns : List Text) : Text := Text.joinWith [Byte.slash] ns

theorem AreNames.names_ofNames (hs : AreNames ns) : names (ofNames ns) = ns := by
  have habsolute := names_append_slash [] (ofNames ns)
  exact habsolute.symm.trans hs.names_absoluteText

theorem AreNames.zero_not_mem_ofNames (hs : AreNames ns) : 0 ∉ ofNames ns :=
  fun hmem => hs.zero_not_mem_absoluteText (List.mem_cons_of_mem _ hmem)

theorem AreNames.eq_of_ofNames_eq {ms : List Text} (hn : AreNames ns) (hm : AreNames ms)
    (h : ofNames ns = ofNames ms) : ns = ms := by
  rw [← hn.names_ofNames, h, hm.names_ofNames]

/-- What is behind an entry is behind its names. -/
theorem AreNames.inside_of_path {ms : List Text} (hn : AreNames ns) (hm : AreNames ms)
    (h : ofNames ns ++ [Byte.slash] <+: ofNames ms) : ns <+: ms := by
  obtain ⟨behind, hbehind⟩ := h
  rw [List.append_assoc, List.singleton_append] at hbehind
  have hnames := congrArg names hbehind
  rw [names_append_slash, hn.names_ofNames, hm.names_ofNames] at hnames
  exact ⟨names behind, hnames⟩

theorem exists_ofNames_concat (init : List Text) (last : Text) :
    ∃ before, ofNames (init ++ [last]) = before ++ last := by
  by_cases hinit : init = []
  · exact ⟨[], by rw [hinit]; rfl⟩
  · exact ⟨_, Text.joinWith_concat _ hinit last⟩

theorem AreNames.ofNames_ne_nil (hs : AreNames ns) (hne : ns ≠ []) : ofNames ns ≠ [] := by
  obtain ⟨init, last, rfl⟩ := (List.eq_nil_or_concat ns).resolve_left hne
  rw [List.concat_eq_append] at hs ⊢
  obtain ⟨before, hbefore⟩ := exists_ofNames_concat init last
  rw [hbefore]
  exact List.append_ne_nil_of_right_ne_nil _ (hs last (by simp)).ne_nil

theorem AreNames.endsInSlash_ofNames (hs : AreNames ns) : endsInSlash (ofNames ns) = false := by
  cases ns using List.reverseRecOn with
  | nil => rfl
  | append_singleton init last =>
    obtain ⟨before, hbefore⟩ := exists_ofNames_concat init last
    rw [hbefore]
    exact (hs last (by simp)).endsInSlash_append before

theorem AreNames.isAbsolute_ofNames (hs : AreNames ns) : isAbsolute (ofNames ns) = false := by
  cases ns with
  | nil => rfl
  | cons name rest =>
    have hname : IsName name := hs name List.mem_cons_self
    obtain ⟨more, hmore⟩ : ∃ more, ofNames (name :: rest) = name ++ more := by
      cases rest with
      | nil => exact ⟨[], (List.append_nil _).symm⟩
      | cons next rest => exact ⟨_, List.append_assoc ..⟩
    obtain ⟨b, start, hb⟩ := List.exists_cons_of_ne_nil hname.ne_nil
    have habsolute := hname.isAbsolute
    rw [hb] at habsolute
    rw [hmore, hb]
    exact habsolute

theorem AreNames.join_ofNames (hs : AreNames ns) (h : IsName name) :
    join (ofNames ns) name = ofNames (ns ++ [name]) := by
  rw [join_name h]
  cases ns using List.reverseRecOn with
  | nil => rfl
  | append_singleton init last =>
    have hlast : IsName last := hs last (by simp)
    obtain ⟨before, hbefore⟩ := exists_ofNames_concat init last
    have hslash := hlast.endsInSlash_append before
    have hempty : (before ++ last).isEmpty = false := by simp [hlast.ne_nil]
    have hlonger : ofNames (init ++ [last] ++ [name]) =
        ofNames (init ++ [last]) ++ [Byte.slash] ++ name :=
      Text.joinWith_concat _ (by simp) name
    rw [hlonger, hbefore, hslash, hempty]
    simp

/-! ## Normal form -/

theorem IsName.push (h : IsName name) (s : Stack) :
    s.push name = { s with names := name :: s.names, slash := false } := by
  have hempty : name.isEmpty = false := by simp [h.ne_nil]
  rw [Stack.push, if_neg (by simp [h.ne_dotDot]), if_neg (by simp [hempty, h.ne_dot])]

theorem AreNames.foldl_push (hs : AreNames ns) : ∀ before : List Text,
    ns.foldl Stack.push ⟨true, before, false⟩ = ⟨true, ns.reverse ++ before, false⟩ := by
  induction ns with
  | nil => exact fun _ => rfl
  | cons name ns ih =>
    intro before
    have hname : IsName name := hs name List.mem_cons_self
    have hrest : AreNames ns := fun other hother => hs other (List.mem_cons_of_mem _ hother)
    rw [List.foldl_cons, hname.push, ih hrest]
    simp

theorem AreNames.normal_absoluteText (hs : AreNames ns) :
    normal (absoluteText ns) = absoluteText ns := by
  -- Only the root is a slash, so the filter drops no name.
  have hfilter : ([Byte.slash] :: ns).filter (fun e => e != [Byte.slash]) = ns := by
    rw [List.filter_cons_of_neg (by simp), List.filter_eq_self]
    intro name hname
    have hslash := (hs name hname).noSlash
    simp only [bne_iff_ne, ne_eq]
    rintro rfl
    exact hslash List.mem_cons_self
  have hnonempty : (absoluteText ns).isEmpty = false := rfl
  have habsolute : isAbsolute (absoluteText ns) = true := rfl
  simp only [normal, hnonempty, hs.elements_absoluteText, hfilter, habsolute, hs.foldl_push]
  simp [Stack.text, absoluteText]

/-! ## Names behind dots -/

/-- A path to a name with dots before it. -/
def dotted (k : Nat) (name : Text) : Text := (List.replicate k "./".ascii).flatten ++ name

section Dotted

variable (k : Nat)

theorem dotted_succ (name : Text) : dotted (k + 1) name = dot ++ Byte.slash :: dotted k name := rfl

theorem IsName.names_dotted (h : IsName name) :
    names (dotted k name) = List.replicate k dot ++ [name] := by
  induction k with
  | zero => exact h.names_eq
  | succ k ih =>
    have hdot : names dot = [dot] := by decide
    rw [dotted_succ, names_append_slash, hdot, ih]
    rfl

theorem length_dotted (name : Text) : (dotted k name).length = 2 * k + name.length := by
  induction k with
  | zero => rw [dotted, List.replicate_zero, List.flatten_nil, List.nil_append]; omega
  | succ k ih =>
    have hdot : dot.length = 1 := rfl
    rw [dotted_succ, List.length_append, List.length_cons, ih, hdot]
    omega

theorem IsName.noZero_dotted (h : IsName name) : 0 ∉ dotted k name := by
  have hpiece : (0 : UInt8) ∉ "./".ascii := by decide
  simp [dotted, hpiece, h.noZero]

theorem IsName.isAbsolute_dotted (h : IsName name) :
    Path.isAbsolute (dotted k name) = false := by
  cases k with
  | zero => exact h.isAbsolute
  | succ k => rfl

end Dotted

/-! ## The way from a directory to an entry -/

theorem dropCommon_append (xs ys : List Text) : dropCommon (xs ++ ys) xs = (ys, []) := by
  induction xs with
  | nil => cases ys <;> rfl
  | cons x xs ih => simp [dropCommon, ih]

theorem AreNames.relativeElements_concat (hs : AreNames ns) (h : IsName name) :
    relativeElements (absoluteText (ns ++ [name])) (absoluteText ns) = [name] := by
  have habsolute : isAbsolute (absoluteText (ns ++ [name])) = isAbsolute (absoluteText ns) := rfl
  rw [relativeElements, habsolute, (hs.concat h).elements_absoluteText, hs.elements_absoluteText,
    ← List.cons_append, dropCommon_append]
  simp [depth, h.ne_nil]

end Path

end Triage
