import Triage.Proofs.FileSystem.Following
import Triage.Proofs.Walk
import Triage.Tool

/-!
What reports show for the paths that tools name.

Dropping the dots in front of a path keeps its components (`components_dropDots`), and the way that
is left when the root is taken off has those behind the root (`belowRoot_of_enters`). Where an
absolute path leads depends on its components only (`names_normal`), so what is shown leads, from
the root, to where the path leads (`names_normal_join`).

There are two slips (`keepsMeaning_iff`): behind the dots a second slash may come to stand first,
which makes a relative path an absolute one, and of the way from the root only the first element is
looked at, so it may leave the root further on.
-/

namespace Triage

open Triage.Path

/-! ## Components -/

namespace Path

/-- The names of a path, without the dots that lead nowhere. -/
def components (path : Text) : List Text := (names path).filter (· != dot)

theorem components_append_slash (a b : Text) :
    components (a ++ Byte.slash :: b) = components a ++ components b := by
  rw [components, names_append_slash, List.filter_append]
  rfl

theorem components_join_relative {path below : Text} (h : isAbsolute below = false) :
    components (join path below) = components path ++ components below := by
  rw [components, names_join_relative h, List.filter_append]
  rfl

theorem exists_slash_of_isAbsolute {path : Text} (h : isAbsolute path) :
    ∃ rest, path = Byte.slash :: rest := by
  cases path with
  | nil => cases h
  | cons b rest => exact ⟨rest, by rw [Option.some.inj (eq_of_beq h)]⟩

end Path

/-! ## Dots in front -/

namespace Tool

/-- Whether a path starts with a dot and a slash. -/
def StartsWithDot (path : Text) : Prop := path.startsWith "./".ascii = true

/-- A relative path that has two slashes in a row behind the dots in front. -/
def HidesSlash (path : Text) : Prop :=
  ∃ k rest, path = (List.replicate (k + 1) "./".ascii).flatten ++ Byte.slash :: rest

theorem dropDots_dot_slash (rest : Text) :
    dropDots (dot ++ Byte.slash :: rest) = dropDots rest := by
  rw [show dot ++ Byte.slash :: rest = '.'.ascii :: Byte.slash :: rest from rfl, dropDots]
  simp

theorem dropDots_of_not_startsWithDot {path : Text} (h : ¬StartsWithDot path) :
    dropDots path = path := by
  fun_cases dropDots path with
  | case1 a b rest hdot =>
    simp only [Bool.and_eq_true, beq_iff_eq] at hdot
    exact absurd (by rw [hdot.1, hdot.2]; rfl) h
  | case2 => rfl
  | case3 => rfl

theorem not_startsWithDot_slash {rest : Text} : ¬StartsWithDot (Byte.slash :: rest) :=
  fun h => by cases h

theorem exists_of_startsWithDot {path : Text} (h : StartsWithDot path) :
    ∃ rest, path = dot ++ Byte.slash :: rest := by
  obtain ⟨rest, hrest⟩ := List.isPrefixOf_iff_prefix.mp h
  exact ⟨rest, hrest.symm⟩

/-- What is seen of a path once its dots in front are dropped, one after the other. -/
theorem dots_induction {motive : Text → Prop} (plain : ∀ path, ¬StartsWithDot path → motive path)
    (dots : ∀ rest, motive rest → motive (dot ++ Byte.slash :: rest)) (path : Text) :
    motive path := by
  by_cases h : StartsWithDot path
  · obtain ⟨rest, hrest⟩ := exists_of_startsWithDot h
    subst hrest
    exact dots rest (dots_induction plain dots rest)
  · exact plain path h
termination_by path.length
decreasing_by
  simp [hrest]
  omega

theorem not_startsWithDot_dropDots (path : Text) : ¬StartsWithDot (dropDots path) := by
  induction path using dots_induction with
  | plain path h => rwa [dropDots_of_not_startsWithDot h]
  | dots rest ih => rwa [dropDots_dot_slash]

theorem components_dropDots (path : Text) : components (dropDots path) = components path := by
  induction path using dots_induction with
  | plain path h => rw [dropDots_of_not_startsWithDot h]
  | dots rest ih => rw [dropDots_dot_slash, ih, components_append_slash]; rfl

theorem hidesSlash_dot_slash_iff (rest : Text) :
    HidesSlash (dot ++ Byte.slash :: rest) ↔ isAbsolute rest ∨ HidesSlash rest := by
  have hdots (k : Nat) (more : Text) : (List.replicate (k + 1) "./".ascii).flatten ++ more =
      dot ++ Byte.slash :: ((List.replicate k "./".ascii).flatten ++ more) := rfl
  have hcons {a b : Text} : dot ++ Byte.slash :: a = dot ++ Byte.slash :: b ↔ a = b := by simp
  constructor
  · rintro ⟨k, more, h⟩
    rw [hdots, hcons] at h
    cases k with
    | zero => exact .inl (by rw [h]; rfl)
    | succ k => exact .inr ⟨k, more, h⟩
  · rintro (h | ⟨k, more, h⟩)
    · obtain ⟨more, rfl⟩ := exists_slash_of_isAbsolute h
      exact ⟨0, more, rfl⟩
    · exact ⟨k + 1, more, by rw [hdots, hcons, h]⟩

theorem HidesSlash.startsWithDot {path : Text} (h : HidesSlash path) : StartsWithDot path := by
  obtain ⟨k, rest, rfl⟩ := h
  exact List.isPrefixOf_iff_prefix.mpr ⟨_, (List.append_assoc ..).symm⟩

theorem isAbsolute_dropDots (path : Text) :
    isAbsolute (dropDots path) ↔ isAbsolute path ∨ HidesSlash path := by
  induction path using dots_induction with
  | plain path h =>
    rw [dropDots_of_not_startsWithDot h, or_iff_left fun hhides => h hhides.startsWithDot]
  | dots rest ih =>
    have hrelative : isAbsolute (dot ++ Byte.slash :: rest) = false := rfl
    rw [dropDots_dot_slash, ih, hidesSlash_dot_slash_iff, hrelative]
    simp

/-- Without dots in front, a relative path without components is empty or a dot. -/
theorem eq_nil_or_dot {path : Text} (hrelative : isAbsolute path = false)
    (hdots : ¬StartsWithDot path) (hnone : components path = []) : path = [] ∨ path = dot := by
  by_cases hempty : path = []
  · exact .inl hempty
  right
  by_cases hslash : Byte.slash ∈ path
  · obtain ⟨first, rest, rfl, hfirst⟩ := List.eq_append_cons_of_mem hslash
    rw [components_append_slash, List.append_eq_nil_iff] at hnone
    have hpiece : IsPiece first := by
      refine ⟨?_, hfirst⟩
      rintro rfl
      cases hrelative
    have hdot : first = dot := by simpa [components, hpiece.names_eq] using hnone.1
    exact absurd (by rw [hdot]; rfl) hdots
  · simpa [components, IsPiece.names_eq ⟨hempty, hslash⟩] using hnone

end Tool

/-! ## The way from the root -/

namespace Path

variable {path : Text} {ns : List Text}

/-- What stands behind the names of a path: an empty element for a slash at its end. -/
def tail (path : Text) : List Text :=
  if endsInSlash path && !(names path).isEmpty then [[]] else []

theorem elements_of_isAbsolute (h : isAbsolute path) :
    elements path = [Byte.slash] :: (names path ++ tail path) := by
  simp [elements, tail, h]

theorem dropCommon_spec (as bs : List Text) :
    ∃ common, as = common ++ (dropCommon as bs).1 ∧ bs = common ++ (dropCommon as bs).2 := by
  fun_induction dropCommon as bs with
  | case1 a as b bs heq ih =>
    obtain ⟨common, has, hbs⟩ := ih
    exact ⟨a :: common, congrArg (a :: ·) has, by rw [← eq_of_beq heq]; exact congrArg (a :: ·) hbs⟩
  | case2 => exact ⟨[], rfl, rfl⟩
  | case3 => exact ⟨[], rfl, rfl⟩

theorem AreNames.depth_eq (hs : AreNames ns) : depth ns = ns.length := by
  have hfold (n : Int) : ns.foldl (fun n e =>
      if e == dotDot then n - 1 else if e.isEmpty || e == dot then n else n + 1) n =
        n + ns.length := by
    induction ns generalizing n with
    | nil => simp
    | cons name ns ih =>
      obtain ⟨hname, hrest⟩ := List.forall_mem_cons.mp hs
      rw [List.foldl_cons, ih hrest, if_neg (by simp [hname.ne_dotDot]),
        if_neg (by simp [hname.ne_nil, hname.ne_dot]), List.length_cons]
      omega
  simpa [depth] using hfold 0

theorem ne_nil_of_mem_names {name : Text} (h : name ∈ names path) : name ≠ [] := by
  have hname := (List.mem_filter.mp h).2
  rintro rfl
  cases hname

theorem tail_eq (path : Text) : tail path = [] ∨ tail path = [[]] := by
  rw [tail]
  split
  · exact .inr rfl
  · exact .inl rfl

/-- The way to a path from a directory that the path is written below. -/
theorem AreNames.relativeElements_below (hs : AreNames ns) (habsolute : isAbsolute path)
    {more : List Text} (hmore : names path = ns ++ more) :
    relativeElements path (FileSystem.absoluteText ns) =
      if more = [] then [dot] else more ++ tail path := by
  have hsame : isAbsolute path = isAbsolute (FileSystem.absoluteText ns) := habsolute
  have hcommon : dropCommon ([Byte.slash] :: (ns ++ more ++ tail path)) ([Byte.slash] :: ns) =
      (more ++ tail path, []) := by
    rw [List.append_assoc]
    exact dropCommon_append ([Byte.slash] :: ns) (more ++ tail path)
  rw [relativeElements, hsame, elements_of_isAbsolute habsolute, hs.elements_absoluteText, hmore,
    hcommon]
  cases more with
  | nil => obtain htail | htail := tail_eq path <;> rw [htail] <;> simp [depth]
  | cons name more =>
    have hmem : name ∈ names path := by simp [hmore]
    have hname : name ≠ [] := ne_nil_of_mem_names hmem
    simp [depth, hname]

/-- To any other path the way first leads up. -/
theorem AreNames.head?_relativeElements (hs : AreNames ns) (habsolute : isAbsolute path)
    (hbelow : ¬ns <+: names path) :
    (relativeElements path (FileSystem.absoluteText ns)).head? = some dotDot := by
  have hsame : isAbsolute path = isAbsolute (FileSystem.absoluteText ns) := habsolute
  have hroot : dropCommon ([Byte.slash] :: (names path ++ tail path)) ([Byte.slash] :: ns) =
      dropCommon (names path ++ tail path) ns := by simp [dropCommon]
  obtain ⟨common, hpath, hns⟩ := dropCommon_spec (names path ++ tail path) ns
  rw [relativeElements, hsame, elements_of_isAbsolute habsolute, hs.elements_absoluteText, hroot]
  generalize dropCommon (names path ++ tail path) ns = parts at hpath hns ⊢
  obtain ⟨ahead, back⟩ := parts
  -- A name of the base is left over, or else the path would be written below it.
  have hback : back ≠ [] := by
    rintro rfl
    rw [List.append_nil] at hns
    have hprefix : ns <+: names path ++ tail path := ⟨ahead, by rw [hpath, hns]⟩
    obtain htail | htail := tail_eq path <;> rw [htail] at hprefix
    · exact hbelow (by rwa [List.append_nil] at hprefix)
    · obtain heq | hprefix := List.prefix_concat_iff.mp hprefix
      · exact absurd rfl (hs [] (by rw [heq]; simp)).ne_nil
      · exact hbelow hprefix
  have hnames : AreNames back := fun name hname => hs name (by rw [hns]; simp [hname])
  obtain ⟨name, back, rfl⟩ := List.exists_cons_of_ne_nil hback
  have hup : depth (name :: back) = (back.length + 1 : Nat) := by rw [hnames.depth_eq]; rfl
  have hnonneg : ¬((back.length + 1 : Nat) : Int) < 0 := by omega
  simp only [hup]
  rw [if_neg (by simp), if_neg hnonneg, Int.toNat_natCast, List.replicate_succ]
  rfl

/-! ## Paths put together -/

/-- Names and a last element, one after the other. -/
theorem ofElements_concat {es : List Text} (hes : ∀ e ∈ es, IsPiece e) {last : Text}
    (hlast : Byte.slash ∉ last) : ofElements (es ++ [last]) = ofNames (es ++ [last]) := by
  induction es using List.reverseRecOn generalizing last with
  | nil =>
    have hjoin : join [] last = last := by rw [join_relative (isAbsolute_of_not_mem hlast)]; rfl
    exact hjoin
  | append_singleton es e ih =>
    rw [List.forall_mem_append] at hes
    have he : IsPiece e := hes.2 e (by simp)
    have hbefore : ofElements (es ++ [e]) = ofNames (es ++ [e]) := ih hes.1 he.noSlash
    obtain ⟨start, hstart⟩ := exists_ofNames_concat es e
    have hends := he.endsInSlash_append start
    rw [ofElements, List.foldl_append, List.foldl_cons, List.foldl_nil,
      show (es ++ [e]).foldl join [] = ofElements (es ++ [e]) from rfl, hbefore,
      join_relative (isAbsolute_of_not_mem hlast), ofNames, ofNames,
      Text.joinWith_concat _ (by simp) last, ← ofNames, hstart, hends]
    simp [he.ne_nil]

theorem names_ofNames {es : List Text} (hes : ∀ e ∈ es, Byte.slash ∉ e) :
    names (ofNames es) = es.filter fun e => !e.isEmpty := by
  by_cases hempty : es = []
  · rw [hempty]
    rfl
  · rw [names, ofNames, Text.splitOn_joinWith hempty hes]

theorem ofNames_cons {e : Text} {es : List Text} (h : es ≠ []) :
    ofNames (e :: es) = e ++ Byte.slash :: ofNames es := by
  obtain ⟨next, rest, rfl⟩ := List.exists_cons_of_ne_nil h
  exact List.append_assoc ..

/-- No slash comes to stand first when the dots in front of such a row are dropped. -/
theorem isAbsolute_dropDots_ofNames {es : List Text} (hes : ∀ e ∈ es, IsPiece e) {last : Text}
    (hlast : Byte.slash ∉ last) :
    isAbsolute (Tool.dropDots (ofNames (es ++ [last]))) = false := by
  -- Dots at the start are dropped one by one; the first other name stays where it is.
  induction es with
  | nil =>
    have hplain : ¬Tool.StartsWithDot last := fun h => by
      obtain ⟨rest, rfl⟩ := Tool.exists_of_startsWithDot h
      simp at hlast
    exact (congrArg isAbsolute (Tool.dropDots_of_not_startsWithDot hplain)).trans
      (isAbsolute_of_not_mem hlast)
  | cons e es ih =>
    obtain ⟨he, hes⟩ := List.forall_mem_cons.mp hes
    rw [List.cons_append, ofNames_cons (by simp)]
    by_cases hdot : e = dot
    · rw [hdot, Tool.dropDots_dot_slash, ih hes]
    · have hplain : ¬Tool.StartsWithDot (e ++ Byte.slash :: ofNames (es ++ [last])) := fun h => by
        obtain ⟨rest, hrest⟩ := Tool.exists_of_startsWithDot h
        have hfirst := congrArg (Text.before Byte.slash) hrest
        rw [Text.before_append_cons he.noSlash, Text.before_append_cons (by decide)] at hfirst
        exact hdot hfirst
      rw [Tool.dropDots_of_not_startsWithDot hplain]
      obtain ⟨b, rest, rfl⟩ := List.exists_cons_of_ne_nil he.ne_nil
      exact he.isAbsolute

/-! ## Normal form -/

/-- Two stacks with the same names. -/
def Stack.Same (s t : Stack) : Prop := s.absolute = t.absolute ∧ s.names = t.names

theorem Stack.Same.push {s t : Stack} (h : s.Same t) (e : Text) : (s.push e).Same (t.push e) := by
  obtain ⟨absolute, names, slash⟩ := s
  obtain ⟨absolute', names', slash'⟩ := t
  obtain ⟨rfl, rfl⟩ : absolute = absolute' ∧ names = names' := h
  unfold Stack.push Stack.Same
  split
  · cases names with
    | nil => dsimp only; split <;> exact ⟨rfl, rfl⟩
    | cons top rest => dsimp only; split <;> exact ⟨rfl, rfl⟩
  · split <;> exact ⟨rfl, rfl⟩

/-- An element that leads nowhere. -/
theorem Stack.same_push {s : Stack} {e : Text} (h : e = [] ∨ e = dot) : (s.push e).Same s := by
  obtain rfl | rfl := h <;> exact ⟨rfl, rfl⟩

/-- Elements that lead nowhere may be left out. -/
theorem Stack.Same.foldl_push {s t : Stack} (h : s.Same t) (es : List Text) :
    (es.foldl Stack.push s).Same
      ((es.filter fun e => !e.isEmpty && e != dot).foldl Stack.push t) := by
  induction es generalizing s t with
  | nil => exact h
  | cons e es ih =>
    rw [List.foldl_cons, List.filter_cons]
    split
    · exact ih (h.push e)
    · next hstay =>
      have hnowhere : e = [] ∨ e = dot := by
        by_contra hne
        simp_all
      have hsame := Stack.same_push (s := s) hnowhere
      exact ih ⟨hsame.1.trans h.1, hsame.2.trans h.2⟩

@[simp]
theorem Stack.absolute_push (s : Stack) (e : Text) : (s.push e).absolute = s.absolute := by
  unfold Stack.push
  repeat' split
  all_goals rfl

theorem Stack.absolute_foldl_push (s : Stack) (es : List Text) :
    (es.foldl Stack.push s).absolute = s.absolute := by
  induction es generalizing s with
  | nil => rfl
  | cons e es ih => rw [List.foldl_cons, ih, absolute_push]

theorem names_stackText {s : Stack} (h : s.absolute = true) :
    names s.text = names (ofNames s.names.reverse) := by
  have hroot (inner : Text) : names (Byte.slash :: inner) = names inner :=
    names_append_slash [] inner
  have hend (inner : Text) : names (inner ++ [Byte.slash]) = names inner := by
    rw [names_append_slash]
    exact List.append_nil _
  rw [Stack.text, if_pos h, hroot]
  split
  · exact hend _
  · rw [List.append_nil]
    rfl

theorem slash_not_mem_of_mem_names {path name : Text} (h : name ∈ names path) :
    Byte.slash ∉ name :=
  fun hslash => (Text.mem_of_mem_splitOn (List.mem_filter.mp h).1 hslash).2 rfl

theorem isPiece_of_mem_names {path name : Text} (h : name ∈ names path) : IsPiece name :=
  ⟨ne_nil_of_mem_names h, slash_not_mem_of_mem_names h⟩

/-- Where an absolute path leads depends only on its components. -/
theorem names_normal {path : Text} (habsolute : isAbsolute path) :
    names (normal path) =
      names (ofNames ((components path).foldl Stack.push ⟨true, [], false⟩).names.reverse) := by
  have hnonempty : path.isEmpty = false := by
    obtain ⟨rest, rfl⟩ := exists_slash_of_isAbsolute habsolute
    rfl
  -- Only the root is a slash, so the filter drops nothing else.
  have hinner : (elements path).filter (fun e => e != [Byte.slash]) = names path ++ tail path := by
    rw [elements_of_isAbsolute habsolute, List.filter_cons_of_neg (by simp), List.filter_eq_self]
    intro e he
    rw [bne_iff_ne]
    rintro rfl
    obtain he | he := List.mem_append.mp he
    · exact slash_not_mem_of_mem_names he (by simp)
    · obtain htail | htail := tail_eq path <;> rw [htail] at he <;> simp at he
  have hcomponents : (names path ++ tail path).filter (fun e => !e.isEmpty && e != dot) =
      components path := by
    have htail : (tail path).filter (fun e => !e.isEmpty && e != dot) = [] := by
      obtain h | h := tail_eq path <;> rw [h] <;> rfl
    rw [List.filter_append, htail, List.append_nil, components]
    refine List.filter_congr fun e he => ?_
    simp [ne_nil_of_mem_names he]
  have hsame := Stack.Same.foldl_push (s := ⟨true, [], false⟩) ⟨rfl, rfl⟩ (names path ++ tail path)
  rw [hcomponents] at hsame
  rw [normal, hnonempty, if_neg Bool.false_ne_true]
  dsimp only
  rw [hinner, habsolute, names_stackText (Stack.absolute_foldl_push _ _), hsame.2]

theorem names_normal_congr {path other : Text} (hpath : isAbsolute path) (hother : isAbsolute other)
    (h : components path = components other) : names (normal path) = names (normal other) := by
  rw [names_normal hpath, names_normal hother, h]

end Path

/-! ## What is shown -/

namespace Tool

variable {fs : FileSystem} {root path : Text} {ns more : List Text}

theorem reportPath_ne_nil (fs : FileSystem) (root path : Text) : reportPath fs root path ≠ [] := by
  rw [reportPath]
  split
  · exact List.cons_ne_nil _ _
  · next h => simpa using h

theorem not_startsWithDot_reportPath (fs : FileSystem) (root path : Text) :
    ¬StartsWithDot (reportPath fs root path) := by
  rw [reportPath]
  split
  · exact (by decide : ¬"./".ascii.isPrefixOf dot = true)
  · exact not_startsWithDot_dropDots _

theorem components_reportPath (fs : FileSystem) (root path : Text) :
    components (reportPath fs root path) = components (belowRoot fs root path) := by
  rw [reportPath, ← components_dropDots (belowRoot fs root path)]
  split
  · next h => rw [List.isEmpty_iff.mp h]; rfl
  · rfl

theorem isAbsolute_reportPath (fs : FileSystem) (root path : Text) :
    isAbsolute (reportPath fs root path) ↔
      isAbsolute (belowRoot fs root path) ∨ HidesSlash (belowRoot fs root path) := by
  rw [reportPath, ← isAbsolute_dropDots]
  split
  · next h => rw [List.isEmpty_iff.mp h]; exact iff_of_false (by decide) (by decide)
  · rfl

theorem belowRoot_relative (h : isAbsolute path = false) : belowRoot fs root path = path := by
  rw [belowRoot, h, if_neg Bool.false_ne_true]

/-- A shown path that is relative is shown as it stands. -/
theorem reportPath_of_plain (h : isAbsolute path = false) (hdots : ¬StartsWithDot path)
    (hne : path ≠ []) : reportPath fs root path = path := by
  rw [reportPath, belowRoot_relative h, dropDots_of_not_startsWithDot hdots, if_neg (by simpa)]

/-- The path is written as one below the directory, and its first name behind that does not lead
up. -/
def Enters (ns more : List Text) (path : Text) : Prop :=
  names path = ns ++ more ∧ more.head? ≠ some dotDot

theorem Enters.isPiece (h : Enters ns more path) : ∀ e ∈ more, IsPiece e := fun e he => by
  have hmem : e ∈ names path := by rw [h.1]; exact List.mem_append_right _ he
  exact isPiece_of_mem_names hmem

/-- The way down to such a path is a row of names, and maybe a slash. -/
theorem Enters.exists_way (h : Enters ns more path) : ∃ es last, (∀ e ∈ es, IsPiece e) ∧
    Byte.slash ∉ last ∧ (if more = [] then [dot] else more ++ tail path) = es ++ [last] := by
  have hpieces := h.isPiece
  split
  · exact ⟨[], dot, by simp, by decide, rfl⟩
  · next hmore =>
    obtain htail | htail := tail_eq path <;> rw [htail]
    · obtain ⟨es, last, rfl⟩ := (List.eq_nil_or_concat more).resolve_left hmore
      rw [List.concat_eq_append] at hpieces ⊢
      exact ⟨es, last, fun e he => hpieces e (List.mem_append_left _ he),
        (hpieces last (by simp)).noSlash, List.append_nil _⟩
    · exact ⟨more, [], hpieces, by simp, rfl⟩

theorem Enters.components_way (h : Enters ns more path) :
    components (ofNames (if more = [] then [dot] else more ++ tail path)) =
      more.filter (· != dot) := by
  have hpieces := h.isPiece
  split
  · next hmore => rw [hmore]; decide
  · have hall : more.filter (fun e => !e.isEmpty) = more :=
      List.filter_eq_self.mpr fun e he => by simp [(hpieces e he).ne_nil]
    have hslash : ∀ e ∈ more ++ tail path, Byte.slash ∉ e := by
      intro e he
      obtain he | he := List.mem_append.mp he
      · exact (hpieces e he).noSlash
      · obtain htail | htail := tail_eq path <;> rw [htail] at he <;> simp at he
        simp [he]
    have htail : (tail path).filter (fun e => !e.isEmpty) = [] := by
      obtain htail | htail := tail_eq path <;> rw [htail] <;> rfl
    rw [components, names_ofNames hslash, List.filter_append, hall, htail, List.append_nil]

section Absolute

variable (hbase : fs.canonical root = .ok (FileSystem.absoluteText ns)) (hs : AreNames ns)
  (habsolute : isAbsolute path)

include hbase hs habsolute

theorem belowRoot_of_enters (h : Enters ns more path) : ∃ es last, (∀ e ∈ es, IsPiece e) ∧
    Byte.slash ∉ last ∧ belowRoot fs root path = ofNames (es ++ [last]) ∧
      components (ofNames (es ++ [last])) = more.filter (· != dot) := by
  obtain ⟨es, last, hes, hlast, hway⟩ := h.exists_way
  refine ⟨es, last, hes, hlast, ?_, hway ▸ h.components_way⟩
  have hdown : (es ++ [last]).head? ≠ some dotDot := by
    rw [← hway]
    split
    · decide
    · next hmore => rw [List.head?_append_of_ne_nil _ hmore]; exact h.2
  rw [belowRoot, if_pos habsolute, hbase]
  dsimp only
  rw [hs.relativeElements_below habsolute h.1, hway, ← ofElements_concat hes hlast]
  obtain ⟨first, rest, hfirst⟩ := List.exists_cons_of_ne_nil (List.concat_ne_nil last es)
  rw [hfirst] at hdown ⊢
  exact if_neg (by simpa using hdown)

theorem belowRoot_of_not_enters (h : ∀ more, ¬Enters ns more path) :
    belowRoot fs root path = path := by
  have hup : (relativeElements path (FileSystem.absoluteText ns)).head? = some dotDot := by
    by_cases hbelow : ns <+: names path
    · obtain ⟨more, hmore⟩ := hbelow
      have hhead : more.head? = some dotDot := not_not.mp fun hne => h more ⟨hmore.symm, hne⟩
      have hne : more ≠ [] := by
        rintro rfl
        cases hhead
      rw [hs.relativeElements_below habsolute hmore.symm, if_neg hne,
        List.head?_append_of_ne_nil _ hne, hhead]
    · exact hs.head?_relativeElements habsolute hbelow
  obtain ⟨rest, hrest⟩ := List.head?_eq_some_iff.mp hup
  rw [belowRoot, if_pos habsolute, hbase]
  dsimp only
  rw [hrest]
  exact if_pos rfl

/-- An absolute path is shown as a relative one just if it enters the directory. -/
theorem isAbsolute_reportPath_iff :
    isAbsolute (reportPath fs root path) = false ↔ ∃ more, Enters ns more path := by
  constructor
  · intro hrelative
    by_contra hnone
    have hsame := belowRoot_of_not_enters hbase hs habsolute fun more h => hnone ⟨more, h⟩
    have hshown := (isAbsolute_reportPath fs root path).mpr (.inl (by rw [hsame]; exact habsolute))
    rw [hrelative] at hshown
    cases hshown
  · rintro ⟨more, h⟩
    obtain ⟨es, last, hes, hlast, hbelow, -⟩ := belowRoot_of_enters hbase hs habsolute h
    rw [Bool.eq_false_iff, ne_eq, isAbsolute_reportPath, ← isAbsolute_dropDots, hbelow,
      isAbsolute_dropDots_ofNames hes hlast]
    exact Bool.false_ne_true

/-- A path that enters the directory keeps the location it has below it. -/
theorem names_normal_join (h : Enters ns more path) :
    names (normal (join (FileSystem.absoluteText ns) (reportPath fs root path))) =
      names (normal path) := by
  have hrelative := (isAbsolute_reportPath_iff hbase hs habsolute).mpr ⟨more, h⟩
  obtain ⟨es, last, -, -, hbelow, hcomponents⟩ := belowRoot_of_enters hbase hs habsolute h
  have hbaseAbsolute : isAbsolute (join (FileSystem.absoluteText ns) (reportPath fs root path)) :=
    isAbsolute_join_relative hrelative (List.cons_ne_nil _ _)
  refine names_normal_congr hbaseAbsolute habsolute ?_
  calc components (join (FileSystem.absoluteText ns) (reportPath fs root path))
      = components (FileSystem.absoluteText ns) ++ components (reportPath fs root path) :=
        components_join_relative hrelative
    _ = ns.filter (· != dot) ++ more.filter (· != dot) := by
        rw [components_reportPath, hbelow, hcomponents, components, hs.names_absoluteText]
    _ = components path := by rw [← List.filter_append, ← h.1, components]

end Absolute

/-! ## Paths that keep their meaning -/

/-- What reports show for a path means what the path means: `base` is where the root really is. -/
structure KeepsMeaning (fs : FileSystem) (root base path : Text) : Prop where
  ne_nil : reportPath fs root path ≠ []
  plain : ¬StartsWithDot (reportPath fs root path)
  stable : reportPath fs root (reportPath fs root path) = reportPath fs root path
  relative : isAbsolute path = false → isAbsolute (reportPath fs root path) = false ∧
    components (reportPath fs root path) = components path ∧
      (components path = [] → reportPath fs root path = dot)
  inside : isAbsolute path → isAbsolute (reportPath fs root path) = false →
    names base <+: names (normal path) ∧
      names (normal (join base (reportPath fs root path))) = names (normal path)

/-- An absolute path that enters the directory and leaves it again by two dots further behind. -/
def LeavesLater (base path : Text) : Prop :=
  isAbsolute path ∧ (∃ more, Enters (names base) more path) ∧ ¬names base <+: names (normal path)

/-- A relative path without a hidden slash keeps its components. -/
theorem reportPath_of_relative (h : isAbsolute path = false) (hhides : ¬HidesSlash path) :
    isAbsolute (reportPath fs root path) = false ∧
      components (reportPath fs root path) = components path ∧
        (components path = [] → reportPath fs root path = dot) := by
  have hrelative : isAbsolute (reportPath fs root path) = false := by
    rw [Bool.eq_false_iff, ne_eq, isAbsolute_reportPath, belowRoot_relative h, h]
    simpa using hhides
  have hcomponents : components (reportPath fs root path) = components path := by
    rw [components_reportPath, belowRoot_relative h]
  refine ⟨hrelative, hcomponents, fun hnone => ?_⟩
  exact (eq_nil_or_dot hrelative (not_startsWithDot_reportPath fs root path)
    (hcomponents.trans hnone)).resolve_left (reportPath_ne_nil fs root path)

theorem HidesSlash.isAbsolute_eq (h : HidesSlash path) : isAbsolute path = false := by
  obtain ⟨rest, rfl⟩ := exists_of_startsWithDot h.startsWithDot
  rfl

theorem reportPath_reportPath (hbase : fs.canonical root = .ok (FileSystem.absoluteText ns))
    (hs : AreNames ns) (hhides : ¬HidesSlash path) :
    reportPath fs root (reportPath fs root path) = reportPath fs root path := by
  by_cases hrelative : isAbsolute (reportPath fs root path) = false
  · exact reportPath_of_plain hrelative (not_startsWithDot_reportPath fs root path)
      (reportPath_ne_nil fs root path)
  · -- What is shown as an absolute path is the path itself.
    have habsolute : isAbsolute path := by
      by_contra h
      exact hrelative (reportPath_of_relative (by simpa using h) hhides).1
    have hsame : belowRoot fs root path = path := belowRoot_of_not_enters hbase hs habsolute
      fun more h => hrelative ((isAbsolute_reportPath_iff hbase hs habsolute).mpr ⟨more, h⟩)
    obtain ⟨rest, rfl⟩ := exists_slash_of_isAbsolute habsolute
    have hshown : reportPath fs root (Byte.slash :: rest) = Byte.slash :: rest := by
      rw [reportPath, hsame, dropDots_of_not_startsWithDot not_startsWithDot_slash]
      rfl
    rw [hshown, hshown]

theorem exists_canonical (hwell : fs.root.WellFormed) (hroot : fs.pathExists root) :
    ∃ ns, AreNames ns ∧ fs.canonical root = .ok (FileSystem.absoluteText ns) := by
  obtain ⟨n, hn⟩ : ∃ n, fs.node true root = .ok n := by
    rw [FileSystem.pathExists] at hroot
    cases h : fs.node true root with
    | ok n => exact ⟨n, rfl⟩
    | error e => simp [h, Except.isOk, Except.toBool] at hroot
  obtain ⟨ns, hlocate⟩ := FileSystem.locate_of_node hn
  exact ⟨ns, hwell.areNames (FileSystem.nodeAt?_of_locate hlocate),
    FileSystem.canonical_of_locate hlocate⟩

/-- Every path keeps its meaning unless a slash comes to stand first when the dots in front are
dropped, or the path leaves the root later than at its first name below it. -/
theorem keepsMeaning_iff (hwell : fs.root.WellFormed) (hroot : fs.pathExists root) :
    ∃ base, fs.canonical root = .ok base ∧ ∀ path,
      KeepsMeaning fs root base path ↔ ¬HidesSlash path ∧ ¬LeavesLater base path := by
  obtain ⟨ns, hs, hbase⟩ := exists_canonical hwell hroot
  refine ⟨_, hbase, fun path => ?_⟩
  constructor
  · intro h
    refine ⟨fun hhides => ?_, fun ⟨habsolute, henters, houtside⟩ => ?_⟩
    · have hshown : isAbsolute (reportPath fs root path) :=
        (isAbsolute_reportPath fs root path).mpr
          (.inr (by rwa [belowRoot_relative hhides.isAbsolute_eq]))
      rw [(h.relative hhides.isAbsolute_eq).1] at hshown
      cases hshown
    · rw [hs.names_absoluteText] at henters
      exact houtside (h.inside habsolute
        ((isAbsolute_reportPath_iff hbase hs habsolute).mpr henters)).1
  · rintro ⟨hhides, hleaves⟩
    exact {
      ne_nil := reportPath_ne_nil fs root path
      plain := not_startsWithDot_reportPath fs root path
      stable := reportPath_reportPath hbase hs hhides
      relative := fun h => reportPath_of_relative h hhides
      inside := fun habsolute hrelative => by
        obtain ⟨more, h⟩ := (isAbsolute_reportPath_iff hbase hs habsolute).mp hrelative
        refine ⟨?_, names_normal_join hbase hs habsolute h⟩
        by_contra houtside
        exact hleaves ⟨habsolute, ⟨more, by rwa [hs.names_absoluteText]⟩, houtside⟩ }

/-- A directory, and a link to it. -/
def linkedRoot : FileSystem :=
  ⟨.directory [("w".ascii, .directory []), ("now".ascii, .link "/w".ascii)], []⟩

theorem linkedRoot_wellFormed : linkedRoot.root.WellFormed := by
  refine Node.wellFormed_directory (by unfold Node.UniqueNames; decide) ?_
  simp only [List.forall_mem_cons]
  exact ⟨⟨by decide, Node.wellFormed_directory List.nodup_nil (by simp)⟩,
    ⟨by decide, Node.wellFormed_leaf (by simp)⟩, List.forall_mem_nil _⟩

theorem keepsMeaning_linkedRoot :
    KeepsMeaning linkedRoot "now".ascii "/w".ascii "/w//lib/../a.py".ascii := by
  obtain ⟨base, hbase, hkeeps⟩ := keepsMeaning_iff linkedRoot_wellFormed
    (show linkedRoot.pathExists "now".ascii = true by cbv)
  obtain rfl : "/w".ascii = base := by
    have hcanonical : linkedRoot.canonical "now".ascii = .ok "/w".ascii := by cbv
    exact Except.ok.inj (hcanonical.symm.trans hbase)
  refine (hkeeps _).mpr ⟨fun hhides => ?_, fun hleaves => ?_⟩
  · exact absurd hhides.startsWithDot (by unfold StartsWithDot; decide)
  · exact hleaves.2.2 (by decide)

/-- A slash that is hidden behind a dot, and a path that leaves the root at its second name. -/
theorem not_keepsMeaning_linkedRoot :
    (linkedRoot.pathExists "now".ascii ∧ linkedRoot.canonical "now".ascii = .ok "/w".ascii) ∧
    reportPath linkedRoot "now".ascii ".//etc/x".ascii = "/etc/x".ascii ∧
    ¬KeepsMeaning linkedRoot "now".ascii "/w".ascii ".//etc/x".ascii ∧
    reportPath linkedRoot "now".ascii "/w/a/../../etc/x".ascii = "a/../../etc/x".ascii ∧
    ¬KeepsMeaning linkedRoot "now".ascii "/w".ascii "/w/a/../../etc/x".ascii := by
  have hdots : reportPath linkedRoot "now".ascii ".//etc/x".ascii = "/etc/x".ascii := by cbv
  have hleaves : reportPath linkedRoot "now".ascii "/w/a/../../etc/x".ascii =
      "a/../../etc/x".ascii := by cbv
  refine ⟨⟨by cbv, by cbv⟩, hdots, fun h => ?_, hleaves, fun h => ?_⟩
  · have hrelative := (h.relative rfl).1
    rw [hdots] at hrelative
    cases hrelative
  · have hinside := (h.inside rfl (by rw [hleaves]; rfl)).1
    exact absurd hinside (by decide)

end Tool

end Triage
