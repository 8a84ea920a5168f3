import Triage.Proofs.Text

/-!
The lines of a text and their numbers.

A line begins at the start of the text or behind a line feed, and goes up to the next line feed or
to the end of the text; at the end there is a line only if something is left for it (`IsLine`). Its
number is one more than the line feeds above it. Whoever goes through a text line by line, with a
cursor that looks for the next line feed (`cursorLines`) or by taking lines off the front
(`readLines`), comes by these lines with these numbers (`numbers_numbered`).
-/

namespace Triage

namespace Text

open Byte (lineFeed carriageReturn)

/-! ## One line after the other -/

theorem lines_of_not_mem {s : Text} (h : lineFeed ∉ s) (hs : s ≠ []) :
    lines s = [dropLastIf carriageReturn s] := by
  have hlast : (([s] : List Text).getLast? == some []) = false := by simpa using hs
  rw [lines, pieces, splitOn_of_not_mem h, hlast]
  rfl

theorem lines_append_cons {body : Text} (h : lineFeed ∉ body) (rest : Text) :
    lines (body ++ lineFeed :: rest) = dropLastIf carriageReturn body :: lines rest := by
  rw [lines, pieces_append, splitOn_of_not_mem h]
  rfl

/-- Induction on the lines of a text: it is empty, or its last line without a line feed, or it
begins with a line. -/
theorem line_induction {motive : Text → Prop} (nil : motive [])
    (last : ∀ s, lineFeed ∉ s → s ≠ [] → motive s)
    (line : ∀ body rest, lineFeed ∉ body → motive rest → motive (body ++ lineFeed :: rest))
    (s : Text) : motive s := by
  induction hn : s.length using Nat.strongRecOn generalizing s with
  | _ n ih =>
    by_cases hs : s = []
    · exact hs ▸ nil
    by_cases hmem : lineFeed ∈ s
    · obtain ⟨body, rest, rfl, hbody⟩ := List.eq_append_cons_of_mem hmem
      refine line body rest hbody (ih rest.length ?_ rest rfl)
      rw [← hn, List.length_append, List.length_cons]
      omega
    · exact last s hmem hs

/-- A line begins behind the text. -/
def EndsLine (s : Text) : Prop := s = [] ∨ s.getLast? = some lineFeed

theorem EndsLine.of_cons {body rest : Text} (h : EndsLine (body ++ lineFeed :: rest)) :
    EndsLine rest := by
  cases rest with
  | nil => exact .inl rfl
  | cons b rest =>
    refine .inr ?_
    rcases h with h | h
    · simp at h
    · simpa [List.getLast?_append] using h

theorem EndsLine.eq_nil {s : Text} (h : EndsLine s) (hs : lineFeed ∉ s) : s = [] :=
  h.resolve_right fun hlast => hs (List.mem_of_getLast? hlast)

/-- The lines of two texts, of which the second begins a line. -/
theorem lines_append {a : Text} (ha : EndsLine a) (b : Text) :
    lines (a ++ b) = lines a ++ lines b := by
  induction a using line_induction with
  | nil => rfl
  | last s hs hne => exact absurd (ha.eq_nil hs) hne
  | line body rest hbody ih =>
    rw [List.append_assoc, List.cons_append, lines_append_cons hbody, lines_append_cons hbody,
      ih ha.of_cons, List.cons_append]

theorem length_lines {a : Text} (ha : EndsLine a) : (lines a).length = a.count lineFeed := by
  induction a using line_induction with
  | nil => rfl
  | last s hs hne => exact absurd (ha.eq_nil hs) hne
  | line body rest hbody ih =>
    rw [lines_append_cons hbody, List.length_cons, ih ha.of_cons, List.count_append,
      List.count_cons_self, List.count_eq_zero_of_not_mem hbody, Nat.zero_add]

/-! ## Numbers of lines -/

/-- The lines of a text, each with its number. -/
def numbered (s : Text) : List (Text × Nat) := (lines s).zipIdx 1

/-- What line number `number` of the text is: it stands behind one line feed less than that, up to
the next line feed or the end of the text, where it is not empty; a carriage return at its end does
not belong to it. -/
def IsLine (s : Text) (number : Nat) (line : Text) : Prop :=
  ∃ above body below, s = above ++ (body ++ below) ∧ EndsLine above ∧ lineFeed ∉ body ∧
    (below.head? = some lineFeed ∨ below = [] ∧ body ≠ []) ∧
    number = above.count lineFeed + 1 ∧ line = dropLastIf carriageReturn body

/-- The pairs are the lines of the text in their order, each once and with its number. -/
structure Numbers (s : Text) (pairs : List (Text × Nat)) : Prop where
  consecutive : pairs.map Prod.snd = List.range' 1 pairs.length
  mem_iff : ∀ line number, (line, number) ∈ pairs ↔ IsLine s number line

theorem isLine_of_getElem? {s line : Text} {i : Nat} (h : (lines s)[i]? = some line) :
    IsLine s (i + 1) line := by
  -- line by line; each line above adds one line feed to those before
  induction s using line_induction generalizing i with
  | nil => simp [lines, pieces, splitOn] at h
  | last s hs hne =>
    rw [lines_of_not_mem hs hne, List.getElem?_singleton] at h
    split at h
    · next hi =>
      obtain rfl := Option.some.inj h
      exact ⟨[], s, [], by simp, .inl rfl, hs, .inr ⟨rfl, hne⟩, by simp [hi], rfl⟩
    · contradiction
  | line body rest hbody ih =>
    rw [lines_append_cons hbody] at h
    cases i with
    | zero =>
      obtain rfl := Option.some.inj h
      exact ⟨[], body, lineFeed :: rest, rfl, .inl rfl, hbody, .inl rfl, rfl, rfl⟩
    | succ i =>
      obtain ⟨above, inner, below, rfl, habove, hinner, hbelow, hnumber, hline⟩ := ih h
      refine ⟨body ++ lineFeed :: above, inner, below, by simp, ?_, hinner, hbelow, ?_, hline⟩
      · rcases habove with rfl | habove
        · exact .inr (by simp)
        · exact .inr (by simp [List.getLast?_append, List.getLast?_cons, habove])
      · rw [List.count_append, List.count_cons_self, List.count_eq_zero_of_not_mem hbody]
        omega

theorem IsLine.getElem? {s line : Text} {number : Nat} (h : IsLine s number line) :
    ∃ i, number = i + 1 ∧ (lines s)[i]? = some line := by
  obtain ⟨above, body, below, rfl, habove, hbody, hbelow, hnumber, rfl⟩ := h
  have hfirst : ∃ later, lines (body ++ below) = dropLastIf carriageReturn body :: later := by
    rcases hbelow with hbelow | ⟨rfl, hne⟩
    · obtain ⟨rest, rfl⟩ := List.head?_eq_some_iff.mp hbelow
      exact ⟨_, lines_append_cons hbody rest⟩
    · exact ⟨[], by rw [List.append_nil, lines_of_not_mem hbody hne]⟩
  obtain ⟨later, hlater⟩ := hfirst
  refine ⟨_, hnumber, ?_⟩
  rw [lines_append habove, hlater, ← length_lines habove,
    List.getElem?_append_right (Nat.le_refl _), Nat.sub_self]
  rfl

theorem numbers_numbered (s : Text) : Numbers s (numbered s) where
  consecutive := by rw [numbered, List.zipIdx_map_snd, List.length_zipIdx]
  mem_iff line number := by
    rw [numbered, List.mem_zipIdx_iff_le_and_getElem?_sub]
    constructor
    · rintro ⟨hle, hget⟩
      have h := isLine_of_getElem? hget
      rwa [Nat.sub_add_cancel hle] at h
    · intro h
      obtain ⟨i, rfl, hget⟩ := h.getElem?
      exact ⟨Nat.le_add_left 1 i, hget⟩

/-! ## Going through a text -/

theorem findFrom_of_not_mem {b : UInt8} {s : Text} (h : b ∉ s) (start : Nat) :
    findFrom [b] start s = none := by
  induction s generalizing start with
  | nil => rfl
  | cons c s ih =>
    obtain ⟨hc, hs⟩ := not_or.mp fun hmem => h (List.mem_cons.mpr hmem)
    rw [findFrom, if_neg (by simpa using hc), ih hs]

theorem findFrom_append_cons {b : UInt8} {body : Text} (h : b ∉ body) (start : Nat) (rest : Text) :
    findFrom [b] start (body ++ b :: rest) = some (start + body.length) := by
  induction body generalizing start with
  | nil => simp [findFrom]
  | cons c body ih =>
    obtain ⟨hc, hbody⟩ := not_or.mp fun hmem => h (List.mem_cons.mpr hmem)
    rw [List.cons_append, findFrom, if_neg (by simpa using hc), ih hbody, List.length_cons,
      Nat.add_right_comm, Nat.add_assoc start]

/-- A byte that is found stands in what was searched, at its first place. -/
theorem exists_of_findFrom {b : UInt8} {s : Text} {start k : Nat}
    (h : findFrom [b] start s = some k) :
    ∃ body rest, s = body ++ b :: rest ∧ b ∉ body ∧ k = start + body.length := by
  by_cases hmem : b ∈ s
  · obtain ⟨body, rest, rfl, hbody⟩ := List.eq_append_cons_of_mem hmem
    rw [findFrom_append_cons hbody] at h
    exact ⟨body, rest, rfl, hbody, (Option.some.inj h).symm⟩
  · rw [findFrom_of_not_mem hmem] at h
    contradiction

/-- The lines from the offset `pos` on, by a cursor that looks for the next line feed: a line goes
up to it, and the last one to the end of the text, unless nothing is left there. -/
def cursorLines (s : Text) (number pos : Nat) : List (Text × Nat) :=
  match _h : findFrom [lineFeed] pos (s.drop pos) with
  | some feed =>
    (dropLastIf carriageReturn ((s.drop pos).take (feed - pos)), number) ::
      cursorLines s (number + 1) (feed + 1)
  | none =>
    if s.length ≤ pos then [] else [(dropLastIf carriageReturn (s.drop pos), number)]
termination_by s.length - pos
decreasing_by
  obtain ⟨body, rest, hs, -, rfl⟩ := exists_of_findFrom _h
  have hlength := congrArg List.length hs
  simp only [List.length_drop, List.length_append, List.length_cons] at hlength
  omega

theorem cursorLines_eq (s : Text) (number pos : Nat) :
    cursorLines s number pos = (lines (s.drop pos)).zipIdx number := by
  fun_induction cursorLines s number pos with
  | case1 number pos feed h ih =>
    obtain ⟨body, rest, hs, hbody, rfl⟩ := exists_of_findFrom h
    have hdrop : s.drop (pos + body.length + 1) = rest := by
      rw [Nat.add_assoc, ← List.drop_drop, hs]
      simp
    rw [ih, hdrop, hs, lines_append_cons hbody, List.zipIdx_cons]
    simp
  | case2 number pos h hle =>
    rw [List.drop_eq_nil_of_le hle]
    rfl
  | case3 number pos h hle =>
    -- Without a line feed ahead, the rest is one line.
    have hmem : lineFeed ∉ s.drop pos := by
      intro hmem
      obtain ⟨body, rest, hs, hbody⟩ := List.eq_append_cons_of_mem hmem
      rw [hs, findFrom_append_cons hbody] at h
      contradiction
    have hne : s.drop pos ≠ [] := by
      rw [Ne, List.drop_eq_nil_iff]
      exact hle
    rw [lines_of_not_mem hmem hne]
    rfl

theorem length_after_lt {s : Text} (h : s ≠ []) (sep : UInt8) :
    (after sep s).length < s.length := by
  have hle := (List.dropWhile_sublist (l := s) (· != sep)).length_le
  have hpos := List.length_pos_iff.mpr h
  rw [after, List.length_drop]
  omega

/-- The lines that a reader takes off the front, each up to the next line feed, as long as anything
is left. -/
def readLines (s : Text) : List Text :=
  if _h : s = [] then []
  else dropLastIf carriageReturn (before lineFeed s) :: readLines (after lineFeed s)
termination_by s.length
decreasing_by exact length_after_lt _h _

theorem readLines_eq (s : Text) : readLines s = lines s := by
  induction s using line_induction with
  | nil =>
    rw [readLines]
    rfl
  | last s hs hne =>
    rw [readLines, dif_neg hne, before_of_not_mem hs, after_of_not_mem hs, lines_of_not_mem hs hne,
      readLines]
    rfl
  | line body rest hbody ih =>
    rw [readLines, dif_neg (by simp), lines_append_cons hbody, before_append_cons hbody,
      after_append_cons hbody, ih]

end Text

end Triage
