import Mathlib.Data.List.Basic
import Triage.Subprocess

/-!
What is captured of an output does not depend on how it is read.

A program writes a stream of bytes, and the capturing loop meets it in chunks of any size that the
buffer holds, with turns in between in which nothing is read (`Reads`). Up to any turn the loop has
kept the first bytes of what it has read, as many as the limit allows, and knows whether there were
more (`Keeps`); a chunk preserves that, whether or not the limit falls into it (`Keeps.add`).
-/

namespace Triage

namespace CapturedOutput

/-! ## Reading a stream -/

/-- The loop can meet these turns while it reads the stream: chunks are taken from its front, the
end of the file comes when nothing is left of it, and the loop may be stopped at any time. -/
inductive Reads : (stream : Text) → List CaptureTurn → Prop where
  | pending (stream : Text) : Reads stream []
  | late (stream : Text) (rest : List CaptureTurn) : Reads stream (.late :: rest)
  | unreadable (stream : Text) (rest : List CaptureTurn) : Reads stream (.unreadable :: rest)
  | idle {stream : Text} {rest : List CaptureTurn} (h : Reads stream rest) :
    Reads stream (.idle :: rest)
  | chunk {bytes left : Text} {rest : List CaptureTurn} (hne : bytes ≠ [])
    (hsize : bytes.length ≤ bufferSize) (h : Reads left rest) :
    Reads (bytes ++ left) (.chunk bytes :: rest)
  | endOfFile (rest : List CaptureTurn) : Reads [] (.endOfFile :: rest)

/-- A way of cutting a stream into chunks that can be read. -/
structure Cuts (stream : Text) (pieces : List Text) : Prop where
  flatten : pieces.flatten = stream
  size : ∀ piece ∈ pieces, piece ≠ [] ∧ piece.length ≤ bufferSize

variable {limit : Nat} {stream : Text} {turns : List CaptureTurn} {pieces : List Text}

theorem Cuts.append {stream' : Text} {pieces' : List Text} (h : Cuts stream pieces)
    (h' : Cuts stream' pieces') : Cuts (stream ++ stream') (pieces ++ pieces') where
  flatten := by rw [List.flatten_append, h.flatten, h'.flatten]
  size piece hpiece := (List.mem_append.mp hpiece).elim (h.size piece) (h'.size piece)

/-- The chunks of a stream may be read one after the other, up to the end of the file or until the
loop is stopped. -/
theorem Cuts.reads (h : Cuts stream pieces) (hturns : Reads [] turns) :
    Reads stream (pieces.map .chunk ++ turns) := by
  obtain ⟨rfl, hsize⟩ := h
  induction pieces with
  | nil => exact hturns
  | cons piece pieces ih =>
    obtain ⟨hne, hlength⟩ := hsize piece List.mem_cons_self
    exact .chunk hne hlength (ih fun p hp => hsize p (.tail _ hp))

theorem capture_chunks (limit : Nat) (c : CapturedOutput) (pieces : List Text)
    (turns : List CaptureTurn) :
    c.capture limit (pieces.map .chunk ++ turns) =
      (pieces.foldl (add limit) c).capture limit turns := by
  induction pieces generalizing c with
  | nil => rfl
  | cons piece pieces ih => exact ih (c.add limit piece)

/-- What is written at once is read in chunks. -/
theorem cuts_chunks (written : Text) : Cuts written (chunks written) := by
  fun_induction chunks written with
  | case1 => exact ⟨rfl, fun _ h => nomatch h⟩
  | case2 b rest ih =>
    refine ⟨?_, fun piece hpiece => ?_⟩
    · rw [List.flatten_cons, ih.flatten, List.cons_append, List.take_append_drop]
    · rcases List.mem_cons.mp hpiece with rfl | hpiece
      · refine ⟨List.cons_ne_nil _ _, ?_⟩
        rw [List.length_cons, List.length_take]
        unfold bufferSize
        omega
      · exact ih.size piece hpiece

/-! ## The loop -/

/-- What was captured of a text: its beginning up to the limit, and whether there is more of it. -/
structure Keeps (limit : Nat) (seen : Text) (c : CapturedOutput) : Prop where
  output : c.output = seen.take limit
  truncated : c.truncated = decide (limit < seen.length)

theorem keeps_empty (limit : Nat) : Keeps limit [] empty where
  output := List.take_nil.symm
  truncated := by simp [empty]

theorem room_eq (limit kept : Nat) : room limit kept = limit - kept := by
  unfold room
  split <;> omega

/-- Of a chunk all may fit, a part, or nothing. -/
theorem Keeps.add {seen : Text} {c : CapturedOutput} (h : Keeps limit seen c) (chunk : Text) :
    Keeps limit (seen ++ chunk) (c.add limit chunk) := by
  have hroom : room limit c.output.length = limit - seen.length := by
    rw [room_eq, h.output, List.length_take]
    omega
  constructor
  · show c.output ++ chunk.take (min chunk.length (room limit c.output.length)) = _
    rw [hroom, h.output, Nat.min_comm, ← List.take_eq_take_min, List.take_append]
  · show (c.truncated || decide (min chunk.length (room limit c.output.length) < chunk.length)) = _
    rw [hroom, h.truncated, List.length_append, ← Bool.decide_or, decide_eq_decide]
    omega

/-- Up to its end the loop keeps what belongs to what it has read, and it has read everything if it
came to the end of the file. -/
theorem Keeps.capture (h : Reads stream turns) : ∀ {seen : Text} {c : CapturedOutput},
    Keeps limit seen c → ∃ read, read <+: stream ∧
      Keeps limit (seen ++ read) (c.capture limit turns).1 ∧
      ((c.capture limit turns).2 = some .endOfFile → read = stream) := by
  induction h with
  | pending | late | unreadable =>
    intro seen c hc
    exact ⟨[], List.nil_prefix, by rwa [List.append_nil], fun hend => nomatch hend⟩
  | idle _ ih => exact ih
  | @chunk bytes left rest _ _ _ ih =>
    intro seen c hc
    obtain ⟨read, hread, hkeeps, hend⟩ := ih (hc.add bytes)
    refine ⟨bytes ++ read, (List.prefix_append_right_inj bytes).mpr hread, ?_, fun hstop => ?_⟩
    · rwa [← List.append_assoc]
    · rw [hend hstop]
  | endOfFile =>
    intro seen c hc
    exact ⟨[], List.nil_prefix, by rwa [List.append_nil], fun _ => rfl⟩

/-- **What is captured does not depend on how the output is read.** However a stream is cut into
chunks, and whatever happens between them, a loop that comes to the end of the file has kept the
first bytes of the stream, as many as the limit allows, and tells that the output is truncated if
and only if the stream is longer than the limit. A loop that is stopped before has kept the same of
what it has read. Every way of cutting the stream can bring the loop to the end of the file. -/
theorem capture_to_endOfFile (stream : Text) (limit : Nat) :
    (∀ turns, Reads stream turns →
      let (c, stop) := empty.capture limit turns
      (stop = some .endOfFile →
        c.output = stream.take (min limit stream.length) ∧
        (c.truncated ↔ limit < stream.length)) ∧
      ∃ read, read <+: stream ∧ c.output = read.take (min limit read.length) ∧
        (c.truncated ↔ limit < read.length)) ∧
    ∀ pieces, Cuts stream pieces →
      Reads stream (pieces.map .chunk ++ [.endOfFile]) ∧
      (empty.capture limit (pieces.map .chunk ++ [.endOfFile])).2 = some .endOfFile := by
  refine ⟨fun turns h => ?_, fun pieces h => ⟨h.reads (.endOfFile []), ?_⟩⟩
  · obtain ⟨read, hread, hkeeps, hend⟩ := Keeps.capture h (keeps_empty limit)
    rw [List.nil_append] at hkeeps
    have houtput : (empty.capture limit turns).1.output = read.take (min limit read.length) := by
      rw [hkeeps.output, ← List.take_eq_take_min]
    have htruncated : (empty.capture limit turns).1.truncated ↔ limit < read.length := by
      rw [hkeeps.truncated, decide_eq_true_iff]
    refine ⟨fun hstop => ?_, read, hread, houtput, htruncated⟩
    obtain rfl := hend hstop
    exact ⟨houtput, htruncated⟩
  · rw [capture_chunks]
    rfl

/-- The limit falls into the second chunk, and one turn comes too early. -/
theorem capture_to_endOfFile_limitInChunk :
    let turns : List CaptureTurn :=
      [.chunk "ab".ascii, .idle, .chunk "cdef".ascii, .chunk "g".ascii, .endOfFile]
    Reads "abcdefg".ascii turns ∧ (empty.capture 3 turns).2 = some .endOfFile ∧
      (empty.capture 3 turns).1.output = "abc".ascii ∧ (empty.capture 3 turns).1.truncated := by
  intro turns
  have hreads : Reads ("ab".ascii ++ ("cdef".ascii ++ ("g".ascii ++ []))) turns :=
    .chunk (by decide) (by decide) (.idle (.chunk (by decide) (by decide)
      (.chunk (by decide) (by decide) (.endOfFile []))))
  have hstop : (empty.capture 3 turns).2 = some .endOfFile := by decide
  obtain ⟨houtput, htruncated⟩ := ((capture_to_endOfFile _ 3).1 turns hreads).1 hstop
  exact ⟨hreads, hstop, houtput, htruncated.mpr (by decide)⟩

end CapturedOutput

/-! ## Programs -/

namespace Subprocess

open CapturedOutput

variable {options : ProcessOptions} {e : Execution}

theorem cuts_written (options : ProcessOptions) (e : Execution) :
    Cuts (written options e).flatten ((written options e).flatMap chunks) := by
  induction written options e with
  | nil => exact ⟨rfl, fun _ h => nomatch h⟩
  | cons text texts ih => exact (cuts_chunks text).append ih

/-- A program that ends in time leaves the beginning of what it has written. -/
theorem output_observe (h : (observe options e).ending ≠ .timedOut) :
    (observe options e).output = (written options e).flatten.take options.maxOutput ∧
      ((observe options e).truncated ↔ options.maxOutput < (written options e).flatten.length) := by
  have hcuts := cuts_written options e
  have hstop : (empty.capture options.maxOutput (turns options e)).2 = some .endOfFile := by
    rw [turns, capture_chunks]
    by_cases hlate : options.timeout ≤ e.seconds
    · refine absurd ?_ h
      simp [observe, turns, capture_chunks, hlate, capture]
    · rw [if_neg hlate]
      rfl
  have hreads : Reads (written options e).flatten (turns options e) := by
    refine hcuts.reads ?_
    split
    · exact .late [] []
    · exact .endOfFile []
  obtain ⟨read, -, hkeeps, hend⟩ := Keeps.capture hreads (keeps_empty options.maxOutput)
  obtain rfl := hend hstop
  refine ⟨hkeeps.output, ?_⟩
  show (empty.capture options.maxOutput (turns options e)).1.truncated = true ↔ _
  rw [hkeeps.truncated, decide_eq_true_iff, List.nil_append]

end Subprocess

end Triage
