import Triage.Regex.Syntax

/-!
Matching by backtracking.

A `View` is a stretch of a line together with what the search may assume about its two ends. A
`Place` is a position in it: the byte before, the bytes ahead, what the groups hold and how often
each loop was entered here. `Regex.run` tries the ways in which an expression can accept text from
a place, in order of preference, and hands each to what follows until one succeeds.
-/

namespace Triage

/-- What the search may assume about the stretch of text it looks at. -/
structure View where
  /-- A byte of the same line stands before the stretch. -/
  continued : Bool
  /-- The line goes on after the stretch, so its end is no end of line. -/
  cutShort : Bool
  deriving DecidableEq, Repr

/-- What a group accepted: so many bytes of a text. -/
structure Capture where
  start : Text
  size : Nat
  deriving DecidableEq, Repr

def Capture.text (c : Capture) : Text := c.start.take c.size

/-- Whether what the group accepted stands ahead again. -/
def Capture.recurs (c : Capture) (ignoreCase : Bool) (ahead : Text) : Bool :=
  let found := ahead.take c.size
  if ignoreCase then Text.toLower c.text == Text.toLower found else c.text == found

/-- A position during a match. -/
structure Place where
  /-- The byte before, if there is one that may be looked at. -/
  previous : Option UInt8
  ahead : Text
  /-- The number of bytes accepted so far. -/
  accepted : Nat
  captures : List (Nat × Capture)
  /-- How often each loop was entered since the last byte was accepted. -/
  entered : List (Nat × Nat)
  deriving DecidableEq, Repr

namespace Place

def advance (p : Place) (b : UInt8) (rest : Text) : Place :=
  { p with previous := some b, ahead := rest, accepted := p.accepted + 1, entered := [] }

def advanceBy (p : Place) : Nat → Place
  | 0 => p
  | n + 1 =>
    match p.ahead with
    | [] => p
    | b :: rest => (p.advance b rest).advanceBy n

/-- How often the loop was entered at this place. -/
def entries (p : Place) (loop : Nat) : Nat := (p.entered.lookup loop).getD 0

def enter (p : Place) (loop : Nat) : Place :=
  { p with entered := (loop, p.entries loop + 1) :: p.entered }

/-- The place, remembering what group `index` accepted since `start`. -/
def capture (p start : Place) (index : Nat) : Place :=
  { p with captures := (index, ⟨start.ahead, p.accepted - start.accepted⟩) :: p.captures }

/-- The place as a lookahead sees it: what stands before it can be looked at only if the stretch
goes on before its start. -/
def inside (p : Place) (v : View) : Place :=
  { p with previous := if v.continued then p.previous else none, entered := [] }

/-- Whether a word byte stands before and none after, or the other way round. -/
def atWordEdge (p : Place) : Bool :=
  let isWord := fun (b : Option UInt8) => b.any ByteClass.word.mem
  isWord p.previous != isWord p.ahead.head?

end Place

namespace Regex

/-- Tries `first`, and `second` only if that fails. -/
def either {α : Type} (first second : Unit → Option α) : Option α :=
  match first () with
  | some a => some a
  | none => second ()

/-- Up to `fuel` rounds of a loop. A round starts only if fewer than two started at this place. -/
def runLoop {α : Type} (body : Place → (Place → Option α) → Option α) (loop : Nat) (greedy : Bool) :
    Nat → Place → (Place → Option α) → Option α
  | 0, p, next => next p
  | fuel + 1, p, next =>
    let again := fun (_ : Unit) =>
      if p.entries loop < 2 then
        body (p.enter loop) fun q => runLoop body loop greedy fuel q next
      else none
    let leave := fun (_ : Unit) => next p
    if greedy then either again leave else either leave again

/-- The first way of accepting text from a place with which `next` succeeds. -/
def run (v : View) : Regex → Place → (Place → Option Place) → Option Place
  | empty, p, next => next p
  | byte set, p, next =>
    match p.ahead with
    | [] => none
    | b :: rest => if set.mem b then next (p.advance b rest) else none
  | lineStart, p, next => if p.previous.isNone then next p else none
  | lineEnd, p, next => if p.ahead.isEmpty && !v.cutShort then next p else none
  | wordEdge negated, p, next => if p.atWordEdge != negated then next p else none
  | seq a b, p, next => run v a p fun q => run v b q next
  | alt a b, p, next => either (fun _ => run v a p next) (fun _ => run v b p next)
  | group i r, p, next => run v r p fun q => next (q.capture p i)
  | backref i ignoreCase, p, next =>
    match p.captures.lookup i with
    | none => none
    | some c => if c.recurs ignoreCase p.ahead then next (p.advanceBy c.size) else none
  | opt loop greedy r, p, next =>
    let once := fun (_ : Unit) => if p.entries loop < 2 then run v r (p.enter loop) next else none
    let skip := fun (_ : Unit) => next p
    if greedy then either once skip else either skip once
  | star loop greedy r, p, next =>
    -- a loop may run twice without moving on
    runLoop (run v r) loop greedy (2 * p.ahead.length + 2) p next
  | look negated r, p, next =>
    match run v r (p.inside v) some with
    | some q => if negated then none else next { p with captures := q.captures }
    | none => if negated then next p else none

/-- Matches from one place: where the first accepted text ends. -/
def matchAt (r : Regex) (v : View) (previous : Option UInt8) (ahead : Text) : Option Place :=
  r.run v ⟨previous, ahead, 0, [], []⟩ some

/-- The first offset, counted from `offset`, at which the expression matches. After the first byte
every place has a byte of the line before it. -/
def searchFrom (r : Regex) (v : View) (previous : Option UInt8) (offset : Nat) : Text → Option Nat
  | [] => if (r.matchAt v previous []).isSome then some offset else none
  | b :: rest =>
    if (r.matchAt v previous (b :: rest)).isSome then some offset
    else searchFrom r { v with continued := true } (some b) (offset + 1) rest

/-- Leftmost search in a stretch of text: `previous` is the byte before it on the same line, and
`cutShort` says that the line goes on after it. -/
def search (r : Regex) (previous : Option UInt8) (cutShort : Bool) (stretch : Text) : Option Nat :=
  r.searchFrom ⟨previous.isSome, cutShort⟩ previous 0 stretch

/-- Whether the expression accepts the whole of a text. -/
def acceptsWhole (r : Regex) (text : Text) : Bool :=
  (r.run ⟨false, false⟩ ⟨none, text, 0, [], []⟩ fun p =>
    if p.ahead.isEmpty then some p else none).isSome

/-- Whether the expression matches somewhere in a whole line. -/
def occursIn (r : Regex) (line : Text) : Bool := (r.search none false line).isSome

end Regex

end Triage
