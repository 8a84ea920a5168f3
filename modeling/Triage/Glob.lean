import Triage.Regex.Syntax

/-!
Shell globs over bytes.

`?` accepts one byte, `*` any number of them, a bracket expression one byte of a set, and a
backslash makes the next byte stand for itself. A glob is matched either as a name, where a slash
is a byte like any other, or as a path, where only a slash in the glob accepts a slash.

A bracket expression that is never closed is an ordinary `[`. One that closes is read only as far
as its answer needs: after the member that accepts the byte, only its end is looked for.
-/

namespace Triage

namespace Glob

/-- What a bracket expression has to offer for one byte. -/
inductive Bracket where
  /-- The whole glob fails. -/
  | mismatch
  /-- The expression is not closed, so its bracket stands for itself. -/
  | unclosed
  /-- A member accepts the byte; `rest` follows that member. -/
  | found (rest : Text)
  /-- No member accepts the byte; `rest` follows the expression. -/
  | absent (rest : Text)
  deriving DecidableEq, Repr

/-- The longest name of a class that is looked at. -/
def maxClassName : Nat := 2048

inductive ClassName where
  | named (name rest : Text)
  | notAName
  | tooLong
  deriving DecidableEq, Repr

/-- Reads a class name up to its closing `:]`; only the letters up to `y` occur in names. -/
def className (length : Nat) (nameSoFar : Text) : Text → ClassName
  | 58 :: 93 :: rest => if length == maxClassName then .tooLong else .named nameSoFar.reverse rest
  | b :: rest =>
    if length == maxClassName then .tooLong
    else if b < 97 || 122 ≤ b then .notAName
    else className (length + 1) (b :: nameSoFar) rest
  | [] => if length == maxClassName then .tooLong else .notAName

/-- Reads a collating symbol up to its closing `.]`. -/
def collating? (nameSoFar : Text) : Text → Option (Text × Text)
  | 46 :: 93 :: rest => some (nameSoFar.reverse, rest)
  | b :: rest => collating? (b :: nameSoFar) rest
  | [] => none

/-- The classes that a glob may name; unlike in expressions, case counts. -/
def classes : List (Text × ByteClass) := ByteClass.names.drop 3

/-- The end of a range after its dash: the byte and what follows it, or `none` if the glob fails. -/
def rangeEnd? : Text → Option (UInt8 × Text)
  | 91 :: 46 :: s =>
    match collating? [] s with
    | some ([b], rest) => some (b, rest)
    | _ => none
  | 92 :: b :: rest => some (b, rest)
  | 92 :: [] => none
  | b :: rest => some (b, rest)
  | [] => none

/-- Looks for a member that accepts `b`; `first` says that none has been read, so that a closing
bracket stands for itself. -/
def members (b : UInt8) : Nat → Bool → Text → Bracket
  | 0, _, _ => .mismatch
  | fuel + 1, first, s =>
    let afterItem := fun (lo : UInt8) (isRange : Bool) (rest : Text) =>
      if !isRange && lo == b then .found rest
      else match rest with
        | 45 :: 93 :: _ => members b fuel false rest
        | 45 :: rest =>
          match rangeEnd? rest with
          | none => .mismatch
          | some (hi, rest) =>
            if lo ≤ b && b ≤ hi then .found rest else members b fuel false rest
        | rest => members b fuel false rest
    let item := fun (lo : UInt8) (rest : Text) =>
      let isRange := match rest with
        | 45 :: c :: _ => c != 93
        | _ => false
      afterItem lo isRange rest
    match s with
    | [] => .unclosed
    | 93 :: rest => if first then item 93 rest else .absent rest
    | 92 :: [] => .mismatch
    | 92 :: c :: rest => item c rest
    | 91 :: 58 :: rest =>
      match className 0 [] rest with
      | .tooLong => .mismatch
      | .notAName => item 91 (58 :: rest)
      | .named name rest =>
        match classes.lookup name with
        | none => .mismatch
        | some c => if c.mem b then .found rest else members b fuel false rest
    | 91 :: 61 :: rest =>
      match rest with
      | c :: 61 :: 93 :: rest => if c == b then .found rest else members b fuel false rest
      | rest => item 91 (61 :: rest)
    | 91 :: 46 :: rest =>
      match collating? [] rest with
      | some ([c], rest) =>
        let isRange := match rest with
          | 45 :: _ :: _ => true
          | _ => false
        afterItem c isRange rest
      | _ => .mismatch
    | c :: rest => item c rest

/-- The end of a bracket expression of which a member has accepted the byte. -/
def skipMembers : Nat → Text → Bracket
  | 0, _ => .mismatch
  | fuel + 1, s =>
    match s with
    | [] => .unclosed
    | 93 :: rest => .found rest
    | 92 :: [] => .mismatch
    | 92 :: _ :: rest => skipMembers fuel rest
    | 91 :: 58 :: rest =>
      match className 1 [] rest with
      | .tooLong => .mismatch
      | .notAName => skipMembers fuel (58 :: rest)
      | .named _ rest => skipMembers fuel rest
    | 91 :: 61 :: rest =>
      match rest with
      | _ :: 61 :: 93 :: rest => skipMembers fuel rest
      | _ => .mismatch
    | 91 :: 46 :: rest =>
      match collating? [] rest with
      | some (_, rest) => skipMembers fuel rest
      | none => .mismatch
    | _ :: rest => skipMembers fuel rest

/-- A bracket expression, whose opening bracket has been read, for the byte `b`: `found` if it
accepts the byte, `absent` if it does not. -/
def bracket (b : UInt8) (s : Text) : Bracket :=
  let (negated, s) := match s with
    | 33 :: rest | 94 :: rest => (true, rest)
    | s => (false, s)
  match members b (s.length + 1) true s with
  | .found rest =>
    match skipMembers (rest.length + 1) rest with
    | .found rest => if negated then .absent rest else .found rest
    | other => other
  | .absent rest => if negated then .found rest else .absent rest
  | other => other

/-- How far a glob matches up to its next star. -/
inductive Progress where
  | mismatch
  /-- Glob and subject ended together. -/
  | finished
  /-- A star was reached: what follows it, and the subject left. -/
  | atStar (glob subject : Text)
  deriving DecidableEq, Repr

def segment (asPath : Bool) : Nat → Text → Text → Progress
  | 0, _, _ => .mismatch
  | fuel + 1, glob, subject =>
    match glob, subject with
    | [], [] => .finished
    | [], _ :: _ => .mismatch
    | 42 :: glob, subject => .atStar glob subject
    | _ :: _, [] => .mismatch
    | 63 :: glob, b :: subject =>
      if asPath && b == Byte.slash then .mismatch else segment asPath fuel glob subject
    | 92 :: [], _ :: _ => .mismatch
    | 92 :: c :: glob, b :: subject => if b == c then segment asPath fuel glob subject else .mismatch
    | 91 :: glob, b :: subject =>
      if asPath && b == Byte.slash then .mismatch
      else match bracket b glob with
        | .mismatch | .absent _ => .mismatch
        | .unclosed => if b == 91 then segment asPath fuel glob subject else .mismatch
        | .found glob => segment asPath fuel glob subject
    | c :: glob, b :: subject => if b == c then segment asPath fuel glob subject else .mismatch

/-- Takes further stars and question marks after a star; a question mark takes one byte. -/
def skipStars (asPath : Bool) : Text → Text → Option (Text × Text)
  | 42 :: glob, subject => skipStars asPath glob subject
  | 63 :: _, [] => none
  | 63 :: glob, b :: subject =>
    if asPath && b == Byte.slash then none else skipStars asPath glob subject
  | glob, subject => some (glob, subject)

/-- The first place at which the glob matches up to its next star, before any slash if `asPath`. -/
def firstPlace (asPath : Bool) (glob : Text) : Text → Progress
  | [] => .mismatch
  | b :: subject =>
    if asPath && b == Byte.slash then .mismatch
    else match segment asPath (glob.length + 1) glob (b :: subject) with
      | .mismatch => firstPlace asPath glob subject
      | progress => progress

/-- Matches a glob in at most `fuel` segments. -/
def matchSegments (asPath : Bool) : Nat → Progress → Bool
  | _, .mismatch => false
  | _, .finished => true
  | 0, .atStar .. => false
  | fuel + 1, .atStar glob subject =>
    match skipStars asPath glob subject with
    | none => false
    | some ([], subject) => !asPath || !subject.contains Byte.slash
    | some (47 :: glob, subject) =>
      if asPath then
        match subject.dropWhile (· != Byte.slash) with
        | [] => false
        | _ :: subject => matchSegments asPath fuel (segment asPath (glob.length + 1) glob subject)
      else matchSegments asPath fuel (firstPlace asPath (47 :: glob) subject)
    | some (glob, subject) => matchSegments asPath fuel (firstPlace asPath glob subject)

/-- Whether the glob accepts the whole subject. Both end at their first zero byte. -/
def accepts (asPath : Bool) (glob subject : Text) : Bool :=
  let glob := Text.before 0 glob
  let subject := Text.before 0 subject
  matchSegments asPath (glob.length + 1) (segment asPath (glob.length + 1) glob subject)

end Glob

end Triage
