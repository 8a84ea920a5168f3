import Triage.Regex.Syntax

/-!
Reading a pattern.

`Pattern.tokens` cuts a pattern into tokens; brackets and braces have token rules of their own.
`Regex.ofPattern?` builds the expression from the tokens and answers `none` for a pattern that is
not well formed. An expression may hold at most `Pattern.maxStates` states, counted over all copies
that bounded repetitions make.
-/

namespace Triage

/-- One token of a pattern. -/
inductive PatternToken where
  | byte (b : UInt8)
  | anyByte
  | classEscape (negated : Bool) (c : ByteClass)
  | backref (digits : Text)
  | wordEdge (negated : Bool)
  | lineStart
  | lineEnd
  | openGroup
  | openPlain
  | openLook (negated : Bool)
  | close
  | bar
  | star
  | plus
  | question
  | openSet (negated : Bool)
  | dash
  | className (name : Text)
  | equivalents (name : Text)
  | collating (name : Text)
  | closeSet
  | openCount
  | count (digits : Text)
  | comma
  | closeCount
  deriving DecidableEq, Repr

namespace Pattern

/-! ## Tokens -/

/-- Which token rules hold: outside brackets and braces, inside brackets, or inside braces. -/
inductive Mode where
  | plain | set | count
  deriving DecidableEq, Repr

/-- The control byte that an escaped letter or zero stands for. -/
def controlEscape? (b : UInt8) : Option UInt8 :=
  [('0'.ascii, (0 : UInt8)), ('b'.ascii, 8), ('f'.ascii, 12), ('n'.ascii, 10), ('r'.ascii, 13),
   ('t'.ascii, 9), ('v'.ascii, 11)].lookup b

/-- The class that an escaped letter stands for, and whether its complement is meant. -/
def classEscape? (b : UInt8) : Option (Bool × ByteClass) :=
  [('d'.ascii, (false, ByteClass.digit)), ('D'.ascii, (true, .digit)), ('s'.ascii, (false, .space)),
   ('S'.ascii, (true, .space)), ('w'.ascii, (false, .word)), ('W'.ascii, (true, .word))].lookup b

def hexValue? (b : UInt8) : Option Nat :=
  if Byte.isDigit b then some (b - 48).toNat
  else if 97 ≤ b && b ≤ 102 then some (b - 87).toNat
  else if 65 ≤ b && b ≤ 70 then some (b - 55).toNat
  else none

def hexDigits? : Nat → Nat → Text → Option (Nat × Text)
  | 0, value, s => some (value, s)
  | _ + 1, _, [] => none
  | n + 1, value, b :: s =>
    match hexValue? b with
    | none => none
    | some d => hexDigits? n (16 * value + d) s

/-- The token of an escape whose backslash has been read. In brackets `\b` is the backspace. -/
def escape? (inSet : Bool) : Text → Option (PatternToken × Text)
  | [] => none
  | b :: s =>
    match if b == 'b'.ascii && !inSet then none else controlEscape? b with
    | some c => some (.byte c, s)
    | none =>
      if b == 'b'.ascii then some (.wordEdge false, s)
      else if b == 'B'.ascii then some (.wordEdge true, s)
      else match classEscape? b with
        | some (negated, c) => some (.classEscape negated c, s)
        | none =>
          if b == 'c'.ascii then
            match s with
            | [] => none
            | c :: s => some (.byte c, s)
          else if b == 'x'.ascii then
            (hexDigits? 2 0 s).map fun (value, s) => (.byte value.toUInt8, s)
          else if b == 'u'.ascii then
            (hexDigits? 4 0 s).map fun (value, s) => (.byte value.toUInt8, s)
          else if Byte.isDigit b then
            some (.backref (b :: s.takeWhile Byte.isDigit), s.dropWhile Byte.isDigit)
          else some (.byte b, s)

/-- The token after an opening parenthesis. -/
def parenthesis? : Text → Option (PatternToken × Text)
  | 63 :: s =>
    match s with
    | 58 :: s => some (.openPlain, s)
    | 61 :: s => some (.openLook false, s)
    | 33 :: s => some (.openLook true, s)
    | _ => none
  | s => some (.openGroup, s)

/-- The tokens that are one punctuation mark outside brackets and braces. -/
def mark? (b : UInt8) : Option PatternToken :=
  [('^'.ascii, PatternToken.lineStart), ('$'.ascii, .lineEnd), ('.'.ascii, .anyByte),
   ('*'.ascii, .star), ('+'.ascii, .plus), ('?'.ascii, .question), ('|'.ascii, .bar),
   (')'.ascii, .close)].lookup b

/-- The name between `mark` and `mark]` in a bracket expression, and what follows. -/
def bracketName? (mark : UInt8) (s : Text) : Option (Text × Text) :=
  match s.dropWhile (· != mark) with
  | _ :: 93 :: rest => some (s.takeWhile (· != mark), rest)
  | _ => none

/-- The first token of a text that is not empty, the mode after it, and the rest. -/
def next? (mode : Mode) (b : UInt8) (s : Text) : Option (PatternToken × Mode × Text) :=
  match mode with
  | .plain =>
    if b == '\\'.ascii then (escape? false s).map fun (t, s) => (t, .plain, s)
    else if b == '('.ascii then (parenthesis? s).map fun (t, s) => (t, .plain, s)
    else if b == '['.ascii then
      match s with
      | 94 :: s => some (.openSet true, .set, s)
      | s => some (.openSet false, .set, s)
    else if b == '\x7b'.ascii then some (.openCount, .count, s)
    else match mark? b with
      | some t => some (t, .plain, s)
      | none => some (.byte b, .plain, s)
  | .set =>
    if b == '-'.ascii then some (.dash, .set, s)
    else if b == '['.ascii then
      match s with
      | [] => none
      | 46 :: s => (bracketName? '.'.ascii s).map fun (name, s) => (.collating name, .set, s)
      | 58 :: s => (bracketName? ':'.ascii s).map fun (name, s) => (.className name, .set, s)
      | 61 :: s => (bracketName? '='.ascii s).map fun (name, s) => (.equivalents name, .set, s)
      | s => some (.byte b, .set, s)
    else if b == ']'.ascii then some (.closeSet, .plain, s)
    else if b == '\\'.ascii then (escape? true s).map fun (t, s) => (t, .set, s)
    else some (.byte b, .set, s)
  | .count =>
    if Byte.isDigit b then
      some (.count (b :: s.takeWhile Byte.isDigit), .count, s.dropWhile Byte.isDigit)
    else if b == ','.ascii then some (.comma, .count, s)
    else if b == '\x7d'.ascii then some (.closeCount, .plain, s)
    else none

/-- Cuts a text into at most `fuel` tokens. -/
def tokensFrom : Nat → Mode → Text → Option (List PatternToken)
  | _, _, [] => some []
  | 0, _, _ :: _ => none
  | fuel + 1, mode, b :: s =>
    match next? mode b s with
    | none => none
    | some (t, mode, s) => (tokensFrom fuel mode s).map (t :: ·)

def tokens (pattern : Text) : Option (List PatternToken) := tokensFrom pattern.length .plain pattern

/-! ## Names of single bytes -/

/-- The names of the bytes below 128 in a bracket expression, in order. -/
def byteNames : List Text :=
  ["NUL", "SOH", "STX", "ETX", "EOT", "ENQ", "ACK", "alert", "backspace", "tab", "newline",
   "vertical-tab", "form-feed", "carriage-return", "SO", "SI", "DLE", "DC1", "DC2", "DC3", "DC4",
   "NAK", "SYN", "ETB", "CAN", "EM", "SUB", "ESC", "IS4", "IS3", "IS2", "IS1", "space",
   "exclamation-mark", "quotation-mark", "number-sign", "dollar-sign", "percent-sign",
   "ampersand", "apostrophe", "left-parenthesis", "right-parenthesis", "asterisk", "plus-sign",
   "comma", "hyphen", "period", "slash", "zero", "one", "two", "three", "four", "five", "six",
   "seven", "eight", "nine", "colon", "semicolon", "less-than-sign", "equals-sign",
   "greater-than-sign", "question-mark", "commercial-at", "A", "B", "C", "D", "E", "F", "G", "H",
   "I", "J", "K", "L", "M", "N", "O", "P", "Q", "R", "S", "T", "U", "V", "W", "X", "Y", "Z",
   "left-square-bracket", "backslash", "right-square-bracket", "circumflex", "underscore",
   "grave-accent", "a", "b", "c", "d", "e", "f", "g", "h", "i", "j", "k", "l", "m", "n", "o", "p",
   "q", "r", "s", "t", "u", "v", "w", "x", "y", "z", "left-curly-bracket", "vertical-line",
   "right-curly-bracket", "tilde", "DEL"].map String.ascii

def byteNamed? (name : Text) : Option UInt8 := (byteNames.idxOf? name).map Nat.toUInt8

/-! ## Bracket expressions -/

/-- What stood last in a bracket expression: nothing that could start a range, a single byte not
yet added, or a class. -/
inductive SetItem where
  | nothing | single (b : UInt8) | classItem
  deriving DecidableEq, Repr

/-- A bracket expression as far as it has been read. -/
structure SetSoFar where
  ranges : List ByteRange
  last : SetItem
  deriving DecidableEq, Repr

namespace SetSoFar

def flushed (ignoreCase : Bool) (s : SetSoFar) : List ByteRange :=
  match s.last with
  | .single b => (if ignoreCase then .eitherCase b else .one b) :: s.ranges
  | _ => s.ranges

def pushByte (ignoreCase : Bool) (s : SetSoFar) (b : UInt8) : SetSoFar :=
  ⟨s.flushed ignoreCase, .single b⟩

def pushClass (ignoreCase : Bool) (s : SetSoFar) (r : ByteRange) : SetSoFar :=
  ⟨r :: s.flushed ignoreCase, .classItem⟩

/-- Adds the range from `lo` to `hi`, which must not be out of order. -/
def pushRange? (ignoreCase : Bool) (s : SetSoFar) (lo hi : UInt8) : Option SetSoFar :=
  if ByteRange.rank hi < ByteRange.rank lo then none
  else some ⟨(if ignoreCase then .spanEitherCase lo hi else .span lo hi) :: s.ranges, .nothing⟩

end SetSoFar

/-- Reads a bracket expression up to its closing bracket. -/
def bracket? (ignoreCase : Bool) : List PatternToken → SetSoFar → Option (List ByteRange × List PatternToken)
  | .closeSet :: ts, s => some (s.flushed ignoreCase, ts)
  | .collating name :: ts, s =>
    match byteNamed? name with
    | none => none
    | some b =>
      let own : ByteRange := if ignoreCase then .eitherCase b else .one b
      bracket? ignoreCase ts (SetSoFar.pushByte ignoreCase ⟨own :: s.ranges, s.last⟩ b)
  | .equivalents name :: ts, s =>
    match byteNamed? name with
    | none => none
    | some b => bracket? ignoreCase ts (s.pushClass ignoreCase (.eitherCase b))
  | .className name :: ts, s =>
    match ByteClass.ofName? name with
    | none => none
    | some c =>
      bracket? ignoreCase ts (s.pushClass ignoreCase (.named (if ignoreCase then c.foldCase else c)))
  | .classEscape negated c :: ts, s =>
    bracket? ignoreCase ts (s.pushClass ignoreCase (if negated then .unnamed c else .named c))
  | .byte b :: ts, s => bracket? ignoreCase ts (s.pushByte ignoreCase b)
  | .dash :: .closeSet :: ts, s => some ((s.pushByte ignoreCase '-'.ascii).flushed ignoreCase, ts)
  | .dash :: ts, s =>
    match s.last with
    | .classItem => none
    | .nothing => bracket? ignoreCase ts (s.pushByte ignoreCase '-'.ascii)
    | .single lo =>
      match ts with
      | .byte hi :: ts =>
        match s.pushRange? ignoreCase lo hi with
        | none => none
        | some s => bracket? ignoreCase ts s
      | .dash :: ts =>
        match s.pushRange? ignoreCase lo '-'.ascii with
        | none => none
        | some s => bracket? ignoreCase ts s
      | _ => none
  | _, _ => none

/-- Reads a bracket expression after its opening bracket; a dash in first place stands for itself. -/
def set? (ignoreCase negated : Bool) (ts : List PatternToken) : Option (ByteSet × List PatternToken) :=
  let read := match ts with
    | .byte b :: ts => bracket? ignoreCase ts ⟨[], .single b⟩
    | .dash :: ts => bracket? ignoreCase ts ⟨[], .single '-'.ascii⟩
    | ts => bracket? ignoreCase ts ⟨[], .nothing⟩
  read.map fun (ranges, ts) => (⟨negated, ranges⟩, ts)

/-! ## Expressions -/

/-- The largest number of states of one expression. -/
def maxStates : Nat := 100000

/-- The largest number that may be written in a pattern. -/
def maxNumber : Nat := 2147483647

/-- The value of a number in a pattern, if it is not too large. -/
def number? (digits : Text) : Option Nat :=
  let value := digits.foldl (fun n b => 10 * n + (b - 48).toNat) 0
  if value ≤ maxNumber then some value else none

/-- What is left to read, and what has been numbered and counted so far. -/
structure Reader where
  ignoreCase : Bool
  tokens : List PatternToken
  /-- The number of the next group; groups count from one. -/
  nextGroup : Nat
  /-- The groups whose closing parenthesis has not been read. -/
  openGroups : List Nat
  nextLoop : Nat
  states : Nat

/-- An expression and the number of states that a copy of it takes. -/
structure Part where
  regex : Regex
  size : Nat

/-- A step of reading, which may find the pattern ill formed. -/
abbrev Reading := StateT Reader Option

namespace Reading

def charge (n : Nat) : Reading Unit := fun r =>
  if r.states + n ≤ maxStates then some ((), { r with states := r.states + n }) else none

def peek : Reading (Option PatternToken) := fun r => some (r.tokens.head?, r)

def skip : Reading Unit := fun r => some ((), { r with tokens := r.tokens.drop 1 })

def accept (t : PatternToken) : Reading Bool := fun r =>
  match r.tokens with
  | u :: ts => if u == t then some (true, { r with tokens := ts }) else some (false, r)
  | [] => some (false, r)

def expect (t : PatternToken) : Reading Unit := do
  if !(← accept t) then failure

def newLoop : Reading Nat := fun r => some (r.nextLoop, { r with nextLoop := r.nextLoop + 1 })

def startGroup : Reading Nat := fun r =>
  some (r.nextGroup, { r with nextGroup := r.nextGroup + 1, openGroups := r.nextGroup :: r.openGroups })

def endGroup : Reading Unit := fun r => some ((), { r with openGroups := r.openGroups.drop 1 })

/-- A copy with loop numbers of its own. -/
def copy (e : Regex) : Reading Regex := fun r =>
  let (e, next) := e.renumber r.nextLoop
  some (e, { r with nextLoop := next })

def single (e : Regex) : Reading Part := do
  charge 1
  pure ⟨e, 1⟩

/-- `n` copies in a row, before `last`. -/
def copies (e : Regex) : Nat → Regex → Reading Regex
  | 0, last => pure last
  | n + 1, last => do
    let first ← copy e
    let rest ← copies e n last
    pure (.seq first rest)

/-- At most `n` copies in a row. -/
def optionalCopies (e : Regex) (greedy : Bool) : Nat → Reading Regex
  | 0 => pure .empty
  | n + 1 => do
    let loop ← newLoop
    let first ← copy e
    let rest ← optionalCopies e greedy n
    pure (.opt loop greedy (.seq first rest))

/-- The number in a count, if one is next. -/
def countNumber : Reading (Option Nat) := do
  match ← peek with
  | some (.count digits) =>
    skip
    match number? digits with
    | some n => pure (some n)
    | none => failure
  | _ => pure none

/-- A repetition whose opening brace has been read. The copies are counted before they are made. -/
def repeated (p : Part) : Reading Part := do
  let some least ← countNumber | failure
  let (most, bounded) ← do
    if ← accept .comma then
      match ← countNumber with
      | some most => pure (most, true)
      | none => pure (0, false)
    else pure (least, true)
  expect .closeCount
  let greedy := !(← accept .question)
  if bounded then
    if most < least then failure
    let size := 2 + least * p.size + (most - least) * (p.size + 1)
    charge size
    let rest ← optionalCopies p.regex greedy (most - least)
    let e ← copies p.regex least rest
    pure ⟨e, size⟩
  else
    let size := 2 + (least + 1) * p.size
    charge size
    let loop ← newLoop
    let body ← copy p.regex
    let e ← copies p.regex least (.star loop greedy body)
    pure ⟨e, size⟩

/-- One quantifier after a part, if there is one. -/
def quantified (p : Part) : Reading (Option Part) := do
  if ← accept .star then
    let greedy := !(← accept .question)
    charge 1
    let loop ← newLoop
    pure (some ⟨.star loop greedy p.regex, p.size + 1⟩)
  else if ← accept .plus then
    let greedy := !(← accept .question)
    charge 1
    let loop ← newLoop
    pure (some ⟨.seq p.regex (.star loop greedy p.regex), p.size + 1⟩)
  else if ← accept .question then
    let greedy := !(← accept .question)
    charge 2
    let loop ← newLoop
    pure (some ⟨.opt loop greedy p.regex, p.size + 2⟩)
  else if ← accept .openCount then
    pure (some (← repeated p))
  else pure none

def quantifiers : Nat → Part → Reading Part
  | 0, p => pure p
  | fuel + 1, p => do
    match ← quantified p with
    | none => pure p
    | some p => quantifiers fuel p

/-- A back reference, which must name a group that has been closed. -/
def backrefTo (digits : Text) : Reading Part := do
  let some index := number? digits | failure
  let r ← get
  if index < r.nextGroup && !r.openGroups.contains index && index != 0 then
    single (.backref index r.ignoreCase)
  else failure

mutual

def disjunction : Nat → Reading Part
  | 0 => failure
  | fuel + 1 => do
    let first ← alternative fuel
    furtherAlternatives fuel first

def furtherAlternatives : Nat → Part → Reading Part
  | 0, _ => failure
  | fuel + 1, left => do
    if ← accept .bar then
      let right ← alternative fuel
      charge 2
      furtherAlternatives fuel ⟨.alt left.regex right.regex, left.size + right.size + 2⟩
    else pure left

def alternative : Nat → Reading Part
  | 0 => failure
  | fuel + 1 => do
    match ← term fuel with
    | some first =>
      let rest ← alternative fuel
      pure ⟨.seq first.regex rest.regex, first.size + rest.size⟩
    | none => single .empty

/-- An assertion, or an atom with its quantifiers. -/
def term : Nat → Reading (Option Part)
  | 0 => failure
  | fuel + 1 => do
    match ← peek with
    | some .lineStart => skip; some <$> single .lineStart
    | some .lineEnd => skip; some <$> single .lineEnd
    | some (.wordEdge negated) => skip; some <$> single (.wordEdge negated)
    | some (.openLook negated) =>
      skip
      let body ← disjunction fuel
      expect .close
      charge 2
      pure (some ⟨.look negated body.regex, body.size + 2⟩)
    | some t =>
      match ← atom fuel t with
      | none => pure none
      | some p => some <$> quantifiers fuel p
    | none => pure none

/-- An atom that starts with the token `t`, if one does. -/
def atom : Nat → PatternToken → Reading (Option Part)
  | 0, _ => failure
  | fuel + 1, t => do
    match t with
    | .anyByte => skip; some <$> single (.byte ByteSet.notLineEnd)
    | .byte b =>
      skip
      let r ← get
      some <$> single (.byte (ByteSet.literal r.ignoreCase b))
    | .backref digits => skip; some <$> backrefTo digits
    | .classEscape negated c => skip; some <$> single (.byte ⟨negated, [.named c]⟩)
    | .openPlain =>
      skip
      charge 1
      let body ← disjunction fuel
      expect .close
      pure (some ⟨body.regex, body.size + 1⟩)
    | .openGroup =>
      skip
      charge 2
      let index ← startGroup
      let body ← disjunction fuel
      expect .close
      endGroup
      pure (some ⟨.group index body.regex, body.size + 2⟩)
    | .openSet negated =>
      skip
      let r ← get
      match set? r.ignoreCase negated r.tokens with
      | none => failure
      | some (set, ts) =>
        modify ({ · with tokens := ts })
        some <$> single (.byte set)
    | _ => pure none

end

end Reading

end Pattern

/-- The expression that a pattern denotes, or `none` if it is not well formed. -/
def Regex.ofPattern? (ignoreCase : Bool) (pattern : Text) : Option Regex :=
  match Pattern.tokens pattern with
  | none => none
  | some ts =>
    -- three states stand around every expression
    match Pattern.Reading.disjunction (5 * ts.length + 5) ⟨ignoreCase, ts, 1, [0], 0, 3⟩ with
    | some (part, r) => if r.tokens.isEmpty then some part.regex else none
    | none => none

end Triage
