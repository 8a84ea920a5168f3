import Triage.Text

/-!
Regular expressions over bytes.

A `ByteSet` says which single bytes an atom accepts; a `Regex` is built from such atoms, the two
line anchors, word edges, groups, back references, lookahead and two kinds of loop. A loop carries
a number of its own, by which the matcher counts how often it was entered at one place; a bounded
repetition is written out as copies, each with fresh numbers.
-/

namespace Triage

/-- The named classes of bytes; all are empty above 127. -/
inductive ByteClass where
  | alnum | alpha | blank | cntrl | digit | graph | lower | print | punct | space | upper | xdigit
  | word
  deriving DecidableEq, Repr

namespace ByteClass

def mem : ByteClass → UInt8 → Bool
  | alnum, b => Byte.isLetterOrDigit b
  | alpha, b => Byte.isLetter b
  | blank, b => b == 32 || b == 9
  | cntrl, b => b < 32 || b == 127
  | digit, b => Byte.isDigit b
  | graph, b => 33 ≤ b && b ≤ 126
  | lower, b => Byte.isLower b
  | print, b => 32 ≤ b && b ≤ 126
  | punct, b => 33 ≤ b && b ≤ 126 && !Byte.isLetterOrDigit b
  | space, b => Byte.isSpace b
  | upper, b => Byte.isUpper b
  | xdigit, b => Byte.isDigit b || (97 ≤ b && b ≤ 102) || (65 ≤ b && b ≤ 70)
  | word, b => Byte.isLetterOrDigit b || b == 95

/-- The names by which a bracket expression refers to the classes; case does not count. -/
def names : List (Text × ByteClass) :=
  [("d".ascii, digit), ("w".ascii, word), ("s".ascii, space), ("alnum".ascii, alnum),
   ("alpha".ascii, alpha), ("blank".ascii, blank), ("cntrl".ascii, cntrl), ("digit".ascii, digit),
   ("graph".ascii, graph), ("lower".ascii, lower), ("print".ascii, print),
   ("punct".ascii, punct), ("space".ascii, space), ("upper".ascii, upper),
   ("xdigit".ascii, xdigit)]

def ofName? (name : Text) : Option ByteClass := names.lookup (Text.toLower name)

/-- Where case is ignored, the two cases of letters are one class. -/
def foldCase : ByteClass → ByteClass
  | lower | upper => alpha
  | c => c

end ByteClass

/-- One member of a set of bytes. -/
inductive ByteRange where
  /-- This byte alone. -/
  | one (b : UInt8)
  /-- This byte in either case. -/
  | eitherCase (b : UInt8)
  /-- The bytes from `lo` to `hi`. -/
  | span (lo hi : UInt8)
  /-- The bytes that fall between `lo` and `hi` in lower or in upper case. -/
  | spanEitherCase (lo hi : UInt8)
  /-- A named class. -/
  | named (c : ByteClass)
  /-- All bytes outside a named class. -/
  | unnamed (c : ByteClass)
  deriving DecidableEq, Repr

namespace ByteRange

/-- The rank of a byte in the order of ranges: bytes from 128 come before the ASCII ones. -/
def rank (b : UInt8) : UInt8 := b + 128

/-- Whether `b` lies between `lo` and `hi` in the order of ranges. -/
def between (lo hi b : UInt8) : Bool := rank lo ≤ rank b && rank b ≤ rank hi

def mem : ByteRange → UInt8 → Bool
  | one c, b => b == c
  | eitherCase c, b => Byte.toLower b == Byte.toLower c
  | span lo hi, b => between lo hi b
  | spanEitherCase lo hi, b => between lo hi (Byte.toLower b) || between lo hi (Byte.toUpper b)
  | named c, b => c.mem b
  | unnamed c, b => !c.mem b

end ByteRange

/-- The bytes that one atom accepts: those in some range, or those in none. -/
structure ByteSet where
  negated : Bool
  ranges : List ByteRange
  deriving DecidableEq, Repr

namespace ByteSet

def mem (s : ByteSet) (b : UInt8) : Bool := (s.ranges.any fun r => r.mem b) != s.negated

/-- Every byte that does not end a line. -/
def notLineEnd : ByteSet := ⟨true, [.one Byte.lineFeed, .one Byte.carriageReturn]⟩

/-- A single byte, in either case if case is ignored. -/
def literal (ignoreCase : Bool) (b : UInt8) : ByteSet :=
  ⟨false, [if ignoreCase then .eitherCase b else .one b]⟩

end ByteSet

/-- A regular expression. `loop` numbers tell the loops of one expression apart. -/
inductive Regex where
  /-- Accepts the empty text. -/
  | empty
  /-- Accepts one byte of the set. -/
  | byte (set : ByteSet)
  /-- Holds at the start of the line. -/
  | lineStart
  /-- Holds at the end of the line. -/
  | lineEnd
  /-- Holds between a word byte and another, or where no such edge is if negated. -/
  | wordEdge (negated : Bool)
  | seq (first second : Regex)
  | alt (first second : Regex)
  /-- Accepts what `body` does and remembers it under `index`. -/
  | group (index : Nat) (body : Regex)
  /-- Accepts what the group `index` last accepted. -/
  | backref (index : Nat) (ignoreCase : Bool)
  /-- Accepts `body` or nothing. -/
  | opt (loop : Nat) (greedy : Bool) (body : Regex)
  /-- Accepts any number of `body`s, one after the other. -/
  | star (loop : Nat) (greedy : Bool) (body : Regex)
  /-- Holds where `body` accepts some text ahead, or where it does not if negated. -/
  | look (negated : Bool) (body : Regex)
  deriving DecidableEq, Repr

namespace Regex

/-- A copy whose loops are numbered from `next` on, and the next free number. -/
def renumber : Regex → Nat → Regex × Nat
  | seq a b, next =>
    let (a, next) := a.renumber next
    let (b, next) := b.renumber next
    (seq a b, next)
  | alt a b, next =>
    let (a, next) := a.renumber next
    let (b, next) := b.renumber next
    (alt a b, next)
  | group i r, next =>
    let (r, next) := r.renumber next
    (group i r, next)
  | opt _ greedy r, next =>
    let (r, after) := r.renumber (next + 1)
    (opt next greedy r, after)
  | star _ greedy r, next =>
    let (r, after) := r.renumber (next + 1)
    (star next greedy r, after)
  | look negated r, next =>
    let (r, next) := r.renumber next
    (look negated r, next)
  | r, next => (r, next)

/-- The expression looks ahead somewhere. -/
def looksAhead : Regex → Bool
  | look .. => true
  | seq a b | alt a b => a.looksAhead || b.looksAhead
  | group _ r | opt _ _ r | star _ _ r => r.looksAhead
  | _ => false

end Regex

end Triage
