/-!
Text is a list of bytes. File contents, paths and messages may hold any byte, so nothing here
assumes an encoding; letters, digits and blanks are the ASCII ones, and texts are ordered byte by
byte, unsigned.
-/

/-- The bytes of an ASCII literal. -/
def String.ascii (s : String) : List UInt8 := s.toList.map fun c => c.toNat.toUInt8

/-- The byte of an ASCII character. -/
def Char.ascii (c : Char) : UInt8 := c.toNat.toUInt8

namespace Triage

/-- A text of arbitrary bytes. -/
abbrev Text := List UInt8

/-! ## Classes of bytes -/

namespace Byte

def lineFeed : UInt8 := 10

/-- The carriage return, dropped from the end of a line. -/
def carriageReturn : UInt8 := 13

/-- The slash, which separates the components of a path. -/
def slash : UInt8 := 47

def isDigit (b : UInt8) : Bool := 48 ≤ b && b ≤ 57
def isUpper (b : UInt8) : Bool := 65 ≤ b && b ≤ 90
def isLower (b : UInt8) : Bool := 97 ≤ b && b ≤ 122
def isLetter (b : UInt8) : Bool := isUpper b || isLower b
def isLetterOrDigit (b : UInt8) : Bool := isLetter b || isDigit b

/-- Space, tab, carriage return or line feed: what `trim` removes. -/
def isBlank (b : UInt8) : Bool := b == 32 || b == 9 || b == 13 || b == 10

/-- The six white-space bytes: the blanks, vertical tab and form feed. -/
def isSpace (b : UInt8) : Bool := b == 32 || (9 ≤ b && b ≤ 13)

/-- An upper-case letter becomes its lower-case one; any other byte stays. -/
def toLower (b : UInt8) : UInt8 := if isUpper b then b + 32 else b

/-- A lower-case letter becomes its upper-case one; any other byte stays. -/
def toUpper (b : UInt8) : UInt8 := if isLower b then b - 32 else b

/-- A byte of a UTF-8 sequence other than its first. -/
def isContinuation (b : UInt8) : Bool := b &&& 0xC0 == 0x80

def hexDigit (n : UInt8) : UInt8 := if n < 10 then 48 + n else 87 + n

end Byte

/-! ## Operations on texts -/

namespace Text

def trimLeft (s : Text) : Text := s.dropWhile Byte.isBlank

def trimRight (s : Text) : Text := (s.reverse.dropWhile Byte.isBlank).reverse

/-- The text without the blanks at both ends. -/
def trim (s : Text) : Text := trimRight (trimLeft s)

def toLower (s : Text) : Text := s.map Byte.toLower

def startsWith (s start : Text) : Bool := start.isPrefixOf s

def endsWith (s tail : Text) : Bool := tail.isSuffixOf s

/-- The number of bytes before the first occurrence of `piece`, counted from `start`. -/
def findFrom (piece : Text) (start : Nat) : Text → Option Nat
  | [] => if piece.isEmpty then some start else none
  | b :: s => if piece.isPrefixOf (b :: s) then some start else findFrom piece (start + 1) s

def find? (piece s : Text) : Option Nat := findFrom piece 0 s

def occursIn (piece : Text) : Text → Bool
  | [] => piece.isEmpty
  | b :: s => piece.isPrefixOf (b :: s) || occursIn piece s

/-- One byte put in front of a cut text: `sep` opens a new piece, any other byte joins the first. -/
def consPiece (sep b : UInt8) : List Text → List Text
  | [] => if b == sep then [[], []] else [[b]]
  | piece :: rest => if b == sep then [] :: piece :: rest else (b :: piece) :: rest

/-- The text cut at every `sep`; there is always at least one piece. -/
def splitOn (sep : UInt8) (s : Text) : List Text := s.foldr (consPiece sep) [[]]

theorem splitOn_cons (sep b : UInt8) (s : Text) :
    splitOn sep (b :: s) = consPiece sep b (splitOn sep s) := rfl

def joinWith (sep : Text) : List Text → Text
  | [] => []
  | [piece] => piece
  | piece :: rest => piece ++ sep ++ joinWith sep rest

/-- What stands before the first `sep`, or the whole text. -/
def before (sep : UInt8) (s : Text) : Text := s.takeWhile (· != sep)

/-- What stands after the first `sep`; nothing if there is none. -/
def after (sep : UInt8) (s : Text) : Text := (s.dropWhile (· != sep)).drop 1

/-- What stands after the last `sep`, or the whole text. -/
def afterLast (sep : UInt8) (s : Text) : Text := (s.reverse.takeWhile (· != sep)).reverse

/-- The last component of a path: what follows its last slash. -/
def baseName (path : Text) : Text := afterLast Byte.slash path

/-- The text without its last byte if that is `b`. -/
def dropLastIf (b : UInt8) (s : Text) : Text := if s.getLast? == some b then s.dropLast else s

/-- The items of a comma-separated list, trimmed; blank items are dropped. -/
def splitCommas (s : Text) : List Text :=
  ((splitOn 44 s).map trim).filter fun item => !item.isEmpty

/-- Two lower-case hexadecimal digits for each byte. -/
def hex (s : Text) : Text := s.flatMap fun (b : UInt8) => [Byte.hexDigit (b >>> 4), Byte.hexDigit (b &&& 15)]

/-- A number in decimal, without leading zeros. -/
def ofNat (n : Nat) : Text := (Nat.toDigits 10 n).map Char.ascii

/-- An integer in decimal, with a minus sign where it is negative. -/
def ofInt (i : Int) : Text := if i < 0 then 45 :: ofNat i.natAbs else ofNat i.natAbs

/-- The number that a row of digits stands for. -/
def digitsValue (digits : Text) : Nat := digits.foldl (fun n b => 10 * n + (b - 48).toNat) 0

def padNat (width n : Nat) : Text :=
  let digits := ofNat n
  List.replicate (width - digits.length) 48 ++ digits

/-- The text with spaces after it up to `width` bytes. -/
def padRight (width : Nat) (s : Text) : Text := s ++ List.replicate (width - s.length) 32

/-- The text with spaces before it up to `width` bytes. -/
def padLeft (width : Nat) (s : Text) : Text := List.replicate (width - s.length) 32 ++ s

/-- The largest length up to `n` at which the text can be cut without splitting a UTF-8 sequence. -/
def charFloor (s : Text) (n : Nat) : Nat :=
  if s.length ≤ n then s.length
  else ((s.take (n + 1)).reverse.dropWhile Byte.isContinuation).length - 1

/-! ## Lines -/

/-- The pieces between line feeds, an empty last piece dropped, as lines stand in a file. -/
def pieces (s : Text) : List Text :=
  let all := splitOn Byte.lineFeed s
  if all.getLast? == some [] then all.dropLast else all

/-- The lines of a text without their line ends; one carriage return at the end of a line belongs
to the line end. -/
def lines (s : Text) : List Text := (pieces s).map (dropLastIf Byte.carriageReturn)

end Text

end Triage
