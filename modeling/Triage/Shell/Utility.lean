import Triage.FileSystem.Change
import Triage.CommandLine
import Triage.Machine

/-!
The common utilities of a machine: what each writes, given its arguments and its input.

Only what scripts for tools are likely to use is here. An option that is not known makes a utility
fail.
-/

namespace Triage

namespace Shell

structure UtilityCall where
  machine : Machine
  arguments : List Text
  input : Text

structure UtilityResult where
  status : Nat := 0
  output : Text := []
  seconds : Nat := 0
  files : Option FileSystem := none

namespace Utility

def failed (status : Nat) : UtilityResult := { status }

/-- The result of a utility that writes something. -/
def writes (output : Text) : UtilityResult := { output }

def line (s : Text) : Text := s ++ [Byte.lineFeed]

/-- The most bytes that are read of a file without a limit. -/
def maxRead : Nat := 1048576

/-! ## Text with escapes -/

/-- The byte of an escape of one letter. -/
def letterEscape? (b : UInt8) : Option UInt8 :=
  ("abfnrtv\\\"'".ascii.zip [7, 8, 12, 10, 13, 9, 11, 92, 34, 39]).lookup b

def isOctalDigit (b : UInt8) : Bool := 48 ≤ b && b ≤ 55

def octal (digits : Text) : UInt8 := digits.foldl (fun n b => 8 * n + (b - 48)) 0

/-- The bytes of an escape, given what follows the backslash, and what follows the escape. -/
def escape (s : Text) : Text × Text :=
  let digits := (s.take 3).takeWhile isOctalDigit
  if !digits.isEmpty then ([octal digits], s.drop digits.length)
  else
    match s with
    | [] => (['\\'.ascii], [])
    | b :: rest =>
      match letterEscape? b with
      | some value => ([value], rest)
      | none => (['\\'.ascii, b], rest)

def unescape : (fuel : Nat) → Text → Text
  | 0, _ | _, [] => []
  | fuel + 1, b :: rest =>
    if b == '\\'.ascii then
      let (bytes, rest) := escape rest
      bytes ++ unescape fuel rest
    else b :: unescape fuel rest

/-- The text with its escapes replaced, each of which may be as long as the text. -/
def unescaped (s : Text) : Text := unescape (s.length + 1) s

/-! ## Writing -/

def number (s : Text) : Int := (CommandLine.integer? s).getD 0

/-- The text of an argument in a format with that letter. -/
def converted (letter : UInt8) (argument : Text) : Text :=
  if letter == 's'.ascii then argument
  else if letter == 'b'.ascii then unescaped argument
  else if letter == 'c'.ascii then argument.take 1
  else Text.ofInt (number argument)

def formatOnce : (fuel : Nat) → Text → List Text → Text × List Text × Bool
  | 0, _, args | _, [], args => ([], args, false)
  | fuel + 1, b :: rest, args =>
    if b == '\\'.ascii then
      let (bytes, rest) := escape rest
      let (text, args, asked) := formatOnce fuel rest args
      (bytes ++ text, args, asked)
    else if b == '%'.ascii then
      let flags := rest.takeWhile fun b => Byte.isDigit b || "-+ #.".ascii.contains b
      match rest.drop flags.length with
      | [] => ([b], args, false)
      | letter :: tail =>
        if letter == '%'.ascii then
          let (text, args, asked) := formatOnce fuel tail args
          (b :: text, args, asked)
        else
          let value := converted letter (args.head?.getD [])
          let width := Text.digitsValue (flags.filter Byte.isDigit)
          let padded :=
            if flags.contains '.'.ascii then value
            else if flags.head? == some '-'.ascii then Text.padRight width value
            else if flags.head? == some '0'.ascii then
              List.replicate (width - value.length) 48 ++ value
            else Text.padLeft width value
          let (text, args, _) := formatOnce fuel tail (args.drop 1)
          (padded ++ text, args, true)
    else
      let (text, args, asked) := formatOnce fuel rest args
      (b :: text, args, asked)

/-- A format applied until no arguments are left. -/
def formatAll (format : Text) : (fuel : Nat) → List Text → Text
  | 0, _ => []
  | fuel + 1, args =>
    let (text, left, asked) := formatOnce (format.length + 1) format args
    if asked && !left.isEmpty then text ++ formatAll format fuel left else text

def printf : List Text → UtilityResult
  | [] => failed 2
  | format :: args => writes (formatAll format (args.length + 1) args)

/-- Writes the arguments with spaces between them; `escapes` says whether escapes are replaced. -/
def echo (escapes : Bool) (args : List Text) : UtilityResult :=
  let quiet := args.head? == some "-n".ascii
  let text := Text.joinWith " ".ascii (if quiet then args.drop 1 else args)
  let text := if escapes then unescaped text else text
  writes (if quiet then text else line text)

/-! ## Reading -/

/-- The bytes of a file, up to a limit; a dash is the input. -/
def contents? (c : UtilityCall) (limit : Nat) (path : Text) : Option Text :=
  if path == "-".ascii then some (c.input.take limit) else c.machine.files.readUpTo? limit path

/-- The contents of the files named, or the input if none is; and whether all could be read. -/
def inputs (c : UtilityCall) (limit : Nat) (paths : List Text) : List Text × Bool :=
  if paths.isEmpty then ([c.input.take limit], true)
  else
    let read := paths.map (contents? c limit)
    (read.filterMap id, read.all Option.isSome)

def cat (c : UtilityCall) : UtilityResult :=
  let (texts, complete) := inputs c maxRead c.arguments
  { status := if complete then 0 else 1, output := texts.flatten }

/-- The letter, the value and the further arguments of a count such as `-c 5`, `-c5` or `-5`. -/
def countOption? : List Text → Option (UInt8 × Nat × List Text)
  | option :: rest =>
    let body := option.drop 1
    let value (s : Text) := Text.digitsValue s
    if option.head? != some '-'.ascii || body.isEmpty then none
    else if body.all Byte.isDigit then some ('n'.ascii, value body, rest)
    else
      match body, rest with
      | [letter], n :: rest =>
        if n.all Byte.isDigit then some (letter, value n, rest) else none
      | letter :: digits, _ =>
        if digits.all Byte.isDigit then some (letter, value digits, rest) else none
      | _, _ => none
  | [] => none

/-- The lines of a text with their line feeds; the last one may have none. -/
def linesWithEnds (s : Text) : List Text :=
  s.foldr (fun b lines =>
    if b == Byte.lineFeed then [b] :: lines
    else match lines with
      | [] => [[b]]
      | first :: rest => (b :: first) :: rest) []

/-- The first or last so many lines, or bytes, of the inputs. -/
def part (fromEnd : Bool) (c : UtilityCall) : UtilityResult :=
  let (letter, n, paths) := (countOption? c.arguments).getD ('n'.ascii, 10, c.arguments)
  let bytes := letter == 'c'.ascii
  let (texts, complete) := inputs c (if bytes && !fromEnd then n else maxRead) paths
  let choose (s : Text) : Text :=
    let lines := linesWithEnds s
    if bytes then if fromEnd then s.drop (s.length - n) else s.take n
    else (if fromEnd then lines.drop (lines.length - n) else lines.take n).flatten
  { status := if complete then 0 else 1, output := texts.flatMap choose }

def countWords : (inside : Bool) → Text → Nat
  | _, [] => 0
  | inside, b :: rest =>
    if Byte.isSpace b then countWords false rest
    else (if inside then 0 else 1) + countWords true rest

def wc (c : UtilityCall) : UtilityResult :=
  let options := (c.arguments.filter fun a => a.head? == some '-'.ascii).flatten
  let paths := c.arguments.filter fun a => a.head? != some '-'.ascii
  let has (letter : Char) : Bool := options.contains letter.ascii
  let all := !(has 'l' || has 'w' || has 'c' || has 'm')
  let counts (s : Text) : List Nat :=
    (if all || has 'l' then [s.count Byte.lineFeed] else []) ++
    (if all || has 'w' then [countWords false s] else []) ++
    (if all || has 'c' || has 'm' then [s.length] else [])
  let (texts, complete) := inputs c maxRead paths
  let shown (s : Text) (name : Text) : Text :=
    let numbers := (counts s).map Text.ofNat
    let columns := if numbers.length = 1 then numbers else numbers.map (Text.padLeft 7)
    line (Text.joinWith " ".ascii (columns ++ if name.isEmpty then [] else [name]))
  let names := if paths.isEmpty then [[]] else paths
  { status := if complete then 0 else 1
    output := (texts.zip names).flatMap fun (s, name) => shown s name }

/-! ## Changing texts -/

/-- The bytes of a set such as `a-z`. -/
def ranges : Text → Text
  | a :: b :: c :: rest =>
    if b == '-'.ascii && a ≤ c then
      (List.range (c - a + 1).toNat).map (fun n => a + n.toUInt8) ++ ranges rest
    else a :: ranges (b :: c :: rest)
  | set => set

def byteSet (s : Text) : Text :=
  if s == "[:upper:]".ascii then (List.range 26).map fun n => 65 + n.toUInt8
  else if s == "[:lower:]".ascii then (List.range 26).map fun n => 97 + n.toUInt8
  else if s == "[:space:]".ascii then [9, 10, 11, 12, 13, 32]
  else if s == "[:digit:]".ascii then (List.range 10).map fun n => 48 + n.toUInt8
  else ranges (unescaped s)

/-- Replaces the bytes of one set by those of another, or removes them. -/
def tr (c : UtilityCall) : UtilityResult :=
  match c.arguments with
  | [first, second] =>
    if first == "-d".ascii then
      let set := byteSet second
      writes (c.input.filter fun b => !set.contains b)
    else
      let source := byteSet first
      let target := byteSet second
      match target.getLast? with
      | none => failed 1
      | some last =>
        let filled := target ++ List.replicate (source.length - target.length) last
        let table := (source.zip filled).reverse
        writes (c.input.map fun b => (table.lookup b).getD b)
  | _ => failed 1

def sort (c : UtilityCall) : UtilityResult :=
  let (texts, complete) := inputs c maxRead c.arguments
  let lines := texts.flatMap Text.pieces
  { status := if complete then 0 else 2
    output := (lines.mergeSort fun a b => !(b < a)).flatMap line }

/-- The numbers from the first to the last argument, one a line. -/
def seq (args : List Text) : UtilityResult :=
  let numbers := args.map number
  let (first, last) := match numbers with
    | [last] => (1, last)
    | [first, last] => (first, last)
    | _ => (1, 0)
  writes ((List.range (last - first + 1).toNat).flatMap fun (n : Nat) =>
    line (Text.ofInt (first + n)))

def yes (args : List Text) : UtilityResult :=
  let text := line (if args.isEmpty then "y".ascii else Text.joinWith " ".ascii args)
  writes (List.replicate (maxRead / text.length + 1) text).flatten

/-! ## Files -/

/-- The names that a listing of a directory shows. -/
def visibleNames (all : Bool) (entries : List (Text × Node)) : List Text :=
  let names := (entries.map Prod.fst).filter fun name => all || name.head? != some '.'.ascii
  names.mergeSort fun a b => !(b < a)

def ls (c : UtilityCall) : UtilityResult :=
  let options := (c.arguments.filter fun a => a.head? == some '-'.ascii).flatten
  let paths := c.arguments.filter fun a => a.head? != some '-'.ascii
  let paths := if paths.isEmpty then [Path.dot] else paths
  let fs := c.machine.files
  let files := paths.filter fun p => fs.entryExists p && !fs.isDirectory p
  let directories := paths.filter fs.isDirectory
  let all := options.contains 'a'.ascii
  let shown (dir : Text) : Text :=
    let names := match fs.listDirectory dir with
      | .ok entries => visibleNames (all || options.contains 'A'.ascii) entries
      | .error _ => []
    (if paths.length = 1 then [] else line (dir ++ ":".ascii)) ++
      ((if all then [Path.dot, Path.dotDot] else []) ++ names).flatMap line
  { status := if paths.all fs.entryExists then 0 else 2
    output := files.flatMap line ++ directories.flatMap shown }

def pwd (c : UtilityCall) : UtilityResult :=
  writes (line (FileSystem.absoluteText c.machine.files.workingDirectory))

/-- Applies a change of the files to every path. -/
def changeEach (c : UtilityCall) (change : FileSystem → Text → Except FileError FileSystem)
    (paths : List Text) : UtilityResult :=
  let (files, ok) := paths.foldl (fun (fs, ok) path =>
    match change fs path with
    | .ok fs => (fs, ok)
    | .error _ => (fs, false)) (c.machine.files, true)
  { status := if ok then 0 else 1, files := some files }

def withoutOptions (args : List Text) : List Text :=
  args.filter fun a => a.head? != some '-'.ascii

def touch (c : UtilityCall) : UtilityResult :=
  changeEach c (fun fs path => (fs.openForAppend path).map Prod.fst) (withoutOptions c.arguments)

def mkdir (c : UtilityCall) : UtilityResult :=
  let parents := c.arguments.contains "-p".ascii
  let change (fs : FileSystem) (path : Text) : Except FileError FileSystem :=
    if parents then
      let (fs, outcome) := fs.makeDirectories path
      outcome.map fun () => fs
    else fs.makeDirectory path
  changeEach c change (withoutOptions c.arguments)

def rm (c : UtilityCall) : UtilityResult :=
  let options := (c.arguments.filter fun a => a.head? == some '-'.ascii).flatten
  let forced := options.contains 'f'.ascii
  let change (fs : FileSystem) (path : Text) : Except FileError FileSystem :=
    if options.contains 'r'.ascii then
      if forced || fs.entryExists path then fs.removeTree path else .error .notFound
    else
      match fs.removeFile path with
      | .error .notFound => if forced then .ok fs else .error .notFound
      | outcome => outcome
  changeEach c change (withoutOptions c.arguments)

def basename : List Text → UtilityResult
  | [path] => writes (line (Text.baseName (Path.ofElements (Path.names path))))
  | [path, ending] =>
    let name := Text.baseName (Path.ofElements (Path.names path))
    let cut := name.endsWith ending && ending.length < name.length
    writes (line (if cut then name.take (name.length - ending.length) else name))
  | _ => failed 1

def dirname : List Text → UtilityResult
  | [path] =>
    let parent := Path.parent path
    writes (line (if parent.isEmpty then Path.dot else parent))
  | _ => failed 1

/-! ## Conditions -/

/-- What a condition on one argument says; none if it is not known. -/
def unary (fs : FileSystem) (option argument : Text) : Option Bool :=
  let kindIs (kind : NodeKind) : Bool := match fs.node true argument with
    | .ok n => n.kind == kind
    | .error _ => false
  match option with
  | [_, letter] =>
    if letter == 'n'.ascii then some !argument.isEmpty
    else if letter == 'z'.ascii then some argument.isEmpty
    else if "erw".ascii.contains letter then some (fs.pathExists argument)
    else if letter == 'f'.ascii then some (kindIs .file)
    else if letter == 'd'.ascii then some (kindIs .directory)
    else if letter == 'p'.ascii then some (kindIs .pipe)
    else if letter == 'x'.ascii then some (fs.mayExecute argument)
    else if letter == 's'.ascii then
      some ((fs.readUpTo? 1 argument).any (!·.isEmpty) || kindIs .directory)
    else if letter == 'L'.ascii || letter == 'h'.ascii then
      some (match fs.node false argument with
        | .ok (.link _) => true
        | _ => false)
    else none
  | _ => none

/-- What a comparison says; none if it is not known. -/
def binary (a operator b : Text) : Option Bool :=
  let compare (holds : Int → Int → Bool) : Option Bool :=
    match CommandLine.integer? a, CommandLine.integer? b with
    | some m, some n => some (holds m n)
    | _, _ => none
  if operator == "=".ascii || operator == "==".ascii then some (a == b)
  else if operator == "!=".ascii then some (a != b)
  else if operator == "-eq".ascii then compare (· == ·)
  else if operator == "-ne".ascii then compare (· != ·)
  else if operator == "-lt".ascii then compare (· < ·)
  else if operator == "-le".ascii then compare (· ≤ ·)
  else if operator == "-gt".ascii then compare (· > ·)
  else if operator == "-ge".ascii then compare (· ≥ ·)
  else none

/-- What a condition says; none if it is not well formed. -/
def condition (fs : FileSystem) : List Text → Option Bool
  | [] => some false
  | [a] => some !a.isEmpty
  | [a, b] => if a == "!".ascii then some b.isEmpty else unary fs a b
  | [a, b, c] =>
    match binary a b c with
    | some holds => some holds
    | none => if a == "!".ascii then (condition fs [b, c]).map (!·) else none
  | a :: rest => if a == "!".ascii then (condition fs rest).map (!·) else none

/-- Tells by its status whether a condition holds. -/
def test (fs : FileSystem) (args : List Text) : UtilityResult :=
  match condition fs args with
  | some holds => failed (if holds then 0 else 1)
  | none => failed 2

/-- A condition between brackets. -/
def bracket (fs : FileSystem) (args : List Text) : UtilityResult :=
  if args.getLast? == some "]".ascii then test fs args.dropLast else failed 2

/-! ## All utilities -/

/-- The seconds that the arguments of a pause add up to. -/
def pause (args : List Text) : Nat :=
  args.foldl (fun total a => total + Text.digitsValue (a.takeWhile Byte.isDigit)) 0

def all : List (String × (UtilityCall → UtilityResult)) :=
  [("true", fun _ => failed 0), ("false", fun _ => failed 1),
   ("echo", fun c => echo false c.arguments), ("printf", fun c => printf c.arguments),
   ("cat", cat), ("head", part false), ("tail", part true), ("wc", wc), ("tr", tr),
   ("sort", sort), ("seq", fun c => seq c.arguments), ("yes", fun c => yes c.arguments),
   ("ls", ls), ("pwd", pwd), ("touch", touch), ("mkdir", mkdir), ("rm", rm),
   ("basename", fun c => basename c.arguments), ("dirname", fun c => dirname c.arguments),
   ("test", fun c => test c.machine.files c.arguments),
   ("[", fun c => bracket c.machine.files c.arguments),
   ("sleep", fun c => { seconds := pause c.arguments })]

def find? (name : Text) : Option (UtilityCall → UtilityResult) :=
  (all.find? fun (key, _) => key.ascii == name).map Prod.snd

end Utility

end Shell

end Triage
