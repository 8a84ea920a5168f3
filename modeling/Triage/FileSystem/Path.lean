import Triage.Text

/-!
Written paths, taken apart without looking at any file.

The elements of a path are its names; a leading slash is an element of its own and a slash at the
end stands before an empty last element. Normalising a path is a fold that pushes one element
after the other onto a stack of names.
-/

namespace Triage

namespace Path

def dot : Text := ".".ascii
def dotDot : Text := "..".ascii

def isAbsolute (path : Text) : Bool := path.head? == some Byte.slash

def names (path : Text) : List Text := (Text.splitOn Byte.slash path).filter fun name => !name.isEmpty

/-- Whether something, and then a slash, stands at the end. -/
def endsInSlash (path : Text) : Bool := path.getLast? == some Byte.slash

/-- The elements of a path: the root directory, the names, and an empty one for a slash after the
last name. -/
def elements (path : Text) : List Text :=
  let inner := names path
  let root := if isAbsolute path then [[Byte.slash]] else []
  let tail := if endsInSlash path && !inner.isEmpty then [[]] else []
  root ++ inner ++ tail

/-- Puts one path after another; an absolute path replaces what stands before it. -/
def join (first second : Text) : Text :=
  if isAbsolute second then second
  else if first.isEmpty || endsInSlash first then first ++ second
  else first ++ [Byte.slash] ++ second

def ofElements (elements : List Text) : Text := elements.foldl join []

/-- The last element: the last name, or nothing after a slash. -/
def fileName (path : Text) : Text := Text.baseName path

/-- The path without its last element and the slashes before that; the root is its own parent. -/
def parent (path : Text) : Text :=
  let before := path.reverse.dropWhile (· != Byte.slash)
  let stripped := (before.dropWhile (· == Byte.slash)).reverse
  if stripped.isEmpty && !before.isEmpty then [Byte.slash] else stripped

/-! ## Normal form -/

/-- A path under normalisation: the names so far, last one first, and whether a slash ends it. -/
structure Stack where
  absolute : Bool
  names : List Text
  slash : Bool
  deriving DecidableEq, Repr

/-- Pushes an element: a dot vanishes, two dots take back a name. -/
def Stack.push (s : Stack) (element : Text) : Stack :=
  if element == dotDot then
    match s.names with
    | [] => if s.absolute then s else { s with names := [dotDot] }
    | top :: rest =>
      if top == dotDot then { s with names := dotDot :: s.names, slash := false }
      else { s with names := rest, slash := !rest.isEmpty }
  else if element.isEmpty || element == dot then { s with slash := !s.names.isEmpty }
  else { s with names := element :: s.names, slash := false }

def Stack.text (s : Stack) : Text :=
  let slash := s.slash && s.names.head? != some dotDot
  let inner := Text.joinWith [Byte.slash] s.names.reverse ++ (if slash then [Byte.slash] else [])
  if s.absolute then Byte.slash :: inner else if inner.isEmpty then dot else inner

/-- The same location without dots, without two dots after a name, and without doubled slashes. -/
def normal (path : Text) : Text :=
  if path.isEmpty then []
  else
    let inner := (elements path).filter fun e => e != [Byte.slash]
    (inner.foldl Stack.push ⟨isAbsolute path, [], false⟩).text

/-! ## Relative paths -/

/-- The two lists without the elements they start with in common. -/
def dropCommon : List Text → List Text → List Text × List Text
  | a :: as, b :: bs => if a == b then dropCommon as bs else (a :: as, b :: bs)
  | as, bs => (as, bs)

/-- How many directories a list of elements leads down, two dots counting as one up. -/
def depth (elements : List Text) : Int :=
  elements.foldl (fun n e => if e == dotDot then n - 1 else if e.isEmpty || e == dot then n else n + 1) 0

/-- The elements that lead from `base` to `path`, judged by their writing alone; none if there is
no such way. -/
def relativeElements (path base : Text) : List Text :=
  if isAbsolute path != isAbsolute base then []
  else
    match dropCommon (elements path) (elements base) with
    | ([], []) => [dot]
    | (ahead, back) =>
      let up := depth back
      if up == 0 && (ahead.isEmpty || ahead.head? == some []) then [dot]
      else if up < 0 then []
      else List.replicate up.toNat dotDot ++ ahead

/-- The path that leads from `base` to `path`, or the empty path. -/
def relative (path base : Text) : Text := ofElements (relativeElements path base)

end Path

end Triage
