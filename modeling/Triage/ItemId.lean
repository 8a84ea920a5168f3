import Triage.Sha256
import Triage.FileSystem.Lookup

/-!
The ids of items. An id is made of letters, digits and underscores, so that it can be the name of
a directory. Generated ids hold a slug of a descriptor: its letters and digits, with one
underscore for whatever stands between them.
-/

namespace Triage

namespace ItemId

def isIdByte (b : UInt8) : Bool := Byte.isLetterOrDigit b || b == '_'.ascii

/-- Whether a text can be the id of an item. -/
def isValid (id : Text) : Bool := !id.isEmpty && id.length ≤ 255 && id.all isIdByte

def maxSlug : Nat := 64

/-- The runs of letters and digits in a text. -/
def words (s : Text) : List Text :=
  (Text.splitOn '_'.ascii (s.map fun b => if Byte.isLetterOrDigit b then b else '_'.ascii)).filter
    fun word => !word.isEmpty

/-- The slug of a descriptor. -/
def slugify (descriptor : Text) : Text :=
  let slug := Text.dropLastIf '_'.ascii
    ((Text.joinWith "_".ascii (words descriptor)).take maxSlug)
  if slug.isEmpty then "item".ascii else slug

/-- The id of a tree that is not quarantined: a slug of its name, and the start of the digest of its
canonical path. -/
def ofPath (fs : FileSystem) (path : Text) : Text :=
  let full :=
    match fs.canonical path with
    | .ok full => full
    | .error _ => fs.absolute path
  let name := Path.fileName full
  "path_".ascii ++ slugify (if name.isEmpty then "root".ascii else name) ++ "_".ascii ++
    (Sha256.hex full).take 8

end ItemId

end Triage
