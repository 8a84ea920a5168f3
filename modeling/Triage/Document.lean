import Triage.Text

/-!
JSON documents, as far as the program looks at them.
-/

namespace Triage

/-- A JSON value. The members of an object have different names. -/
inductive Document where
  | text (s : Text)
  | object (members : List (Text × Document))
  /-- A number, an array, a truth value or null. -/
  | other

namespace Document

def text? : Document → Option Text
  | text s => some s
  | _ => none

/-- The members of an object. -/
def members? : Document → Option (List (Text × Document))
  | object members => some members
  | _ => none

end Document

end Triage
