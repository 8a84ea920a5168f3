import Triage.FileSystem.Lookup
import Triage.Source

/-!
What can go wrong in the quarantine.
-/

namespace Triage

inductive QuarantineErrorKind where
  | invalidSource | invalidId | pathEscape | notFound | alreadyExists | io
  deriving DecidableEq, Repr

inductive QuarantineError where
  | invalidSource (cause : SourceError)
  | invalidId (id : Text)
  | cannotResolve (path : Text) (cause : FileError)
  /-- The entry of the id is not directly below its root. -/
  | escapes (id base : Text)
  | isLink (id : Text)
  | notDirectory (path : Text)
  | noSource (path : Text)
  | unusableSource (path : Text)
  | noItemAt (path : Text)
  | noItem (id : Text)
  | notQuarantined (id : Text)
  | isApproved (id : Text)
  | alreadyApproved (id : Text)
  | tooManyItems (id : Text)
  | cannotCreate (path : Text) (cause : FileError)
  | cannotOpen (path : Text) (cause : FileError)
  | cannotCopy (source target : Text) (cause : FileError)
  | cannotDescribe (path : Text)
  | cannotApprove (id : Text) (cause : FileError)
  | cannotReject (id : Text) (cause : FileError)
  | cannotDelete (id path : Text) (cause : FileError)
  deriving DecidableEq, Repr

namespace QuarantineError

def kind : QuarantineError → QuarantineErrorKind
  | invalidSource _ => .invalidSource
  | invalidId _ => .invalidId
  | escapes .. | isLink _ | notDirectory _ => .pathEscape
  | noSource _ | noItemAt _ | noItem _ | notQuarantined _ | isApproved _ => .notFound
  | alreadyApproved _ | tooManyItems _ => .alreadyExists
  | cannotResolve .. | unusableSource _ | cannotCreate .. | cannotOpen .. | cannotCopy ..
  | cannotDescribe _ | cannotApprove .. | cannotReject .. | cannotDelete .. => .io

def quoted (s : Text) : Text := "'".ascii ++ s ++ "'".ascii

def message : QuarantineError → Text
  | invalidSource cause => cause.message
  | invalidId id => "invalid quarantine id ".ascii ++ quoted id
  | cannotResolve path cause => "cannot resolve ".ascii ++ path ++ ": ".ascii ++ cause.message
  | escapes id base => "quarantine id ".ascii ++ quoted id ++ " escapes ".ascii ++ base
  | isLink id => "quarantine entry ".ascii ++ quoted id ++ " is a symlink".ascii
  | notDirectory path => "item is not a directory: ".ascii ++ path
  | noSource path => "no such path: ".ascii ++ path
  | unusableSource path => "not a file or directory: ".ascii ++ path
  | noItemAt path => "no such item: ".ascii ++ path
  | noItem id => "no quarantine item ".ascii ++ quoted id
  | notQuarantined id => "no quarantined item ".ascii ++ quoted id
  | isApproved id => "item ".ascii ++ quoted id ++ " is approved, not quarantined".ascii
  | alreadyApproved id => "item ".ascii ++ quoted id ++ " is already approved".ascii
  | tooManyItems id => "too many items named ".ascii ++ id
  | cannotCreate path cause => "cannot create ".ascii ++ path ++ ": ".ascii ++ cause.message
  | cannotOpen path cause => "cannot open ".ascii ++ path ++ ": ".ascii ++ cause.message
  | cannotCopy source target cause =>
    "cannot copy into quarantine: filesystem error: cannot copy: ".ascii ++ cause.message ++
      " [".ascii ++ source ++ "] [".ascii ++ target ++ "]".ascii
  | cannotDescribe path => "cannot write ".ascii ++ path
  | cannotApprove id cause =>
    "cannot approve ".ascii ++ quoted id ++ ": ".ascii ++ cause.message
  | cannotReject id cause => "cannot reject ".ascii ++ quoted id ++ ": ".ascii ++ cause.message
  | cannotDelete id path cause =>
    "rejected ".ascii ++ quoted id ++ " but could not delete ".ascii ++ path ++ ": ".ascii ++
      cause.message

end QuarantineError

end Triage
