import Triage.FileSystem.Change
import Triage.Time

/-!
The token that authenticates the user against the threat intelligence service, and the file that
keeps it.
-/

namespace Triage

structure Token where
  accessToken : Text
  issuedAt : Int
  /-- The seconds for which the token is good. -/
  lifetime : Int := 3600
  deriving DecidableEq, Repr

def Token.expired (t : Token) (now : Int) : Bool :=
  Time.nanoseconds (t.issuedAt + t.lifetime) ≤ Time.nanoseconds now

inductive TokenError where
  | cannotRemove (path : Text) (cause : FileError)
  deriving DecidableEq, Repr

def TokenError.message : TokenError → Text
  | cannotRemove path cause => "cannot remove ".ascii ++ path ++ ": ".ascii ++ cause.message

namespace Token

def maxFileSize : Nat := 65536

def load (fs : FileSystem) (read : Text → Option Token) (path : Text) : Option Token :=
  (fs.readUpTo? maxFileSize path).bind read

/-- The token in a file, if it is still good. -/
def loadValid (fs : FileSystem) (read : Text → Option Token) (path : Text) (now : Int) :
    Option Token :=
  (load fs read path).filter fun t => !t.expired now

def remove (fs : FileSystem) (path : Text) : Except TokenError (FileSystem × Bool) :=
  match fs.removeFile path with
  | .ok fs => .ok (fs, true)
  | .error .notFound => .ok (fs, false)
  | .error e => .error (.cannotRemove path e)

end Token

end Triage
