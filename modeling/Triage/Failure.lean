import Triage.CommandLine
import Triage.Config.Validation
import Triage.Pool
import Triage.Scan

/-!
Everything that can make a command fail, with its wording and its kind.
-/

namespace Triage

/-- The kinds of failures that callers tell apart. -/
inductive FailureKind where
  /-- Input is ill-formed; nothing was done. -/
  | validation
  | quarantine (kind : QuarantineErrorKind)
  /-- No answer was obtained from a service. -/
  | network
  /-- Score, verdict and findings do not fit together. -/
  | scoring
  | other
  deriving DecidableEq, Repr

inductive Failure where
  | usage (cause : ParseError)
  | config (cause : ConfigError)
  | source (cause : SourceError)
  | quarantine (cause : QuarantineError)
  | score (cause : ScoreError)
  | storage (cause : StorageError)
  | scan (cause : ScanError)
  | target (cause : TargetError)
  | fingerprint (cause : FingerprintError)
  | cloud (cause : CloudError)
  | token (cause : TokenError)
  | process (cause : ProcessError)
  | pool (cause : PoolError)
  | unknownSetting (key : Text)
  | credentialsMissing
  | notLoggedIn
  /-- A command asked for an argument, counted from zero, that it does not have. -/
  | noArgument (index : Nat)
  /-- Something that this program cannot do. -/
  | unavailable (what : Text)
  deriving DecidableEq, Repr

namespace Failure

def message : Failure → Text
  | usage cause => cause.message
  | config cause => cause.message
  | source cause => cause.message
  | quarantine cause => cause.message
  | score cause => cause.message
  | storage cause => cause.message
  | scan cause => cause.message
  | target cause => cause.message
  | fingerprint cause => cause.message
  | cloud cause => cause.message
  | token cause => cause.message
  | process cause => cause.message
  | pool cause => cause.message
  | unknownSetting key => "unknown config key '".ascii ++ key ++ "'".ascii
  | credentialsMissing => "login requires an email and a password".ascii
  | notLoggedIn => "not logged in (run: sigil login)".ascii
  | noArgument index => "no argument ".ascii ++ Text.ofNat index
  | unavailable what => what ++ " is not available".ascii

def quarantineKind (e : QuarantineError) : FailureKind :=
  match e.kind with
  | .invalidSource => .validation
  | kind => .quarantine kind

def storageKind : StorageError → FailureKind
  | .invalidItem _ | .malformed _ => .validation
  | .cannotCreate .. | .tooManyReports .. | .cannotRead _ => .other

def scanKind : ScanError → FailureKind
  | .notDirectory _ => .other
  | .score _ => .scoring
  | .storage cause => storageKind cause

def kind : Failure → FailureKind
  | usage (.usage _) | config _ | source _ | unknownSetting _ | credentialsMissing => .validation
  | quarantine cause => quarantineKind cause
  | target (.quarantine cause) => quarantineKind cause
  | score _ => .scoring
  | storage cause => storageKind cause
  | scan cause => scanKind cause
  | cloud (.network _) => .network
  | usage (.number _) | target (.unknown _) | fingerprint _ | cloud _ | token _ | process _ | pool _
  | notLoggedIn | noArgument _ | unavailable _ => .other

end Failure

end Triage
