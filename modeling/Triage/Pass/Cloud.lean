import Triage.Cloud
import Triage.Content
import Triage.Fingerprint
import Triage.Pass

/-!
The pass that asks the threat intelligence service. Without permission to do so, or without a valid
token, it is skipped; so it is if the service cannot be asked.
-/

namespace Triage

namespace CloudPass

def name : Text := "cloud".ascii

/-- The finding about a tree whose fingerprint is known. -/
def threatFinding (t : Threat) : Finding where
  phase := .threatIntel
  rule := "CLOUD-THREAT".ascii
  source := Signature.source
  severity := .high
  file := Path.dot
  line := none
  snippet := "Known threat: ".ascii ++ t.name ++
    (if t.description.isEmpty then [] else ": ".ascii ++ t.description)
  weight := sourceWeight Signature.source

def signatureFindings (input : ScanInput) (rules : List LineRule) : List Finding :=
  (input.entries.filter FileEntry.eligible).flatMap fun f =>
    match Content.load input.machine.files input.config.maxFileBytes f with
    | .ok text => LineRule.findAll rules input.config.phases f.path text
    | .error _ => []

/-- The steps when the service has answered. -/
def answeredSteps (input : ScanInput) (threat : Option Threat) (signatures : List Signature) :
    List PassStep :=
  let (rules, rejected) := Signature.compile signatures
  rejected.map (fun id =>
    .note name ("signature ".ascii ++ id ++ " has an invalid pattern, skipped".ascii)) ++
  [.found name ((threat.map threatFinding).toList ++ signatureFindings input rules),
   .status name .ran
    ((if threat.isSome then "fingerprint match".ascii else "no fingerprint match".ascii) ++
      ", ".ascii ++ Text.ofNat rules.length ++ " signatures".ascii)]

/-- The steps when the service cannot be asked. -/
def unavailableSteps (reason : Text) : List PassStep :=
  [.log (.warn ("cloud intelligence unavailable: ".ascii ++ reason)), .status name .skipped reason]

def fingerprint (input : ScanInput) : Except FingerprintError (Text × List PassStep) :=
  if input.fingerprint.isEmpty then
    (Fingerprint.ofTree input.machine.files input.root).map fun value =>
      (value, [.report (.fingerprint value)])
  else .ok (input.fingerprint, [])

def ask (answer : Request → Reply) (input : ScanInput) (token : Token) : List PassStep :=
  match fingerprint input with
  | .error e => unavailableSteps e.message
  | .ok (value, steps) =>
    match (Cloud.lookup input.config input.formats token.accessToken value).answered answer with
    | .error e => steps ++ unavailableSteps e.message
    | .ok threat =>
      let signatures := Cloud.signatures input.config input.formats input.machine.files input.now
        token.accessToken false
      match signatures.answered answer with
      | .error e => steps ++ unavailableSteps e.message
      | .ok signatures => steps ++ answeredSteps input threat signatures

def steps (answer : Request → Reply) (input : ScanInput) : List PassStep :=
  if input.config.offline then [.status name .skipped "offline".ascii]
  else
    match Token.loadValid input.machine.files input.formats.token input.config.tokenFile
        input.now with
    | none => [.status name .skipped "unauthenticated".ascii]
    | some token => ask answer input token

end CloudPass

/-- The pass of threat intelligence, with a way to send requests. -/
def cloudPass (answer : Request → Reply) : Pass where
  name := CloudPass.name
  description := "Cloud threat intelligence (fingerprint lookup, remote signatures)".ascii
  run input := .ofSteps (CloudPass.steps answer input)

end Triage
