import Triage.Cloud.Exchange
import Triage.Config
import Triage.Formats

/-!
The threat intelligence service: looking up the fingerprint of a tree, and fetching signatures.
-/

namespace Triage

inductive CloudError where
  /-- There is no way to send requests. -/
  | noTransport
  | network (cause : NetworkFailure)
  | lookupStatus (status : Int)
  | malformedLookup
  | fetchStatus (status : Int)
  | malformedSignatures
  deriving DecidableEq, Repr

def CloudError.message : CloudError → Text
  | noTransport => "cloud client requires a transport".ascii
  | network cause => cause.message
  | lookupStatus status => "threat lookup returned HTTP ".ascii ++ Text.ofInt status
  | malformedLookup => "malformed threat lookup response".ascii
  | fetchStatus status => "signature fetch returned HTTP ".ascii ++ Text.ofInt status
  | malformedSignatures => "malformed signature response".ascii

namespace Cloud

/-! ## Requests -/

def address (c : Config) (path : Text) : Text :=
  (c.apiEndpoint.reverse.dropWhile (· == Byte.slash)).reverse ++ path

def request (c : Config) (accessToken path : Text) : Request :=
  { method := "GET".ascii
    url := address c path
    headers := [("Accept".ascii, "application/json".ascii),
                ("Authorization".ascii, "Bearer ".ascii ++ accessToken)]
    body := []
    timeout := c.httpTimeout }

/-! ## Threats -/

/-- What the body of an answer says about a fingerprint; a blank one says nothing. -/
def threatIn (formats : Formats) (body : Text) : Except CloudError (Option Threat) :=
  let body := Text.trim body
  if body.isEmpty then .ok none
  else
    match formats.threat body with
    | some threat => .ok threat
    | none => .error .malformedLookup

def threatOf (formats : Formats) : Reply → Except CloudError (Option Threat)
  | .error e => .error (.network e)
  | .ok response =>
    if response.status = 404 then .ok none
    else if response.isSuccess then threatIn formats response.body
    else .error (.lookupStatus response.status)

def lookup (c : Config) (formats : Formats) (accessToken fingerprint : Text) :
    Exchange (Except CloudError (Option Threat)) :=
  .send (request c accessToken ("/v1/threat/".ascii ++ fingerprint)) fun reply =>
    .done (threatOf formats reply)

/-! ## Signatures -/

def signaturesOf (formats : Formats) : Reply → Except CloudError (List Signature)
  | .error e => .error (.network e)
  | .ok response =>
    if !response.isSuccess then .error (.fetchStatus response.status)
    else
      match formats.signatures response.body with
      | some signatures => .ok signatures
      | none => .error .malformedSignatures

def fetch (c : Config) (formats : Formats) (accessToken : Text) :
    Exchange (Except CloudError (List Signature)) :=
  .send (request c accessToken "/v1/signatures".ascii) fun reply =>
    .done (signaturesOf formats reply)

/-- The file in which signatures are kept. -/
def keptPath (c : Config) : Text := Path.join c.cacheDir "signatures.json".ascii

/-- The seconds for which kept signatures are used. -/
def keptFor : Int := 24 * 3600

/-- The kept signatures, if they are not too old. -/
def kept? (c : Config) (formats : Formats) (fs : FileSystem) (now : Int) : Option (List Signature) :=
  ((fs.readAll? (keptPath c)).bind formats.keptSignatures).bind fun (fetched, signatures) =>
    if fetched ≤ now && now < fetched + keptFor then some signatures else none

def signatures (c : Config) (formats : Formats) (fs : FileSystem) (now : Int) (accessToken : Text)
    (force : Bool) : Exchange (Except CloudError (List Signature)) :=
  match if force then none else kept? c formats fs now with
  | some signatures => .done (.ok signatures)
  | none => fetch c formats accessToken

end Cloud

end Triage
