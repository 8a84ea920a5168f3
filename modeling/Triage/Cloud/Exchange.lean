import Triage.Text

/-!
Exchanges with a web service: requests, each of which is answered before the next is sent.

What is sent may depend on the answers, and no network is needed to say what an exchange does: it
is run against any way of answering requests.
-/

namespace Triage

structure Request where
  method : Text
  url : Text
  headers : List (Text × Text)
  body : Text
  timeout : Int
  deriving DecidableEq, Repr

structure Response where
  status : Int
  body : Text
  deriving DecidableEq, Repr

/-- Whether the status says that the request was carried out. -/
def Response.isSuccess (r : Response) : Bool := 200 ≤ r.status && r.status < 300

/-- Why a request had no response. -/
structure NetworkFailure where
  message : Text
  deriving DecidableEq, Repr

/-- What comes of a request. -/
abbrev Reply := Except NetworkFailure Response

/-- A row of requests that ends with a value. -/
inductive Exchange (α : Type) where
  | done (value : α)
  | send (request : Request) (next : Reply → Exchange α)

namespace Exchange

/-- The exchange with another value at its end. -/
def map {α β : Type} (f : α → β) : Exchange α → Exchange β
  | done value => done (f value)
  | send request next => send request fun reply => (next reply).map f

/-- The value at the end when every request is answered by `answer`. -/
def answered {α : Type} (answer : Request → Reply) : Exchange α → α
  | done value => value
  | send request next => (next (answer request)).answered answer

/-- The failure of a request for which no reply is left. -/
def noReply : NetworkFailure := ⟨"no reply".ascii⟩

/-- The value at the end and the requests sent when the replies are given one after the other. -/
def replayed {α : Type} : List Reply → Exchange α → α × List Request
  | _, done value => (value, [])
  | [], send request next =>
    let (value, sent) := (next (.error noReply)).replayed []
    (value, request :: sent)
  | reply :: replies, send request next =>
    let (value, sent) := (next reply).replayed replies
    (value, request :: sent)

end Exchange

end Triage
