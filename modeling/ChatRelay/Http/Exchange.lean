import ChatRelay.Http.Status
import ChatRelay.Request.Basic
import ChatRelay.Stream.Worker

/-!
# Answers over HTTP

What a vendor answers to a request, and what comes of it: a body, an open stream, or an error.

## Main definitions

* `Http.Response` — an answer; `toBody` and `toSource` read it
* `Http.Answer` — an answer, or the failure of the connection
* `Http.isWellFormed` — whether a request can be sent at all
-/

namespace ChatRelay.Http

/-- An answer. -/
structure Response where
  status : Nat
  body : List UInt8
  /-- The header that asks for a delay. -/
  retryAfter : Option String := none
deriving DecidableEq, Repr, Inhabited

namespace Response

/-- The error of an answer other than success. -/
def failure? (r : Response) : Option Error :=
  if isSuccess r.status then none
  else some (remoteError r.status (Utf8.decode r.body) r.retryAfter)

/-- The body of a successful answer, which must be JSON. -/
def toBody (r : Response) : Result Json :=
  match r.failure? with
  | some e => .error e
  | none =>
    match (Utf8.decode? r.body).bind Json.read? with
    | some v => .ok v
    | none => .error .malformedJson

/-- The stream that a successful answer opens. -/
def toSource (format : StreamFormat) (r : Response) : Result (List SourceStep) :=
  match r.failure? with
  | some e => .error e
  | none => .ok ((format.decode [.ok r.body]).map .ofItem)

end Response

/-- What comes of sending a request. -/
inductive Answer where
  | response (r : Response)
  /-- No connection could be opened. -/
  | unreachable
deriving DecidableEq, Repr

/-- A character that a header may hold. -/
def isHeaderChar (c : Char) : Bool :=
  (32 ≤ c.toNat && c.toNat != 127) || c = '\t'

/-- Whether a request can be sent: it has an address, and its headers hold no control characters. -/
def isWellFormed (r : WireRequest) : Bool :=
  (Url.parse r.url).toBool && r.headers.all fun (_, v) => v.toList.all isHeaderChar

/-- What comes of an answer to a request. -/
def Answer.read {α : Type} (r : WireRequest) (f : Response → Result α) : Answer → Result α
  | response a => if isWellFormed r then f a else .error (.connection false)
  | unreachable => .error (.connection (isWellFormed r))

end ChatRelay.Http
