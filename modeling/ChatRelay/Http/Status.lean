import ChatRelay.Error
import ChatRelay.Json.Reader
import ChatRelay.Number.Decimal
import ChatRelay.Text.Blank

/-!
# Answers other than success

## Main definitions

* `Http.statusClass`, `Http.isTransient` — the class of a status, and whether its cause may pass
* `Http.retryAfter?` — the delay that a `Retry-After` header asks for
* `Http.remoteError` — the error of an answer, in the vendor's own words if it gives any
-/

namespace ChatRelay.Http

/-- The class of a status. -/
def statusClass (status : Nat) : String :=
  if status = 400 then "invalid_request"
  else if status = 401 then "authentication"
  else if status = 403 then "permission_denied"
  else if status = 404 then "not_found"
  else if status = 408 || status = 504 then "timeout"
  else if status = 409 then "conflict"
  else if status = 413 then "request_too_large"
  else if status = 429 then "rate_limited"
  else if status = 500 || status = 502 then "server_error"
  else if status = 503 || status = 529 then "overloaded"
  else "http_error"

/-- The classes whose cause may pass. -/
def transientClasses : List String := ["rate_limited", "overloaded", "server_error", "timeout"]

/-- Whether the same request may succeed later. -/
def isTransient (status : Nat) : Bool :=
  transientClasses.contains (statusClass status)

/-- Whether a status reports success. -/
def isSuccess (status : Nat) : Bool :=
  200 ≤ status && status < 300

/-- The decimal text of a number, as a header has it: digits with an optional sign, point and
exponent, and at least one digit. -/
def decimal? (cs : List Char) : Option Number.Literal :=
  let (negative, cs) :=
    match cs with
    | '-' :: cs => (true, cs)
    | '+' :: cs => (false, cs)
    | cs => (false, cs)
  let whole := cs.takeWhile Char.isDigit
  let (fraction, rest) :=
    match cs.dropWhile Char.isDigit with
    | '.' :: cs => (cs.takeWhile Char.isDigit, cs.dropWhile Char.isDigit)
    | cs => ([], cs)
  if whole.isEmpty && fraction.isEmpty then none
  else
    match rest with
    | [] => some ⟨negative, whole, fraction, 0⟩
    | e :: cs =>
      let (sign, ds) : Int × List Char :=
        match cs with
        | '-' :: ds => (-1, ds)
        | '+' :: ds => (1, ds)
        | ds => (1, ds)
      if (e == 'e' || e == 'E') && !ds.isEmpty && ds.all Char.isDigit then
        some ⟨negative, whole, fraction, sign * Number.digitsValue ds⟩
      else none

/-- The longest delay that is told, in milliseconds. -/
def longestDelay : Nat := UInt32.size - 1

/-- The whole milliseconds of a number of seconds, at most the longest delay. -/
def milliseconds (seconds : Number.Binary) : Nat :=
  match (Number.Binary.ofNat? 1000).bind seconds.mul? with
  | some ms => min ms.floor longestDelay
  | none => longestDelay

/-- The delay of a `Retry-After` header that gives seconds, in milliseconds. A date, a negative
number and a number beyond every double give none. -/
def retryAfter? (value : String) : Option Nat := do
  let literal ← decimal? (Text.trimChars value.toList)
  let seconds ← literal.nearest?
  if seconds.negative && !seconds.isZero then none else some (milliseconds seconds)

/-- What a vendor says about an error in a JSON body. -/
def vendorMessage? (body : Json) : Option String :=
  (body.textAt? ["error", "message"]).or
    (((body.get? "error").bind Json.asText?).or ((body.get? "message").bind Json.asText?))

/-- What is said about an answer whose body holds no message: the body itself, cut after 512
characters, or the status. -/
def plainMessage (status : Nat) (body : String) : String :=
  let text := Text.trimChars body.toList
  if text.isEmpty then "HTTP " ++ toString status else String.ofList (text.take 512)

/-- The error of an answer other than success. -/
def remoteError (status : Nat) (body : String) (retryAfter : Option String) : Error :=
  .remote status (statusClass status)
    (((Json.read? body).bind vendorMessage?).getD (plainMessage status body))
    (isTransient status) (retryAfter.bind retryAfter?)

end ChatRelay.Http
