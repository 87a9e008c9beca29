import ChatRelay.Config.Document
import ChatRelay.Config.Environment
import ChatRelay.Number.Decimal

/-!
# Settings of HTTP requests

Time limits, connections, proxy, and how often a request is sent.
-/

namespace ChatRelay

/-- The settings of HTTP requests. -/
structure HttpConfig where
  timeoutSecs : Nat
  poolIdleTimeoutSecs : Nat
  poolMaxIdlePerHost : Nat
  proxy : Option String
  /-- How often a request is sent at most. -/
  maxAttempts : UInt32
  /-- The delay between two attempts. -/
  retryDelayMs : Nat
deriving DecidableEq, Repr, Inhabited

namespace HttpConfig

/-- A natural number of 64 bits in decimal digits, as a variable holds it. -/
def seconds? (text : String) : Option Nat :=
  let digits :=
    match text.toList with
    | '+' :: ds => ds
    | ds => ds
  if digits.isEmpty || !digits.all Char.isDigit then none
  else
    let n := Number.digitsValue digits
    if n < UInt64.size then some n else none

/-- The settings where nothing else is said. Two of them can be set in the environment. -/
def default (e : Environment) : HttpConfig where
  timeoutSecs := ((e.valueOf? "EINO_HTTP_TIMEOUT_SECS").bind seconds?).getD 60
  poolIdleTimeoutSecs := 90
  poolMaxIdlePerHost := 32
  proxy := (e.valueOf? "EINO_PROXY_URL").filter (!·.isEmpty)
  maxAttempts := 2
  retryDelayMs := 500

/-- The time limit of a request, at least one second. -/
def timeoutMs (c : HttpConfig) : Nat :=
  max c.timeoutSecs 1 * 1000

def read? {ν : Type} [Document ν] (e : Environment) (v : ν) : Option HttpConfig := do
  let d := default e
  let f ← Document.fields? ["timeout_secs", "pool_idle_timeout_secs", "pool_max_idle_per_host",
    "proxy", "max_attempts", "retry_delay_ms"] v
  let timeoutSecs ← Document.field d.timeoutSecs Document.natural? (f "timeout_secs")
  let poolIdleTimeoutSecs ←
    Document.field d.poolIdleTimeoutSecs Document.natural? (f "pool_idle_timeout_secs")
  let poolMaxIdlePerHost ←
    Document.field d.poolMaxIdlePerHost Document.natural? (f "pool_max_idle_per_host")
  let proxy ← Document.field d.proxy (fun v => Document.option Document.text? (some v)) (f "proxy")
  let maxAttempts ← Document.field d.maxAttempts Document.word32? (f "max_attempts")
  let retryDelayMs ← Document.field d.retryDelayMs Document.natural? (f "retry_delay_ms")
  return { timeoutSecs, poolIdleTimeoutSecs, poolMaxIdlePerHost, proxy, maxAttempts, retryDelayMs }

def toJson (c : HttpConfig) : Json :=
  .ofMembers [("timeout_secs", .ofNat c.timeoutSecs),
    ("pool_idle_timeout_secs", .ofNat c.poolIdleTimeoutSecs),
    ("pool_max_idle_per_host", .ofNat c.poolMaxIdlePerHost),
    ("proxy", Json.ofOption .text c.proxy), ("max_attempts", .ofNat c.maxAttempts.toNat),
    ("retry_delay_ms", .ofNat c.retryDelayMs)]

end HttpConfig

end ChatRelay
