import ChatRelay.Config.Http
import ChatRelay.Error

/-!
# Repeated attempts

A request that fails for a passing reason is sent again after a delay. Time is counted in
milliseconds from the first attempt, and an attempt itself takes none.

## Main definitions

* `RetryPolicy` — the number of attempts and the delay between them
* `RetryPolicy.delayAfter?` — the delay before the next attempt, or none to give up
* `RetryPolicy.run` — the attempts that are made, given what each one would come to

## Design notes

`run` takes the outcomes of all attempts that could ever be made, so that what it looks at is a
matter of the result: it makes as many attempts as `Attempts.startsMs` is long. The recursion is on
the attempts that are left.
-/

namespace ChatRelay

/-- How often something is tried. -/
structure RetryPolicy where
  /-- The attempts in all, the first one included. -/
  maxAttempts : Nat
  delayMs : Nat
deriving DecidableEq, Repr, Inhabited

/-- What a number of attempts came to. -/
structure Attempts (α : Type) where
  /-- When each attempt started. -/
  startsMs : List Nat
  /-- The outcome of the last one. -/
  result : Result α

namespace RetryPolicy

/-- The policy of at least one attempt. -/
def ofAttempts (attempts delayMs : Nat) : RetryPolicy :=
  ⟨max attempts 1, delayMs⟩

/-- A single attempt. -/
def once : RetryPolicy := ofAttempts 1 0

/-- The policy that the settings of HTTP requests describe. -/
def ofHttp (c : HttpConfig) : RetryPolicy :=
  ofAttempts c.maxAttempts.toNat c.retryDelayMs

/-- The delay that an error asks for itself. -/
def requestedDelay? : Error → Option Nat
  | .remote _ _ _ _ delay => delay
  | _ => none

/-- The delay between an attempt that failed and the next one; none if there is no next one.
Attempts are counted from one. -/
def delayAfter? (p : RetryPolicy) (attempt : Nat) (e : Error) : Option Nat :=
  if p.maxAttempts ≤ attempt || !e.isRetryable then none
  else some (max p.delayMs ((requestedDelay? e).getD 0))

variable {α : Type}

/-- The attempts from a given one on, of which `left` may follow it. -/
def runFrom (p : RetryPolicy) (outcome : Nat → Result α) : (left attempt now : Nat) → Attempts α
  | 0, attempt, now => ⟨[now], outcome attempt⟩
  | left + 1, attempt, now =>
    match outcome attempt with
    | .ok a => ⟨[now], .ok a⟩
    | .error e =>
      match p.delayAfter? attempt e with
      | none => ⟨[now], .error e⟩
      | some delay =>
        let later := runFrom p outcome left (attempt + 1) (now + delay)
        ⟨now :: later.startsMs, later.result⟩

/-- The attempts that are made if the `k`-th one would come to `outcome k`, counted from one. -/
def run (p : RetryPolicy) (outcome : Nat → Result α) : Attempts α :=
  runFrom p outcome (p.maxAttempts - 1) 1 0

end RetryPolicy

end ChatRelay
