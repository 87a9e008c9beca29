import ChatRelay.Proofs.Attempts
import ChatRelay.Proofs.Failures

/-!
# Errors behind names of components

An error may have names of components in front, one behind the other, and the root is what remains
without them.  Putting a name in front changes nothing where one stands already, and it never
changes the root.  All decisions about an error are decisions about its root, whether it is tried
again included (`Error.within_decides_as_root`).

The exception is how long to wait before that.  A delay that the vendor asks for is seen only in an
error without a name, so behind one the policy's own delay is kept, even where it is shorter
(`RetryPolicy.delayAfter?_eq_root_iff`).

## Main definitions

* `Error.within` — an error with names in front
-/

namespace ChatRelay

namespace Error

/-- An error with names of components and their operations in front, the outermost first. -/
def within : List (String × String) → Error → Error
  | [], e => e
  | (name, operation) :: names, e => component name operation (within names e)

@[simp] theorem root_within (names : List (String × String)) (e : Error) :
    (e.within names).root = e.root := by
  induction names with
  | nil => rfl
  | cons name names ih => exact ih

/-- The root has no name in front. -/
@[simp] theorem isNamed_root (e : Error) : e.root.isNamed = false := by
  induction e with
  | component name operation source ih => exact ih
  | _ => rfl

theorem root_of_isNamed_eq_false {e : Error} (h : e.isNamed = false) : e.root = e := by
  cases e with
  | component name operation source => cases h
  | _ => rfl

@[simp] theorem root_root (e : Error) : e.root.root = e.root :=
  root_of_isNamed_eq_false e.isNamed_root

/-- Every error is its root with names in front. -/
theorem exists_eq_within_root (e : Error) : ∃ names, e = e.root.within names := by
  induction e with
  | component name operation source ih =>
      obtain ⟨names, hnames⟩ := ih
      exact ⟨(name, operation) :: names, congrArg (component name operation) hnames⟩
  | _ => exact ⟨[], rfl⟩

theorem withComponent_of_isNamed {e : Error} (h : e.isNamed = true) (name operation : String) :
    e.withComponent name operation = e := by
  cases e with
  | component n o source => rfl
  | _ => cases h

/-! ### Decisions -/

theorem isRetryable_eq_root (e : Error) : e.isRetryable = e.root.isRetryable := by
  simp only [isRetryable, root_root]

theorem isMalformedChunk_eq_root (e : Error) : e.isMalformedChunk = e.root.isMalformedChunk := by
  simp only [isMalformedChunk, root_root]

theorem isCancelled_eq_root (e : Error) : e.isCancelled = e.root.isCancelled := by
  simp only [isCancelled, root_root]

theorem context?_eq_root (e : Error) : e.context? = e.root.context? := by
  simp only [context?, root_root]

end Error

namespace RetryPolicy

variable (p : RetryPolicy) (attempt : Nat) {e : Error}

theorem isSome_delayAfter?_iff : (p.delayAfter? attempt e).isSome = true ↔
    attempt < p.maxAttempts ∧ e.root.isRetryable = true := by
  rw [Option.isSome_iff_exists, ← e.isRetryable_eq_root]
  simp only [p.delayAfter?_eq_some_iff, exists_and_left, exists_eq, and_true]

/-- Behind a name the delay is that of the policy. -/
theorem pauseAfter_of_isNamed (h : e.isNamed = true) : p.pauseAfter e = p.delayMs := by
  cases e with
  | component name operation source => rfl
  | _ => cases h

/-- The pause is that of the policy unless the vendor asks for a longer one. -/
theorem pauseAfter_eq_delayMs_iff : p.pauseAfter e = p.delayMs ↔
    ¬ ∃ status statusClass message retryable ms,
      e = .remote status statusClass message retryable (some ms) ∧ p.delayMs < ms := by
  cases e with
  | remote status statusClass message retryable delay =>
      cases delay with
      | none => simp [pauseAfter]
      | some ms =>
          simp only [pauseAfter, Error.remote.injEq, Option.some.injEq]
          split
          · next hlonger =>
            refine iff_of_false (by omega) (not_not.mpr ?_)
            exact ⟨_, _, _, _, ms, ⟨rfl, rfl, rfl, rfl, rfl⟩, hlonger⟩
          · next hshorter =>
            refine iff_of_true rfl ?_
            rintro ⟨_, _, _, _, ms', ⟨-, -, -, -, rfl⟩, hlonger⟩
            exact hshorter hlonger
  | _ => simp [pauseAfter]

/-- **The delay after an error is that after its root,** unless a name hides a longer one that the
vendor asks for. -/
theorem delayAfter?_eq_root_iff : p.delayAfter? attempt e = p.delayAfter? attempt e.root ↔
    ¬ (e.isNamed = true ∧ attempt < p.maxAttempts ∧ ∃ status statusClass message ms,
      e.root = .remote status statusClass message true (some ms) ∧ p.delayMs < ms) := by
  cases hnamed : e.isNamed with
  | false => simp [e.root_of_isNamed_eq_false hnamed]
  | true =>
      cases hagain : p.delayAfter? attempt e with
      | none =>
          -- There is no next attempt for the root either.
          have hnone : p.delayAfter? attempt e.root = none := by
            rw [p.delayAfter?_eq_none_iff, ← e.isRetryable_eq_root]
            exact p.delayAfter?_eq_none_iff.mp hagain
          refine iff_of_true hnone.symm ?_
          rintro ⟨-, hlt, status, statusClass, message, ms, hroot, -⟩
          rw [p.delayAfter?_eq_none_iff, hroot] at hnone
          rcases hnone with hle | hretry
          · omega
          · cases hretry
      | some delay =>
          obtain ⟨hlt, hretry, rfl⟩ := p.delayAfter?_eq_some_iff.mp hagain
          rw [e.isRetryable_eq_root] at hretry
          have hroot : p.delayAfter? attempt e.root = some (p.pauseAfter e.root) :=
            p.delayAfter?_eq_some_iff.mpr ⟨hlt, hretry, rfl⟩
          rw [hroot, p.pauseAfter_of_isNamed hnamed, Option.some.injEq, eq_comm,
            p.pauseAfter_eq_delayMs_iff]
          refine not_congr ⟨?_, ?_⟩
          · rintro ⟨status, statusClass, message, retryable, ms, he, hlonger⟩
            have hretryable : retryable = true := by rwa [he] at hretry
            exact ⟨rfl, hlt, status, statusClass, message, ms, hretryable ▸ he, hlonger⟩
          · rintro ⟨-, -, status, statusClass, message, ms, he, hlonger⟩
            exact ⟨status, statusClass, message, true, ms, he, hlonger⟩

end RetryPolicy

namespace Error

/-- **Names in front of an error change no decision.**  However many there are, the root stays as it
is, without any, and so does whether the error passes, is about a chunk or is the consumer's doing,
and what its context is.  One more name is put in front where there is none, and otherwise nothing is.
The next attempt is made, or not, as after the root.  It is made after the same delay unless a name
hides a longer one that the vendor asks for; then the delay of the policy is kept. -/
theorem within_decides_as_root (p : RetryPolicy) (attempt : Nat) (names : List (String × String))
    (e : Error) :
    let f := e.within names
    f.root = e.root ∧ e.root.isNamed = false ∧ (∃ inner, e = e.root.within inner) ∧
    f.isRetryable = e.root.isRetryable ∧ f.isMalformedChunk = e.root.isMalformedChunk ∧
    f.isCancelled = e.root.isCancelled ∧ f.context? = e.root.context? ∧
    (∀ name operation, (f.withComponent name operation).root = e.root ∧
      (f.isNamed = true → f.withComponent name operation = f) ∧
      (f.isNamed = false → f.withComponent name operation = component name operation f)) ∧
    ((p.delayAfter? attempt f).isSome = true ↔ (p.delayAfter? attempt e.root).isSome = true) ∧
    (p.delayAfter? attempt f = p.delayAfter? attempt e.root ↔
      ¬ (f.isNamed = true ∧ attempt < p.maxAttempts ∧ ∃ status statusClass message ms,
        e.root = .remote status statusClass message true (some ms) ∧ p.delayMs < ms)) ∧
    ∀ delay, f.isNamed = true → p.delayAfter? attempt f = some delay → delay = p.delayMs := by
  intro f
  have hroot : f.root = e.root := root_within names e
  refine ⟨hroot, e.isNamed_root, e.exists_eq_within_root, ?_⟩
  rw [← hroot]
  refine ⟨f.isRetryable_eq_root, f.isMalformedChunk_eq_root, f.isCancelled_eq_root,
    f.context?_eq_root, fun name operation => ⟨?_, ?_, ?_⟩, ?_,
    p.delayAfter?_eq_root_iff attempt, fun delay hnamed hdelay => ?_⟩
  · exact root_withComponent f name operation
  · exact fun hnamed => withComponent_of_isNamed hnamed name operation
  · exact fun hnamed => withComponent_of_isNamed_eq_false hnamed name operation
  · rw [p.isSome_delayAfter?_iff, p.isSome_delayAfter?_iff, root_root]
  · rw [(p.delayAfter?_eq_some_iff.mp hdelay).2.2, p.pauseAfter_of_isNamed hnamed]

/-- A vendor that asks for two seconds, behind the name of a component. -/
def slowedBehindName : Error :=
  .component "proxy" "send" (.remote 429 "rate_limited" "slow down" true (some 2000))

/-- The two seconds are kept after the error itself, and not behind the name. -/
theorem delayAfter?_slowedBehindName_ne :
    (RetryPolicy.ofAttempts 3 30).delayAfter? 1 slowedBehindName ≠
      (RetryPolicy.ofAttempts 3 30).delayAfter? 1 slowedBehindName.root := by
  decide

end Error

end ChatRelay
