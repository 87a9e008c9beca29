import Mathlib
import ChatRelay.Retry

/-!
# How often something is tried

There is a first attempt, and there is a next one as long as they fail for a passing reason and the
policy allows it.  What they come to in all is what the last one does (`RetryPolicy.run_attempts`).

The run takes the attempts that are left from the policy, and a loop that only asks the policy for a
delay after each failure makes the same attempts (`RetryPolicy.tries_iff`).  So the number of attempts
is that of the first one that settles the matter, they start one after the other with the pauses
between them, and what would come of any further attempt is never asked for
(`RetryPolicy.run_until_settled`).

## Main definitions

* `RetryPolicy.Tries` — the attempts of a loop without a bound of its own
* `RetryPolicy.pauseAfter` — the time from a failure to the next attempt
* `RetryPolicy.EndsAt` — what such a loop does up to its last attempt
-/

namespace ChatRelay.RetryPolicy

variable {α : Type} (p : RetryPolicy) (outcome : Nat → Result α)

/-- The time from a failure to the next attempt: the delay of the policy, or a longer one that the
vendor itself asks for. -/
def pauseAfter (p : RetryPolicy) : Error → Nat
  | .remote _ _ _ _ (some ms) => if p.delayMs < ms then ms else p.delayMs
  | _ => p.delayMs

theorem pauseAfter_eq (e : Error) :
    p.pauseAfter e = max p.delayMs ((requestedDelay? e).getD 0) := by
  cases e with
  | remote status statusClass message retryable delay =>
      cases delay with
      | none => simp [pauseAfter, requestedDelay?]
      | some ms =>
          simp only [pauseAfter, requestedDelay?, Option.getD_some]
          split <;> omega
  | _ => simp [pauseAfter, requestedDelay?]

theorem delayAfter?_eq_some_iff {attempt delay : Nat} {e : Error} :
    p.delayAfter? attempt e = some delay ↔
      attempt < p.maxAttempts ∧ e.isRetryable = true ∧ delay = p.pauseAfter e := by
  rw [delayAfter?, pauseAfter_eq]
  split
  · next h =>
    simp only [Bool.or_eq_true, decide_eq_true_eq, Bool.not_eq_true'] at h
    refine iff_of_false (by simp) ?_
    rintro ⟨hlt, hretry, -⟩
    rcases h with h | h
    · omega
    · rw [hretry] at h
      cases h
  · next h =>
    simp only [Bool.or_eq_true, decide_eq_true_eq, Bool.not_eq_true', not_or,
      Bool.not_eq_false, Nat.not_le] at h
    simp [h, eq_comm]

theorem delayAfter?_eq_none_iff {attempt : Nat} {e : Error} :
    p.delayAfter? attempt e = none ↔ p.maxAttempts ≤ attempt ∨ e.isRetryable = false := by
  simp [delayAfter?, or_iff_not_imp_left]

/-- The attempts of a loop from the `k`-th one on.  After each failure it asks the policy for a
delay, and nothing else bounds it. -/
inductive Tries (p : RetryPolicy) (outcome : Nat → Result α) : (k now : Nat) → Attempts α → Prop
  | last {k now : Nat} (h : ∀ e, outcome k = .error e → p.delayAfter? k e = none) :
      Tries p outcome k now ⟨[now], outcome k⟩
  | again {k now delay : Nat} {e : Error} {later : Attempts α} (h : outcome k = .error e)
      (hdelay : p.delayAfter? k e = some delay)
      (hlater : Tries p outcome (k + 1) (now + delay) later) :
      Tries p outcome k now ⟨now :: later.startsMs, later.result⟩

/-- What a loop does from the `k`-th attempt, which starts at some time, to the `n`-th, its last. -/
structure EndsAt (p : RetryPolicy) (outcome : Nat → Result α) (k now : Nat) (a : Attempts α)
    (n : Nat) : Prop where
  le : k ≤ n
  length_add : a.startsMs.length + k = n + 1
  result_eq : a.result = outcome n
  start : a.startsMs[0]? = some now
  /-- An attempt before the last one fails for a passing reason, and the next one starts after the
  pause. -/
  passing : ∀ j, k ≤ j → j < n → ∃ e t, outcome j = .error e ∧ e.isRetryable = true ∧
    j < p.maxAttempts ∧ a.startsMs[j - k]? = some t ∧
    a.startsMs[j + 1 - k]? = some (t + p.pauseAfter e)
  /-- The last attempt settles the matter, or the policy allows no other. -/
  settled : (∀ e, outcome n = .error e → e.isRetryable = false) ∨ p.maxAttempts ≤ n

namespace Tries

variable {p outcome}
variable {k now : Nat} {a b : Attempts α}

/-- The attempts follow from what they come to. -/
theorem unique (ha : p.Tries outcome k now a) (hb : p.Tries outcome k now b) : a = b := by
  induction ha generalizing b with
  | last h =>
      cases hb with
      | last => rfl
      | again h' hdelay => simp [h _ h'] at hdelay
  | again h hdelay _ ih =>
      cases hb with
      | last h' => simp [h' _ h] at hdelay
      | again h' hdelay' hlater =>
          rw [h] at h'
          cases h'
          rw [hdelay] at hdelay'
          cases hdelay'
          rw [ih hlater]

/-- What the attempts would come to that are not made is of no concern. -/
theorem congr {other : Nat → Result α} (ha : p.Tries outcome k now a)
    (hsame : ∀ j, k ≤ j → j < k + a.startsMs.length → other j = outcome j) :
    p.Tries other k now a := by
  induction ha with
  | @last k now h =>
      have hk : other k = outcome k := hsame k (Nat.le_refl k) (by simp)
      rw [← hk]
      exact .last fun e he => h e (hk ▸ he)
  | @again k now delay e later h hdelay _ ih =>
      simp only [List.length_cons] at hsame
      refine .again ((hsame k (Nat.le_refl k) (by omega)).trans h) hdelay (ih fun j hj hlt => ?_)
      exact hsame j (by omega) (by omega)

/-- What is made of an outcome that is not a failure changes no attempt. -/
theorem map {β : Type} (f : α → β) (ha : p.Tries outcome k now a) :
    p.Tries (fun j => (outcome j).map f) k now ⟨a.startsMs, a.result.map f⟩ := by
  induction ha with
  | @last k now h =>
      refine .last fun e he => h e ?_
      cases houtcome : outcome k with
      | ok a => simp [houtcome, Except.map] at he
      | error e' => simpa [houtcome, Except.map] using he
  | again h hdelay _ ih => exact .again (by rw [h]; rfl) hdelay ih

theorem exists_endsAt (ha : p.Tries outcome k now a) : ∃ n, p.EndsAt outcome k now a n := by
  induction ha with
  | @last k now h =>
      refine ⟨k, Nat.le_refl k, Nat.add_comm 1 k, rfl, rfl, fun j hj hlt => by omega, ?_⟩
      by_cases hbound : p.maxAttempts ≤ k
      · exact Or.inr hbound
      · refine Or.inl fun e he => ?_
        exact ((p.delayAfter?_eq_none_iff).mp (h e he)).resolve_left hbound
  | @again k now delay e later h hdelay _ ih =>
      obtain ⟨n, hle, hlength, hresult, hstart, hpassing, hsettled⟩ := ih
      obtain ⟨hbound, hretry, rfl⟩ := p.delayAfter?_eq_some_iff.mp hdelay
      refine ⟨n, by omega, by simp only [List.length_cons]; omega, hresult, rfl,
        fun j hj hlt => ?_, hsettled⟩
      obtain rfl | hj := Nat.eq_or_lt_of_le hj
      · refine ⟨e, now, h, hretry, hbound, by simp, ?_⟩
        rw [Nat.add_sub_cancel_left]
        exact hstart
      · -- The later attempts stand one place further on.
        obtain ⟨e', t, he', hretry', hbound', ht, hnext⟩ := hpassing j hj hlt
        refine ⟨e', t, he', hretry', hbound', ?_, ?_⟩
        · rwa [show j - k = j - (k + 1) + 1 by omega, List.getElem?_cons_succ]
        · rwa [show j + 1 - k = j + 1 - (k + 1) + 1 by omega, List.getElem?_cons_succ]

end Tries

theorem tries_runFrom {left attempt : Nat} (now : Nat) (h : p.maxAttempts ≤ attempt + left) :
    p.Tries outcome attempt now (p.runFrom outcome left attempt now) := by
  induction left generalizing attempt now with
  | zero =>
      exact .last fun e _ => p.delayAfter?_eq_none_iff.mpr (Or.inl h)
  | succ left ih =>
      rw [runFrom]
      cases houtcome : outcome attempt with
      | ok a =>
          have hlast : p.Tries outcome attempt now ⟨[now], outcome attempt⟩ :=
            .last fun e he => by rw [houtcome] at he; cases he
          rwa [houtcome] at hlast
      | error e =>
          cases hdelay : p.delayAfter? attempt e with
          | none =>
              have hlast : p.Tries outcome attempt now ⟨[now], outcome attempt⟩ := by
                refine .last fun e' he' => ?_
                rw [houtcome] at he'
                cases he'
                exact hdelay
              rw [houtcome] at hlast
              simpa only [hdelay] using hlast
          | some delay =>
              simp only [hdelay]
              exact .again houtcome hdelay (ih (now + delay) (by omega))

/-- **The run makes the attempts of the loop,** which ends whatever they come to. -/
theorem tries_iff {a : Attempts α} : p.Tries outcome 1 0 a ↔ a = p.run outcome := by
  have hrun : p.Tries outcome 1 0 (p.run outcome) := p.tries_runFrom outcome 0 (by omega)
  constructor
  · exact fun ha => ha.unique hrun
  · rintro rfl
    exact hrun

/-- What is made of an outcome that is not a failure has no say in how often something is tried. -/
theorem run_map {β : Type} (f : α → β) :
    p.run (fun k => (outcome k).map f) =
      ⟨(p.run outcome).startsMs, (p.run outcome).result.map f⟩ :=
  ((p.tries_iff _).mp (((p.tries_iff outcome).mpr rfl).map f)).symm

theorem run_endsAt : p.EndsAt outcome 1 0 (p.run outcome) (p.run outcome).startsMs.length := by
  obtain ⟨n, hn⟩ := ((p.tries_iff outcome).mpr rfl).exists_endsAt
  have hlength := hn.length_add
  obtain rfl : n = (p.run outcome).startsMs.length := by omega
  exact hn

/-- **There are as many attempts as it takes to settle the matter,** or as the policy allows. -/
theorem isLeast_length_run :
    IsLeast {k | 1 ≤ k ∧ ((∀ e, outcome k = .error e → e.isRetryable = false) ∨
      k = max 1 p.maxAttempts)} (p.run outcome).startsMs.length := by
  have hends := p.run_endsAt outcome
  generalize (p.run outcome).startsMs.length = n at hends
  constructor
  · refine ⟨hends.le, hends.settled.imp_right fun hbound => ?_⟩
    -- The attempt before was allowed to be followed by another.
    obtain rfl | hn := Nat.eq_or_lt_of_le hends.le
    · omega
    · obtain ⟨e, t, -, -, hlt, -⟩ := hends.passing (n - 1) (by omega) (by omega)
      omega
  · rintro k ⟨hk, hsettled⟩
    by_contra hlt
    obtain ⟨e, t, he, hretry, hbound, -⟩ := hends.passing k hk (by omega)
    rcases hsettled with hfinal | rfl
    · rw [hfinal e he] at hretry
      cases hretry
    · omega

/-- **There is one attempt at least, and as many as the policy allows at most.**  Each but the last
fails for a passing reason, and they come to what the last one does. -/
theorem run_attempts :
    let n := (p.run outcome).startsMs.length
    1 ≤ n ∧ n ≤ max 1 p.maxAttempts ∧
      (∀ k, 1 ≤ k → k < n → ∃ e, outcome k = .error e ∧ e.isRetryable = true) ∧
      (p.run outcome).result = outcome n := by
  intro n
  have hends := p.run_endsAt outcome
  have hle : n ≤ max 1 p.maxAttempts :=
    (p.isLeast_length_run outcome).2 ⟨le_max_left _ _, Or.inr rfl⟩
  refine ⟨hends.le, hle, fun k hk hlt => ?_, hends.result_eq⟩
  obtain ⟨e, t, he, hretry, -⟩ := hends.passing k hk hlt
  exact ⟨e, he, hretry⟩

/-- **Something is tried until the matter is settled.**  The loop ends, and makes as many attempts as
it takes for one to succeed, to fail for a reason that does not pass, or to be the last that is
allowed.  They come to what the last one does.  The first starts at once, and each other after the
pause that the one before it asks for.  What would come of a further attempt has no influence. -/
theorem run_until_settled :
    let starts := (p.run outcome).startsMs
    (∀ a, p.Tries outcome 1 0 a ↔ a = p.run outcome) ∧
    ∃ n, IsLeast {k | 1 ≤ k ∧ ((∃ a, outcome k = .ok a) ∨
        (∃ e, outcome k = .error e ∧ e.isRetryable = false) ∨ k = max 1 p.maxAttempts)} n ∧
      starts.length = n ∧ (p.run outcome).result = outcome n ∧ starts[0]? = some 0 ∧
      (∀ k, 1 ≤ k → k < n → ∃ e t, outcome k = .error e ∧ starts[k - 1]? = some t ∧
        starts[k]? = some (t + p.pauseAfter e)) ∧
      ∀ other : Nat → Result α, (∀ k, 1 ≤ k → k ≤ n → other k = outcome k) →
        p.run other = p.run outcome := by
  intro starts
  have hends := p.run_endsAt outcome
  refine ⟨fun a => p.tries_iff outcome, starts.length, ?_, rfl, hends.result_eq, hends.start,
    fun k hk hlt => ?_, fun other hsame => ?_⟩
  · convert p.isLeast_length_run outcome using 3 with k
    rw [← or_assoc]
    refine and_congr_right fun _ => or_congr_left ?_
    cases outcome k <;> simp
  · obtain ⟨e, t, he, -, -, ht, hnext⟩ := hends.passing k hk hlt
    exact ⟨e, t, he, ht, by rwa [Nat.add_sub_cancel] at hnext⟩
  · have hother : p.Tries other 1 0 (p.run outcome) := by
      refine ((p.tries_iff outcome).mpr rfl).congr fun j hj hlt => hsame j hj ?_
      rw [Nat.add_comm] at hlt
      exact Nat.le_of_lt_succ hlt
    exact ((p.tries_iff other).mp hother).symm

end ChatRelay.RetryPolicy
