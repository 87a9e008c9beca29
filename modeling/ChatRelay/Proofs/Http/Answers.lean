import ChatRelay.Http.Exchange
import ChatRelay.Proofs.Chat.Sending

/-!
# Calls that are answered over HTTP

An answer settles a call if it reports success, or has a status that is no reason to ask again.  The
vendor is asked until an answer settles the call or the policy allows no other request, and an answer
without success that comes last is the error of the call (`LiveCall.asks_until_answered`).

Which statuses are a reason to ask again is a matter of their class (`Http.isTransient_iff`).  Of
those of a server that fails there are but five, and after any other of them the vendor is not asked
again.

## Main definitions

* `Http.transientStatuses` — the statuses that are a reason to ask again
* `Http.FailsLike` — a reader that fails where the answer does
* `Demand.overHttp` — what is asked for, when the vendor answers over HTTP
-/

namespace ChatRelay

open Result

namespace Http

/-- The statuses after which the same request is sent again. -/
def transientStatuses : List Nat := [408, 429, 500, 502, 503, 504, 529]

/-- **Of all statuses seven are a reason to ask again.** -/
theorem isTransient_iff {status : Nat} :
    isTransient status = true ↔ status ∈ transientStatuses := by
  constructor
  · intro h
    by_contra hs
    simp only [transientStatuses, List.mem_cons, List.not_mem_nil, or_false, not_or] at hs
    obtain ⟨h408, h429, h500, h502, h503, h504, h529⟩ := hs
    -- The classes that are left are no reason to ask again.
    have hlasting : isTransient status = false := by
      simp only [isTransient, statusClass, h408, h429, h500, h502, h503, h504, h529, decide_false,
        Bool.or_self, Bool.false_eq_true, if_false]
      split_ifs <;> decide
    rw [hlasting] at h
    cases h
  · intro h
    have hall : ∀ s ∈ transientStatuses, isTransient s = true := by decide
    exact hall status h

/-- If every failure of the server were a reason to ask again, the same answer would come last, unless
it has such a status that is not one of the seven, and another is allowed. -/
theorem isLeast_ofServer_iff {status : Nat → Nat} {allowed n : Nat}
    (hleast : IsLeast {k | 1 ≤ k ∧ (isSuccess (status k) = true ∨ status k ∉ transientStatuses ∨
      k = allowed)} n) :
    IsLeast {k | 1 ≤ k ∧ (isSuccess (status k) = true ∨
      ¬ (status k = 408 ∨ status k = 429 ∨ 500 ≤ status k ∧ status k < 600) ∨ k = allowed)} n ↔
      (500 ≤ status n → status n < 600 → status n ∈ transientStatuses ∨ n = allowed) := by
  constructor
  · rintro ⟨⟨-, hsuccess | hother | hlast⟩, -⟩ hserver hbelow
    · simp only [isSuccess, Bool.and_eq_true, decide_eq_true_eq] at hsuccess
      omega
    · exact absurd (Or.inr (Or.inr ⟨hserver, hbelow⟩)) hother
    · exact Or.inr hlast
  · intro hserver
    refine ⟨⟨hleast.1.1, hleast.1.2.imp_right ?_⟩, ?_⟩
    · rintro (hother | hlast)
      · by_cases hstatus : 500 ≤ status n ∧ status n < 600
        · exact Or.inr ((hserver hstatus.1 hstatus.2).resolve_left hother)
        · simp only [transientStatuses, List.mem_cons, not_or] at hother
          exact Or.inl (by omega)
      · exact Or.inr hlast
    · -- More answers settle the call than would do so then.
      rintro k ⟨hk, hsettled⟩
      refine hleast.2 ⟨hk, hsettled.imp_right (Or.imp_left fun hother hmem => hother ?_)⟩
      simp only [transientStatuses, List.mem_cons, List.not_mem_nil, or_false] at hmem
      omega

/-- A reader of answers that fails as the answer does, and on success with no error that passes. -/
structure FailsLike {α : Type} (read : Response → Result α) : Prop where
  eq_error : ∀ a, isSuccess a.status = false →
    read a = .error (remoteError a.status (Utf8.decode a.body) a.retryAfter)
  lasting : ∀ a, isSuccess a.status = true → ∀ e, read a = .error e → e.isRetryable = false

theorem failure?_eq (a : Response) : a.failure? = if isSuccess a.status then none
    else some (remoteError a.status (Utf8.decode a.body) a.retryAfter) := rfl

theorem failsLike_toBody : FailsLike Response.toBody where
  eq_error a h := by rw [Response.toBody, failure?_eq, h]; rfl
  lasting a h e he := by
    rw [Response.toBody, failure?_eq, h, if_pos rfl] at he
    cases hread : (Utf8.decode? a.body).bind Json.read? with
    | none =>
        simp only [hread] at he
        cases he
        rfl
    | some v => simp [hread] at he

theorem failsLike_toSource (format : StreamFormat) : FailsLike (Response.toSource format) where
  eq_error a h := by rw [Response.toSource, failure?_eq, h]; rfl
  lasting a h e he := by
    rw [Response.toSource, failure?_eq, h, if_pos rfl] at he
    cases he

namespace FailsLike

variable {α : Type} {read : Response → Result α}

theorem map (hread : FailsLike read) {β : Type} (f : α → β) :
    FailsLike fun a => (read a).map f where
  eq_error a h := by rw [hread.eq_error a h]; rfl
  lasting a h e he := by
    cases ha : read a with
    | error e' =>
        rw [ha] at he
        cases he
        exact hread.lasting a h e ha
    | ok v =>
        rw [ha] at he
        cases he

/-- **An answer settles the call unless its status is a reason to ask again.** -/
theorem settles_iff (hread : FailsLike read) (a : Response) :
    (∀ e, read a = .error e → e.isRetryable = false) ↔
      isSuccess a.status = true ∨ a.status ∉ transientStatuses := by
  cases hsuccess : isSuccess a.status with
  | true => exact iff_of_true (hread.lasting a hsuccess) (Or.inl rfl)
  | false =>
      rw [hread.eq_error a hsuccess, ← isTransient_iff]
      simp [remoteError, Error.isRetryable, Error.root]

end FailsLike

theorem Answer.read_of_isWellFormed {α : Type} {wire : WireRequest} (h : isWellFormed wire = true)
    (read : Response → Result α) (a : Response) : (Answer.response a).read wire read = read a := by
  rw [Answer.read, if_pos h]

end Http

namespace Demand

/-- A reply or a stream that is asked for over HTTP, given the answer to each request, counted from
one. -/
def overHttp (v : Vendor) (answers : Nat → Http.Response) : (stream : Bool) → Demand
  | false => .reply fun wire k => (Http.Answer.response (answers k)).read wire (·.toBody)
  | true => .stream fun wire k =>
      (Http.Answer.response (answers k)).read wire (·.toSource v.format)

/-- How an answer is read. -/
def answered (v : Vendor) : (stream : Bool) → Http.Response → Result (Json ⊕ List SourceStep)
  | false => fun a => a.toBody.map .inl
  | true => fun a => (a.toSource v.format).map .inr

variable {v : Vendor} {answers : Nat → Http.Response} {stream : Bool}

@[simp] theorem isStream_overHttp : (overHttp v answers stream).isStream = stream := by
  cases stream <;> rfl

theorem outcome_overHttp {wire : WireRequest} (h : Http.isWellFormed wire = true) (k : Nat) :
    (overHttp v answers stream).outcome wire k = answered v stream (answers k) := by
  cases stream with
  | false => rw [overHttp, outcome, Http.Answer.read_of_isWellFormed h]; rfl
  | true => rw [overHttp, outcome, Http.Answer.read_of_isWellFormed h]; rfl

theorem failsLike_answered : Http.FailsLike (answered v stream) := by
  cases stream with
  | false => exact Http.failsLike_toBody.map Sum.inl
  | true => exact (Http.failsLike_toSource v.format).map Sum.inr

end Demand

namespace ChatModel

open Http (isSuccess transientStatuses)

variable {m : ChatModel} {r : ChatRequest} {stream : Bool} {wire : WireRequest}

/-- **There are as many requests as it takes for an answer to settle the call,** or as the policy
allows, and the last answer is what they come to. -/
theorem exchange_overHttp (answers : Nat → Http.Response)
    (hwire : m.wireRequest r stream = .ok wire)
    (hsend : Http.isWellFormed wire = true) :
    let e := m.exchange r stream (Demand.overHttp m.vendor answers stream).outcome
    IsLeast {k | 1 ≤ k ∧ (isSuccess (answers k).status = true ∨
      (answers k).status ∉ transientStatuses ∨ k = max 1 m.retry.maxAttempts)} e.sent.length ∧
    e.result = Demand.answered m.vendor stream (answers e.sent.length) := by
  have houtcome : (Demand.overHttp m.vendor answers stream).outcome wire =
      fun k => Demand.answered m.vendor stream (answers k) :=
    funext fun k => Demand.outcome_overHttp hsend k
  obtain ⟨-, -, -, -, hlast⟩ :=
    exchange_attempts (Demand.overHttp m.vendor answers stream).outcome hwire
  refine ⟨?_, hlast.trans (congrFun houtcome _)⟩
  have hleast := m.retry.isLeast_length_run fun k => Demand.answered m.vendor stream (answers k)
  simp only [Demand.failsLike_answered.settles_iff, or_assoc] at hleast
  rw [exchange, hwire]
  simp only [List.length_map, houtcome]
  exact hleast

end ChatModel

namespace LiveCall

open Http (isSuccess transientStatuses)

/-- **The vendor is asked until an answer settles the call.**  There are as many requests as it takes
for an answer to report success, to have a status that is no reason to ask again, or to be the last
that the policy allows.  If it reports no success, the call fails with its status.

If every failure of the server were a reason to ask again, there would be just as many requests, unless
the last answer has such a status that is not one of the five, and another request is allowed. -/
theorem asks_until_answered (m : ChatModel) (globals own : List Handler) (id : Nat)
    (messages : List Message) (options : CallOptions) (stream : Bool)
    (answers : Nat → Http.Response) (ms : List Move) (hms : Move.work ∈ ms) {wire : WireRequest}
    (hvalid : m.vendor.validate (m.prepare messages options).1 = .ok ())
    (hwire : m.vendor.request (m.prepare messages options).1 stream = .ok wire)
    (hsend : Http.isWellFormed wire = true) :
    let c := begin m globals own id messages options (.overHttp m.vendor answers stream)
    let n := (c.sent ms).length
    let status := fun k => (answers k).status
    let allowed := max 1 m.retry.maxAttempts
    IsLeast {k | 1 ≤ k ∧ (isSuccess (status k) = true ∨ status k ∉ transientStatuses ∨
      k = allowed)} n ∧
    (isSuccess (status n) = false → ∃ statusClass message retryable delay,
      (c.after ms).stage = .returned (.error (.component m.vendor.typeName
        (ChatModel.operation stream)
        (.remote (status n) statusClass message retryable delay)))) ∧
    (IsLeast {k | 1 ≤ k ∧ (isSuccess (status k) = true ∨
      ¬ (status k = 408 ∨ status k = 429 ∨ 500 ≤ status k ∧ status k < 600) ∨ k = allowed)} n ↔
      (500 ≤ status n → status n < 600 → status n ∈ transientStatuses ∨ n = allowed)) := by
  intro c n status allowed
  have hstream : c.demand.isStream = stream := Demand.isStream_overHttp
  have hrequest : m.wireRequest c.request c.demand.isStream = .ok wire := by
    rw [hstream]
    exact ChatModel.wireRequest_eq_ok_iff.mpr ⟨hvalid, hwire⟩
  have hsent : c.sent ms = (m.exchange c.request c.demand.isStream c.demand.outcome).sent := by
    rw [(after_of_mem_work rfl hms).1]
    exact c.asked_eq_and_answer_eq.1
  obtain ⟨hleast, hresult⟩ : IsLeast {k | 1 ≤ k ∧ (isSuccess (status k) = true ∨
      status k ∉ transientStatuses ∨ k = allowed)} n ∧
      (m.exchange c.request c.demand.isStream c.demand.outcome).result =
        Demand.answered m.vendor stream (answers n) := by
    have hanswers := ChatModel.exchange_overHttp answers hrequest hsend
    rw [hstream] at hsent hanswers ⊢
    simp only [n, hsent]
    exact hanswers
  refine ⟨hleast, fun hfail => ?_, Http.isLeast_ofServer_iff hleast⟩
  have herror : (m.exchange c.request c.demand.isStream c.demand.outcome).result >>=
      m.receive = .error (Http.remoteError (status n) (Utf8.decode (answers n).body)
        (answers n).retryAfter) := by
    rw [hresult, Demand.failsLike_answered.eq_error _ hfail]
    rfl
  have hreturned := returned_of_exchange rfl hms herror
  rw [hstream] at hreturned
  exact ⟨_, _, _, _, hreturned⟩

/-- A vendor that is overloaded at first, and then knows no such model. -/
def overloadedOnce (k : Nat) : Http.Response :=
  if k = 1 then { status := 503, body := [], retryAfter := some "2" }
  else { status := 404, body := Utf8.encode "no such model" }

/-- The vendor is asked twice, and the second answer is the error of the call. -/
theorem asks_until_answered_overloadedOnce :
    let c := begin patient [] [] 0 [.user "Hello"] {}
      (.overHttp patient.vendor overloadedOnce false)
    (c.sent [.work]).length = 2 ∧
    (∃ statusClass message retryable delay, (c.after [.work]).stage = .returned (.error
      (.component "Ollama" "generate" (.remote 404 statusClass message retryable delay)))) ∧
    IsLeast {k | 1 ≤ k ∧ (isSuccess (overloadedOnce k).status = true ∨
      ¬ ((overloadedOnce k).status = 408 ∨ (overloadedOnce k).status = 429 ∨
        500 ≤ (overloadedOnce k).status ∧ (overloadedOnce k).status < 600) ∨ k = 3)} 2 := by
  intro c
  obtain ⟨wire, hwire, hsend⟩ : ∃ wire, patient.vendor.request
      (patient.prepare [.user "Hello"] {}).1 false = .ok wire ∧ Http.isWellFormed wire = true :=
    ⟨_, rfl, by decide +kernel⟩
  have htwice : (c.sent [.work]).length = 2 := by decide +kernel
  obtain ⟨-, hreturned, hserver⟩ := asks_until_answered patient [] [] 0 [.user "Hello"] {} false
    overloadedOnce [.work] (by decide) rfl hwire hsend
  rw [htwice] at hreturned hserver
  exact ⟨htwice, hreturned rfl, hserver.mpr fun h => absurd h (by decide)⟩

/-- A server that lacks what is asked for, once. -/
def unimplementedOnce (k : Nat) : Http.Response :=
  if k = 1 then { status := 501, body := [] } else { status := 200, body := Utf8.encode "\x7b\x7d" }

/-- The vendor is not asked again, though it is a failure of the server and two more requests are
allowed. -/
theorem length_sent_unimplementedOnce :
    let c := begin patient [] [] 0 [.user "Hello"] {}
      (.overHttp patient.vendor unimplementedOnce false)
    (c.sent [.work]).length = 1 ∧
    ¬ IsLeast {k | 1 ≤ k ∧ (isSuccess (unimplementedOnce k).status = true ∨
      ¬ ((unimplementedOnce k).status = 408 ∨ (unimplementedOnce k).status = 429 ∨
        500 ≤ (unimplementedOnce k).status ∧ (unimplementedOnce k).status < 600) ∨
      k = max 1 patient.retry.maxAttempts)} 1 :=
  ⟨by decide +kernel, fun h => absurd h.1 (by decide)⟩

end LiveCall

end ChatRelay
