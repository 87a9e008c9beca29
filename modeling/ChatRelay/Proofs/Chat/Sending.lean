import ChatRelay.Proofs.Chat.Accounting

/-!
# What a call sends

A call sends one request, as often as its policy allows, and only if the request passes the checks
and can be put into the vendor's form.  All attempts are made in the first move of the call, before
there is a stream, and no move after it sends anything (`LiveCall.sends_one_request`).  An error that
a call returns is that of one step behind the name of the vendor and the operation, and the handlers
are told of the same error.

## Main definitions

* `Demand.outcome` — what an attempt comes to, a reply or what a stream will hold
* `ChatModel.receive` — what the vendor's answer comes to for the caller
* `LiveCall.sent` — what was sent in some moves
-/

namespace ChatRelay

open Result

namespace Demand

/-- Whether a stream is asked for. -/
def isStream : Demand → Bool
  | reply _ => false
  | stream _ => true

/-- What the `k`-th attempt comes to: a reply, or what a stream will hold. -/
def outcome (d : Demand) (wire : WireRequest) (k : Nat) : Result (Json ⊕ List SourceStep) :=
  match d with
  | reply outcome => (outcome wire k).map .inl
  | stream outcome => (outcome wire k).map .inr

/-- No error of an attempt has a name of a component in front. -/
def FailsUnnamed (d : Demand) : Prop :=
  ∀ wire k e, d.outcome wire k = .error e → e.isNamed = false

end Demand

namespace ChatModel

/-- What the vendor's answer comes to for the caller. -/
def receive (m : ChatModel) : Json ⊕ List SourceStep → Result CallStage
  | .inl body => (m.vendor.reply body).map fun reply => .returned (.ok reply)
  | .inr source => .ok (.streaming (.start m.vendor m.streaming source))

theorem unnamed_of_receive {m : ChatModel} {answer : Json ⊕ List SourceStep} {e : Error}
    (h : m.receive answer = .error e) : e.isNamed = false := by
  cases answer with
  | inl body => exact ((m.vendor.failsPlainly_reply body).map _ e h).1
  | inr source => cases h

variable {α : Type} {m : ChatModel} {r : ChatRequest} {stream : Bool} {wire : WireRequest}

theorem wireRequest_eq_ok_iff :
    m.wireRequest r stream = .ok wire ↔
      m.vendor.validate r = .ok () ∧ m.vendor.request r stream = .ok wire := by
  rw [wireRequest]
  cases m.vendor.validate r <;> simp [bind, Except.bind]

/-- A request is refused where it fails the checks, or else by the vendor's form. -/
theorem wireRequest_eq_error_iff {e : Error} :
    m.wireRequest r stream = .error e ↔
      m.vendor.validate r = .error e ∨
        m.vendor.validate r = .ok () ∧ m.vendor.request r stream = .error e := by
  rw [wireRequest]
  cases m.vendor.validate r <;> simp [bind, Except.bind]

/-- A request that is refused is not sent. -/
theorem exchange_of_error (outcome : WireRequest → Nat → Result α) {e : Error}
    (h : m.wireRequest r stream = .error e) :
    m.exchange r stream outcome = ⟨[], .error e⟩ := by
  rw [exchange, h]

/-- **Every attempt sends the same.** -/
theorem exchange_attempts (outcome : WireRequest → Nat → Result α)
    (h : m.wireRequest r stream = .ok wire) :
    let sent := (m.exchange r stream outcome).sent
    1 ≤ sent.length ∧ sent.length ≤ max 1 m.retry.maxAttempts ∧ (∀ x ∈ sent, x.2 = wire) ∧
      (∀ k, 1 ≤ k → k < sent.length → ∃ e, outcome wire k = .error e ∧ e.isRetryable = true) ∧
      (m.exchange r stream outcome).result = outcome wire sent.length := by
  obtain ⟨hpos, hle, hpassing, hlast⟩ := m.retry.run_attempts (outcome wire)
  rw [exchange, h]
  simp only [List.length_map]
  refine ⟨hpos, hle, fun x hx => ?_, hpassing, hlast⟩
  obtain ⟨start, -, rfl⟩ := List.mem_map.mp hx
  rfl

/-- What is made of the answer has no say in what is sent. -/
theorem exchange_map {β : Type} (outcome : WireRequest → Nat → Result α) (f : α → β) :
    m.exchange r stream (fun wire k => (outcome wire k).map f) =
      ⟨(m.exchange r stream outcome).sent, (m.exchange r stream outcome).result.map f⟩ := by
  unfold exchange
  cases m.wireRequest r stream with
  | error e => rfl
  | ok wire => simp only [RetryPolicy.run_map]

end ChatModel

/-- What an exchange fails with is the error of a single step. -/
theorem ChatModel.unnamed_of_exchange {m : ChatModel} {r : ChatRequest} {demand : Demand}
    (hdemand : demand.FailsUnnamed) {e : Error}
    (h : (m.exchange r demand.isStream demand.outcome).result >>= m.receive = .error e) :
    e.isNamed = false := by
  cases hwire : m.wireRequest r demand.isStream with
  | error e' =>
      rw [exchange_of_error demand.outcome hwire] at h
      cases h
      exact ((m.vendor.failsPlainly_validate r).bind
        (fun _ => m.vendor.failsPlainly_request r demand.isStream) e hwire).1
  | ok wire =>
      obtain ⟨-, -, -, -, hlast⟩ := exchange_attempts demand.outcome hwire
      rw [hlast] at h
      cases houtcome : demand.outcome wire
          (m.exchange r demand.isStream demand.outcome).sent.length with
      | error e' =>
          rw [houtcome] at h
          cases h
          exact hdemand wire _ e houtcome
      | ok answer =>
          rw [houtcome] at h
          exact unnamed_of_receive h

/-- The request for a stream says so, and that for a whole reply too. -/
theorem Vendor.stream_of_request {v : Vendor} {r : ChatRequest} {stream : Bool} {wire : WireRequest}
    (h : v.request r stream = .ok wire) : wire.stream = stream := by
  cases v with
  | openAI c =>
      obtain ⟨said, -, hwire⟩ := bind_eq_ok_iff.mp h
      cases hwire
      rfl
  | claude c =>
      obtain ⟨said, -, hwire⟩ := bind_eq_ok_iff.mp h
      cases hwire
      rfl
  | gemini c =>
      obtain ⟨said, -, hwire⟩ := bind_eq_ok_iff.mp h
      cases hwire
      rfl
  | ollama c =>
      obtain ⟨said, -, hwire⟩ := bind_eq_ok_iff.mp h
      cases hwire
      rfl

namespace LiveCall

/-- What asking the vendor sends. -/
def asked (c : LiveCall) : List (Nat × WireRequest) :=
  match c.demand with
  | .reply outcome => (c.model.generate c.request outcome).sent
  | .stream outcome => (c.model.openStream c.request outcome).sent

/-- What a move sends.  Only the move that asks the vendor sends anything. -/
def sends (c : LiveCall) (m : Move) : List (Nat × WireRequest) :=
  match c.stage with
  | .asking => if m = .work then c.asked else []
  | _ => []

/-- What was sent in some moves. -/
def sent (c : LiveCall) : List Move → List (Nat × WireRequest)
  | [] => []
  | m :: ms => c.sends m ++ (c.take m).sent ms

variable {c : LiveCall} {ms : List Move}

/-! ### Asking -/

/-- Where the call stands when the vendor has been asked.  An error is returned with the name of the
vendor and the operation in front, if it has none. -/
def settle (c : LiveCall) : Result CallStage → CallStage
  | .ok stage => stage
  | .error e => .returned (.error
      (e.withComponent c.model.vendor.typeName (ChatModel.operation c.demand.isStream)))

/-- The vendor is asked in one way, be it for a reply or for a stream. -/
theorem asked_eq_and_answer_eq (c : LiveCall) :
    let e := c.model.exchange c.request c.demand.isStream c.demand.outcome
    c.asked = e.sent ∧ c.answer = c.settle (e.result >>= c.model.receive) := by
  unfold asked answer settle
  cases c.demand with
  | reply outcome =>
      have hmap : c.model.exchange c.request false (Demand.reply outcome).outcome =
          ⟨(c.model.exchange c.request false outcome).sent,
            (c.model.exchange c.request false outcome).result.map .inl⟩ :=
        ChatModel.exchange_map _ _
      simp only [Demand.isStream, ChatModel.generate, hmap, true_and]
      cases (c.model.exchange c.request false outcome).result with
      | error e => rfl
      | ok body =>
          cases hreply : c.model.vendor.reply body <;>
            simp [bind, Except.bind, Except.map, ChatModel.inCall, Except.mapError,
              ChatModel.receive, hreply]
  | stream outcome =>
      have hmap : c.model.exchange c.request true (Demand.stream outcome).outcome =
          ⟨(c.model.exchange c.request true outcome).sent,
            (c.model.exchange c.request true outcome).result.map .inr⟩ :=
        ChatModel.exchange_map _ _
      simp only [Demand.isStream, ChatModel.openStream, hmap, true_and]
      cases (c.model.exchange c.request true outcome).result <;> rfl

theorem answer_ne_asking (c : LiveCall) : c.answer ≠ .asking := by
  unfold answer
  split
  · simp
  · split <;> simp

/-! ### Moves -/

/-- Nothing is sent once the vendor has been asked. -/
theorem sent_of_ne_asking (h : c.stage ≠ .asking) (ms : List Move) : c.sent ms = [] := by
  induction ms generalizing c with
  | nil => rfl
  | cons m ms ih =>
      rw [sent]
      cases hstage : c.stage with
      | asking => exact absurd hstage h
      | returned r =>
          have htake : c.take m = c := by rw [take, hstage]
          rw [sends, hstage, htake, ih h, List.nil_append]
      | streaming w =>
          have htake : c.take m = { c with stage := .streaming (w.take m) } := by rw [take, hstage]
          rw [sends, hstage, htake, ih (by simp), List.nil_append]

theorem sent_append (ms ns : List Move) : c.sent (ms ++ ns) = c.sent ms ++ (c.after ms).sent ns := by
  induction ms generalizing c with
  | nil => rfl
  | cons m ms ih =>
      rw [List.cons_append, sent, sent, ih, List.append_assoc]
      rfl

/-- Nothing happens before the first move that works. -/
theorem after_of_not_mem_work (h : c.stage = .asking) (hms : Move.work ∉ ms) :
    c.after ms = c ∧ c.sent ms = [] := by
  induction ms with
  | nil => exact ⟨rfl, rfl⟩
  | cons m ms ih =>
      rw [List.mem_cons, not_or] at hms
      have htake : c.take m = c := by rw [take, h]; exact if_neg (Ne.symm hms.1)
      have hsends : c.sends m = [] := by rw [sends, h]; exact if_neg (Ne.symm hms.1)
      obtain ⟨hafter, hsent⟩ := ih hms.2
      exact ⟨by rw [after, List.foldl_cons, htake]; exact hafter,
        by rw [sent, hsends, htake, hsent]; rfl⟩

/-- The first move that works asks the vendor, and the others send nothing. -/
theorem after_of_mem_work (h : c.stage = .asking) (hms : Move.work ∈ ms) :
    c.sent ms = c.asked ∧ ∃ later, c.after ms = { c with stage := c.answer }.after later := by
  obtain ⟨before, later, rfl, hbefore⟩ := List.eq_append_cons_of_mem hms
  obtain ⟨hafter, hsent⟩ := after_of_not_mem_work h hbefore
  have htake : c.take .work = { c with stage := c.answer } := take_work_of_asking h
  have hsends : c.sends .work = c.asked := by rw [sends, h]; exact if_pos rfl
  constructor
  · rw [sent_append, hafter, hsent, List.nil_append, sent, hsends, htake,
      sent_of_ne_asking (c.answer_ne_asking), List.append_nil]
  · exact ⟨later, by rw [after_append, hafter, after, List.foldl_cons, htake]; rfl⟩

/-- A call that has returned stays as it is. -/
theorem after_of_returned {r : Result Message} (h : c.stage = .returned r) : c.after ms = c := by
  induction ms with
  | nil => rfl
  | cons m ms ih =>
      have htake : c.take m = c := by rw [take, h]
      rw [after, List.foldl_cons, htake]
      exact ih

/-- A call whose exchange fails has returned the error, with a name in front, when the vendor has been
asked. -/
theorem returned_of_exchange (hc : c.stage = .asking) (hms : Move.work ∈ ms) {e : Error}
    (h : (c.model.exchange c.request c.demand.isStream c.demand.outcome).result >>=
      c.model.receive = .error e) :
    (c.after ms).stage = .returned (.error
      (e.withComponent c.model.vendor.typeName (ChatModel.operation c.demand.isStream))) := by
  obtain ⟨-, later, hafter⟩ := after_of_mem_work hc hms
  rw [hafter, c.asked_eq_and_answer_eq.2, h, after_of_returned rfl]
  rfl

/-- A call whose exchange succeeds goes on from there. -/
theorem after_of_exchange (hc : c.stage = .asking) (hms : Move.work ∈ ms) {stage : CallStage}
    (h : (c.model.exchange c.request c.demand.isStream c.demand.outcome).result >>=
      c.model.receive = .ok stage) :
    ∃ later, c.after ms = { c with stage }.after later := by
  obtain ⟨-, later, hafter⟩ := after_of_mem_work hc hms
  refine ⟨later, ?_⟩
  rw [hafter, c.asked_eq_and_answer_eq.2, h]
  rfl

/-- An error that a call returns is what the exchange failed with, with a name in front. -/
theorem exists_of_returned_error (hc : c.stage = .asking) {e : Error}
    (h : (c.after ms).stage = .returned (.error e)) : ∃ source,
      (c.model.exchange c.request c.demand.isStream c.demand.outcome).result >>= c.model.receive =
        .error source ∧
      e = source.withComponent c.model.vendor.typeName (ChatModel.operation c.demand.isStream) := by
  by_cases hms : Move.work ∈ ms
  · cases hresult : (c.model.exchange c.request c.demand.isStream c.demand.outcome).result >>=
        c.model.receive with
    | error source =>
        rw [returned_of_exchange hc hms hresult] at h
        cases h
        exact ⟨source, rfl, rfl⟩
    | ok stage =>
        -- What was received is a reply or an open stream.
        obtain ⟨later, hafter⟩ := after_of_exchange hc hms hresult
        rw [hafter] at h
        obtain ⟨answer, -, hreceive⟩ := bind_eq_ok_iff.mp hresult
        cases answer with
        | inl body =>
            obtain ⟨reply, -, rfl⟩ := map_eq_ok_iff.mp hreceive
            rw [after_of_returned rfl] at h
            cases h
        | inr source =>
            cases hreceive
            rw [after_of_streaming rfl] at h
            cases h
  · rw [(after_of_not_mem_work hc hms).1, hc] at h
    cases h

/-- **A call sends one request, and only if it may.**  Nothing is sent before the vendor is asked.  A
request that fails the checks, or cannot be put into the vendor's form, is not sent, and the call
fails with that error.  Any other is sent in every attempt, of which there are as many as the policy
allows at most; each but the last fails, and the last one decides.  When the vendor has been asked,
nothing more is sent, whatever becomes of a stream.  An error that is returned has the name of the
vendor and the operation in front of that of a single step, and the handlers are told of it. -/
theorem sends_one_request (m : ChatModel) (globals own : List Handler) (id : Nat)
    (messages : List Message) (options : CallOptions) (demand : Demand)
    (hdemand : demand.FailsUnnamed) (ms : List Move) :
    let c := begin m globals own id messages options demand
    let d := c.after ms
    let r : ChatRequest :=
      { settings := options.resolve m.defaults, messages
        tools := options.tools.getD m.tools, toolChoice := options.toolChoice.or m.toolChoice }
    let named := Error.component m.vendor.typeName (ChatModel.operation demand.isStream)
    (Move.work ∉ ms → d = c ∧ c.sent ms = []) ∧
    (Move.work ∈ ms →
      (∀ more, c.sent (ms ++ more) = c.sent ms) ∧
      (∀ e, (m.vendor.validate r = .error e ∨
          m.vendor.validate r = .ok () ∧ m.vendor.request r demand.isStream = .error e) →
        c.sent ms = [] ∧ d.stage = .returned (.error (named e))) ∧
      ∀ wire, m.vendor.validate r = .ok () → m.vendor.request r demand.isStream = .ok wire →
        let n := (c.sent ms).length
        let last := demand.outcome wire n >>= m.receive
        1 ≤ n ∧ n ≤ max 1 m.retry.maxAttempts ∧
        (∀ x ∈ c.sent ms, x.2 = wire) ∧ wire.stream = demand.isStream ∧
        (∀ k, 1 ≤ k → k < n → ∃ e, demand.outcome wire k = .error e ∧ e.isRetryable = true) ∧
        (∀ e, last = .error e → d.stage = .returned (.error (named e))) ∧
        ∀ stage, last = .ok stage → ∃ later, d = { c with stage }.after later) ∧
    ∀ e, d.stage = .returned (.error e) →
      (∃ source, e = named source ∧ source.isNamed = false) ∧
      d.events = [.started c.input, .failed e] ∧
      d.endNotices = (globals ++ (m.handlers ++ own)).flatMap
        (Handler.notify ⟨m.name, m.vendor.typeName, id⟩ (.failed e)) := by
  intro c d r named
  have hc : c.stage = .asking := rfl
  have hasked : c.asked = (m.exchange r demand.isStream demand.outcome).sent :=
    c.asked_eq_and_answer_eq.1
  have hnamed {e : Error} (he : (m.exchange r demand.isStream demand.outcome).result >>= m.receive =
      .error e) : e.withComponent m.vendor.typeName (ChatModel.operation demand.isStream) = named e :=
    Error.withComponent_of_isNamed_eq_false (ChatModel.unnamed_of_exchange hdemand he) _ _
  have hfails {e : Error} (hms : Move.work ∈ ms)
      (he : (m.exchange r demand.isStream demand.outcome).result >>= m.receive = .error e) :
      d.stage = .returned (.error (named e)) := by
    rw [← hnamed he]
    exact returned_of_exchange hc hms he
  refine ⟨after_of_not_mem_work hc, fun hms => ?_, fun e he => ?_⟩
  · rw [(after_of_mem_work hc hms).1, hasked]
    refine ⟨fun more => ?_, fun e he => ?_, fun wire hvalid hwire => ?_⟩
    · rw [(after_of_mem_work hc (List.mem_append_left more hms)).1, hasked]
    · have hexchange := ChatModel.exchange_of_error demand.outcome
        (ChatModel.wireRequest_eq_error_iff.mpr he)
      exact ⟨by rw [hexchange], hfails hms (by rw [hexchange]; rfl)⟩
    · obtain ⟨hpos, hle, hsame, hpassing, hlast⟩ := ChatModel.exchange_attempts demand.outcome
        (ChatModel.wireRequest_eq_ok_iff.mpr ⟨hvalid, hwire⟩)
      refine ⟨hpos, hle, hsame, Vendor.stream_of_request hwire, hpassing, fun e he => ?_,
        fun stage hstage => ?_⟩
      · exact hfails hms (by rw [hlast]; exact he)
      · exact after_of_exchange hc hms ((congrArg (· >>= m.receive) hlast).trans hstage)
  · obtain ⟨source, hsource, hname⟩ := exists_of_returned_error hc he
    obtain ⟨stage, hstage⟩ : ∃ stage, d = { c with stage } := c.exists_after_eq ms
    have hevents : d.endings = [.error e] := by rw [endings, he]
    refine ⟨⟨source, hname.trans (hnamed hsource), ChatModel.unnamed_of_exchange hdemand hsource⟩,
      ?_, ?_⟩
    · rw [events, hevents, hstage]
      rfl
    · rw [endNotices, hevents, hstage, List.flatMap_singleton]
      rfl

/-- A model that tries three times. -/
def patient : ChatModel where
  name := "local"
  vendor := .ollama { http := default }
  defaults := { model := "llama" }
  retry := .ofAttempts 3 200
  streaming := {}

/-- The vendor is busy at first. -/
def busyOnce : Demand :=
  .stream fun _ k =>
    if k = 1 then .error (.remote 503 "overloaded" "busy" true none) else .ok []

/-- A stream is opened by the second attempt.  Both attempts send the same, and nothing follows. -/
theorem sends_one_request_busyOnce :
    let c := begin patient [] [] 0 [.user "Hello"] {} busyOnce
    let r : ChatRequest := { settings := { model := "llama" }, messages := [.user "Hello"] }
    ∃ wire, patient.vendor.request r true = .ok wire ∧ wire.stream = true ∧
      (∃ first second, c.sent [.cancel, .work] = [first, second] ∧
        first.2 = wire ∧ second.2 = wire) ∧
      ∀ more, c.sent ([.cancel, .work] ++ more) = c.sent [.cancel, .work] := by
  intro c r
  have hdemand : busyOnce.FailsUnnamed := by
    intro wire k e he
    by_cases hk : k = 1
    · subst hk
      cases he
      rfl
    · simp [busyOnce, Demand.outcome, hk, Except.map] at he
  obtain ⟨wire, hwire⟩ : ∃ wire, patient.vendor.request r true = .ok wire := ⟨_, rfl⟩
  obtain ⟨-, hasked, -⟩ := sends_one_request patient [] [] 0 [.user "Hello"] {} busyOnce hdemand
    [.cancel, .work]
  obtain ⟨hmore, -, hsent⟩ := hasked (by decide)
  obtain ⟨-, -, hsame, hstream, -⟩ := hsent wire rfl hwire
  have htwo : (c.sent [.cancel, .work]).length = 2 := by decide +kernel
  obtain ⟨first, second, hboth⟩ := List.length_eq_two.mp htwo
  refine ⟨wire, hwire, hstream, ⟨first, second, hboth, ?_⟩, hmore⟩
  exact ⟨hsame first (hboth ▸ by simp), hsame second (hboth ▸ by simp)⟩

end LiveCall

/-! ### Rehearsed calls -/

namespace Rehearsal

/-- **A rehearsed call sends what the call sends** when the vendor is asked, and returns what it
returns. -/
theorem call_sent (r : Rehearsal) (p : CallPlan) :
    (r.call p).1.sent = (r.begin p).sent [.work] ∧
      ∀ result, (r.call p).1.sight = .result result →
        ((r.begin p).after [.work]).stage = .returned result := by
  have hasked : (r.begin p).after [.work] = { r.begin p with stage := (r.begin p).answer } :=
    LiveCall.take_work_of_asking (c := r.begin p) rfl
  have hsent : (r.begin p).sent [.work] = (r.begin p).asked := by
    rw [(LiveCall.after_of_mem_work (c := r.begin p) rfl List.mem_cons_self).1]
  rw [hsent, hasked]
  unfold call LiveCall.asked
  cases hactions : p.actions with
  | none =>
      have hdemand : (r.begin p).demand = .reply fun _ => Script.outcome r.script.replies := by
        simp [begin, LiveCall.begin, demand, hactions]
      rw [answer_begin_of_none hactions, hdemand]
      refine ⟨rfl, ?_⟩
      rintro _ ⟨⟩
      rfl
  | some actions =>
      have hdemand : (r.begin p).demand = .stream fun _ => Script.outcome r.script.streams := by
        simp [begin, LiveCall.begin, demand, hactions]
      rw [answer_begin_of_some hactions, hdemand]
      simp only [stream]
      split
      · next e he =>
        have hresult : (r.model.openStream (r.begin p).request
          fun _ => Script.outcome r.script.streams).result = .error e := he
        rw [hresult]
        refine ⟨rfl, ?_⟩
        rintro _ ⟨⟩
        rfl
      · exact ⟨rfl, by rintro _ ⟨⟩⟩

end Rehearsal

end ChatRelay
