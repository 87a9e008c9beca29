import ChatRelay.Proofs.Chat.Accounting
import ChatRelay.Proofs.Stream.Collection

/-!
# What the consumer of a call gets

A call whose stream is open has two sides: the handlers are told how it ended, and the consumer
receives what the worker sends.  The consumer receives what the accumulator passed on, in order, and
at most one error, which is the one that the handlers were told (`delivers`).  A consumer that
collects the stream ends with what the handlers were told, but for a stream that is empty
(`collect_agrees`).

That is so as long as nobody cancels.  A stream that is cancelled ends for its consumer like one
that is complete, so the consumer who goes on collecting gets the message of what was forwarded by
then, while the handlers are told of the cancellation (`collect_of_cancelled`).

## Main definitions

* `LiveCall.withStream`, `LiveCall.opened` — a call with a stream, and one that was just opened
* `LiveCall.course` — what the stream of a call comes to if nobody disturbs it
* `LiveCall.collecting` — a consumer that collects the stream of a call
-/

namespace ChatRelay

open Result

namespace LiveCall

/-- The call with a stream whose worker stands somewhere. -/
def withStream (c : LiveCall) (w : Worker) : LiveCall :=
  { c with stage := .streaming w }

/-- The call with a stream that has just been opened. -/
def opened (c : LiveCall) (source : List SourceStep) : LiveCall :=
  c.withStream (.start c.model.vendor c.model.streaming source)

/-- What the stream of a call comes to if nobody disturbs it. -/
def course (c : LiveCall) (source : List SourceStep) : Course :=
  c.model.vendor.course c.model.streaming.malformedChunks c.model.vendor.accumulator source

/-- A consumer that collects the stream of a call. -/
def collecting (c : LiveCall) (source : List SourceStep) : Collection :=
  .start c.model.vendor c.model.streaming source

/-- Where asking the vendor leads to a stream, it is one that has just been opened. -/
theorem exists_opened {c : LiveCall} {w : Worker} (hstage : c.stage = .asking)
    (h : c.answer = .streaming w) : ∃ source, c.Opens source ∧ c.take .work = c.opened source := by
  obtain ⟨source, hopens, rfl⟩ := exists_of_answer_eq_streaming h
  exact ⟨source, hopens, by rw [take_work_of_asking hstage, h]; rfl⟩

theorem opened_after (c : LiveCall) (source : List SourceStep) (ms : List Move) :
    (c.opened source).after ms =
      c.withStream ((Worker.start c.model.vendor c.model.streaming source).after ms) :=
  after_of_streaming rfl ms

theorem events_withStream {c : LiveCall} {w : Worker} {ending : Ending}
    (h : w.endings = [ending]) :
    (c.withStream w).events = [.started c.input, .ofResult c.input.settings ending] := by
  show .started c.input :: w.endings.map (CallEvent.ofResult c.input.settings) = _
  rw [h]
  rfl

/-! ### Delivery -/

/-- **Delivery is faithful.**  However worker and consumer interleave, reads end in the order of the
source, and what was forwarded is what the accumulator passed on for them, as far as it got.  Unless
a fragment is just about to be recorded, the channel accepted just what was forwarded, and then at
most one error.  The consumer receives what was accepted, in order: fragments, and then at most one
error, which is the one that the handlers were told.  One that stays to the end has received
everything: what the source comes to, whatever the capacity of the channel. -/
theorem delivers (c : LiveCall) (source : List SourceStep) (ms : List Move) :
    let start := Worker.start c.model.vendor c.model.streaming source
    let w := start.after ms
    let call := (c.opened source).after ms
    let emitted := c.model.vendor.emitted c.model.vendor.accumulator (start.readsEnded ms)
    call.stage = .streaming w ∧
    start.readsEnded ms <+: source.map some ++ [none] ∧
    w.forwarded <+: emitted ∧ emitted <+: (c.course source).outputs ∧
    ((∀ f final, w.phase ≠ .recording f final) → start.accepted ms = w.forwarded.map .ok ∨
      ∃ e, start.accepted ms = w.forwarded.map .ok ++ [.error e] ∧
        call.events = [.started c.input, .failed e]) ∧
    start.received ms <+: start.accepted ms ∧
    (∃ fragments : List Message, fragments <+: emitted ∧
      (start.received ms = fragments.map .ok ∨
        ∃ e, start.received ms = fragments.map .ok ++ [.error e] ∧
          call.events = [.started c.input, .failed e])) ∧
    ((∀ m ∈ ms, m = .work ∨ m = .receive) → w.channel.receive.1 = .ended →
      ∃ outcome, c.course source = ⟨emitted, some outcome⟩ ∧ w.forwarded = emitted ∧
        start.received ms =
          emitted.map .ok ++ raised (c.model.vendor.endingOf emitted outcome) ∧
        call.events = [.started c.input,
          .ofResult c.input.settings (c.model.vendor.endingOf emitted outcome)]) := by
  intro start w call emitted
  have hledger : w.Ledger start (start.readsEnded ms) (start.accepted ms) (start.received ms) :=
    Worker.ledger_after c.model.vendor c.model.streaming source ms
  have hbalances : w.Balances (c.course source) emitted (start.accepted ms) := hledger.balances
  have hcall : call = c.withStream w := c.opened_after source ms
  have hvendor : w.vendor = c.model.vendor := hledger.vendor
  obtain ⟨hforwarded, hemitted, fragments, -, hrecorded, haccepted⟩ := hbalances.faithful
  rw [hcall]
  refine ⟨rfl, (List.prefix_append _ _).trans hledger.reads_prefix, hforwarded, hemitted, ?_,
    (List.prefix_append _ _).trans hledger.received_prefix, ?_, ?_⟩
  · intro hphase
    rw [← hrecorded hphase]
    refine haccepted.imp_right ?_
    rintro ⟨e, haccepted, hendings⟩
    exact ⟨e, haccepted, events_withStream hendings⟩
  · obtain ⟨got, hgot, hreceived⟩ := hledger.exists_fragments
    refine ⟨got, hgot, hreceived.imp_right ?_⟩
    rintro ⟨e, hreceived, hendings⟩
    exact ⟨e, hreceived, events_withStream hendings⟩
  · intro hstays hended
    have hopen : w.channel.isAbandoned = false := start.isAbandoned_after hstays
    obtain ⟨outcome, hplan, hsame, hreceived, hendings⟩ := hledger.drained hopen hended
    have hending : w.endingOf outcome = c.model.vendor.endingOf emitted outcome := by
      rw [Worker.endingOf_eq, hvendor, hsame]
      rfl
    rw [hending] at hreceived hendings
    rw [hsame] at hreceived
    exact ⟨outcome, hplan, hsame, hreceived, events_withStream hendings⟩

/-- A source of two chunks. -/
def hello : List SourceStep :=
  ["Hel", "lo"].map fun text =>
    .value (.ofMembers [("message", .ofMembers [("content", .text text)])])

/-- The worker goes to its end, and then the consumer reads. -/
def reading : List Move :=
  List.replicate 13 .work ++ [.receive, .receive]

/-- A consumer that stays receives both fragments, and the handlers are told of their message. -/
theorem delivers_hello :
    (Worker.start greeting.model.vendor greeting.model.streaming hello).received reading =
        [.ok (.assistant "Hel"), .ok (.assistant "lo")] ∧
      ((greeting.opened hello).after reading).events = [.started greeting.input,
        .ofResult greeting.input.settings (.ok (.assistant "Hello"))] := by
  obtain ⟨-, -, -, -, -, -, -, hdrained⟩ := delivers greeting hello reading
  obtain ⟨outcome, hcourse, -, hreceived, hevents⟩ := hdrained (by decide) rfl
  have hwhole : greeting.course hello =
      ⟨[.assistant "Hel", .assistant "lo"], some .completed⟩ := rfl
  obtain ⟨hemitted, houtcome⟩ := Course.mk.inj (hwhole.symm.trans hcourse)
  cases houtcome
  rw [← hemitted] at hreceived hevents
  exact ⟨hreceived, hevents⟩

/-! ### Collecting -/

/-- The event of an end tells what the call came to. -/
theorem ofResult_eq_iff {settings : Settings} {r : Result Message} :
    (∀ m, r = .ok m ↔ ∃ o, CallEvent.ofResult settings r = .ended o ∧ o.message = m ∧
      o.usage? = m.usage?) ∧
    (∀ e, r = .error e ↔ CallEvent.ofResult settings r = .failed e) := by
  cases r with
  | ok m' =>
      refine ⟨fun m => ⟨?_, ?_⟩, by simp [CallEvent.ofResult]⟩
      · rintro ⟨⟩
        exact ⟨⟨m', settings⟩, rfl, rfl, rfl⟩
      · rintro ⟨o, ho, hm, -⟩
        cases ho
        exact congrArg Except.ok hm
  | error e' => simp [CallEvent.ofResult]

/-- What a consumer that collects the stream of a call ends with. -/
theorem collecting_concluded {c : LiveCall} {source : List SourceStep} {ts : List Collection.Turn}
    {r : Result Message} (h : ((c.collecting source).after ts).result = some r) :
    ((c.collecting source).after ts).fragments =
        ((c.collecting source).after ts).worker.forwarded ∧
      (Collection.Agrees (c.course source) ((c.collecting source).after ts).worker r ∨
        .cancel ∈ ts ∧
          Collection.IsCut (c.course source) ((c.collecting source).after ts).worker r) :=
  Collection.concluded _ _ _ h

/-- An error that the handlers were told carries a name before its cause. -/
theorem exists_cause {c : LiveCall} {source : List SourceStep} {ts : List Collection.Turn}
    {r : Result Message} {e : Error}
    (h : Collection.Agrees (c.course source) ((c.collecting source).after ts).worker r)
    (he : ((c.collecting source).after ts).worker.endings = [.error e]) :
    ∃ cause, e = cause.withComponent c.model.vendor.typeName "stream" ∧
      (.failure cause ∈ source ∨ cause.IsPlain) := by
  have hvendor : ((c.collecting source).after ts).worker.vendor = c.model.vendor :=
    Collection.vendor_after _ _ _ _
  unfold course at h
  rw [← hvendor] at h ⊢
  exact h.exists_cause he

/-- **Caller and handlers agree.**  Let a stream be opened whose reads all return, and let nobody
cancel.  When a consumer that collects it has its result, the handlers were told of a good end with
just that message, or of a failure with just that error; and the error then carries one name, that
of the vendor and the operation.  Only where the source is at its end and nothing was forwarded,
they were told of an empty message, and the consumer has an error.  If worker and consumer have
turns again and again, the consumer comes to its result. -/
theorem collect_agrees (c : LiveCall) (source : List SourceStep)
    (hnamed : ∀ e, .failure e ∈ source → e.isNamed = false)
    (hreturns : (c.course source).outcome ≠ none)
    (σ : ℕ → Collection.Turn) (hkept : ∀ n, σ n ≠ .cancel) :
    let k := (c.collecting source).upTo σ
    (∀ n r, (k n).result = some r → ∃ terminal,
      (c.withStream (k n).worker).events = [.started c.input, terminal] ∧
      ((k n).worker.forwarded = [] ∧ (c.course source).outcome = some .completed →
        (∃ o, terminal = .ended o ∧ o.message = .assistant "") ∧
        r = .error (.runtime "stream ended without any fragment"
          { source := some "message_stream" })) ∧
      (¬ ((k n).worker.forwarded = [] ∧ (c.course source).outcome = some .completed) →
        (∀ m, r = .ok m ↔ ∃ o, terminal = .ended o ∧ o.message = m ∧ o.usage? = m.usage?) ∧
        (∀ e, r = .error e ↔ terminal = .failed e) ∧
        ∀ e, r = .error e → ∃ cause,
          e = .component c.model.vendor.typeName "stream" cause ∧ cause.isNamed = false)) ∧
    (Collection.IsFair σ → ∃ n, ∀ m ≥ n, (k m).IsComplete) := by
  intro k
  refine ⟨fun n r hresult => ?_, fun hfair =>
    Collection.exists_complete _ _ _ hfair (Or.inl hreturns)⟩
  have hagrees : Collection.Agrees (c.course source) (k n).worker r := by
    obtain ⟨-, hagrees | ⟨hcancel, -⟩⟩ := collecting_concluded hresult
    · exact hagrees
    · obtain ⟨i, -, hi⟩ := List.mem_map.mp hcancel
      exact absurd hi (hkept i)
  by_cases hnothing : (k n).worker.forwarded = [] ∧ (c.course source).outcome = some .completed
  · obtain ⟨hendings, hr⟩ := hagrees.of_nothing hnothing.1 hnothing.2
    exact ⟨_, events_withStream hendings, fun _ => ⟨⟨_, rfl, rfl⟩, hr⟩, fun h => absurd hnothing h⟩
  · have hendings := hagrees.endings_eq hnothing
    refine ⟨_, events_withStream hendings, fun h => absurd h hnothing, fun _ =>
      ⟨ofResult_eq_iff.1, ofResult_eq_iff.2, ?_⟩⟩
    rintro e rfl
    obtain ⟨cause, rfl, hcause⟩ := exists_cause hagrees hendings
    have hplain : cause.isNamed = false := hcause.elim (hnamed cause) And.left
    exact ⟨cause, cause.withComponent_of_isNamed_eq_false hplain _ _, hplain⟩

/-- Worker and consumer take turns. -/
def alternating (n : ℕ) : Collection.Turn :=
  if n % 2 = 0 then .work else .read

theorem isFair_alternating : Collection.IsFair alternating := by
  intro n
  refine ⟨⟨2 * n, by omega, ?_⟩, 2 * n + 1, by omega, ?_⟩
  · exact if_pos (by omega)
  · exact if_neg (by omega)

/-- The consumer comes to the message of both fragments, and the handlers are told of it. -/
theorem collect_agrees_alternating :
    (∃ n o, ((greeting.collecting hello).upTo alternating n).result =
        some (.ok (.assistant "Hello")) ∧
      (greeting.withStream ((greeting.collecting hello).upTo alternating n).worker).events =
        [.started greeting.input, .ended o] ∧ o.message = .assistant "Hello") ∧
      ∃ n, ∀ m ≥ n, ((greeting.collecting hello).upTo alternating m).IsComplete := by
  have hreturns : (greeting.course hello).outcome ≠ none := by
    show some Outcome.completed ≠ none
    exact Option.some_ne_none _
  have hkept (n : ℕ) : alternating n ≠ .cancel := by
    unfold alternating
    split <;> simp
  obtain ⟨hagree, hcomplete⟩ := collect_agrees greeting hello (by simp [hello]) hreturns alternating
    hkept
  have hresult : ((greeting.collecting hello).upTo alternating 40).result =
    some (.ok (.assistant "Hello")) := rfl
  obtain ⟨terminal, hevents, -, hsome⟩ := hagree 40 _ hresult
  have hforwarded : ((greeting.collecting hello).upTo alternating 40).worker.forwarded ≠ [] := by
    show [Message.assistant "Hel", .assistant "lo"] ≠ []
    exact List.cons_ne_nil _ _
  obtain ⟨hgood, -⟩ := hsome fun hnothing => hforwarded hnothing.1
  obtain ⟨o, rfl, hmessage, -⟩ := (hgood _).mp rfl
  exact ⟨⟨40, o, hresult, hevents, hmessage⟩, hcomplete isFair_alternating⟩

/-- The handlers were told of a failure just where the worker reported it. -/
theorem endings_of_events_failed {c : LiveCall} {w : Worker} {e : Error}
    (h : (c.withStream w).events = [.started c.input, .failed e]) : w.endings = [.error e] := by
  change .started c.input :: w.endings.map (CallEvent.ofResult c.input.settings) = _ at h
  obtain ⟨ending, hendings, hfailed⟩ := List.map_eq_singleton_iff.mp (List.cons.inj h).2
  rw [hendings, (ofResult_eq_iff.2 e).mpr hfailed]

/-- **What collecting a cancelled stream comes to.**  Where the handlers were told that a stream was
cancelled, the consumer that collects it has got what was forwarded by then, which is the beginning
of what the source comes to, and its result is the message of that: an error if nothing was
forwarded, and otherwise what these fragments come to.  Only where the source itself has failed so,
it has that error.  Once somebody has cancelled, the consumer comes to its result even if a read
never returns. -/
theorem collect_of_cancelled (c : LiveCall) (source : List SourceStep) :
    (∀ ts r e, ((c.collecting source).after ts).result = some r →
      (c.withStream ((c.collecting source).after ts).worker).events =
        [.started c.input, .failed e] →
      e.isCancelled = true →
      (.cancel ∈ ts ∧
        ((c.collecting source).after ts).fragments =
          ((c.collecting source).after ts).worker.forwarded ∧
        ((c.collecting source).after ts).fragments <+: (c.course source).outputs ∧
        r = if ((c.collecting source).after ts).fragments.isEmpty then
            .error (.runtime "stream ended without any fragment"
              { source := some "message_stream" })
          else Message.concat ((c.collecting source).after ts).fragments) ∨
      (r = .error e ∧ ∃ cause, .failure cause ∈ source ∧ cause.isCancelled = true ∧
        e = cause.withComponent c.model.vendor.typeName "stream")) ∧
    ∀ σ, Collection.IsFair σ → (∃ n, σ n = .cancel) →
      ∃ n, ∀ m ≥ n, ((c.collecting source).upTo σ m).IsComplete := by
  refine ⟨?_, fun σ hfair hcancel => Collection.exists_complete _ _ _ hfair (Or.inr hcancel)⟩
  intro ts r e hresult hevents hcancelled
  have hendings := endings_of_events_failed hevents
  obtain ⟨hall, hagrees | ⟨hcancel, outcome, -, -, hforwarded, hr⟩⟩ := collecting_concluded hresult
  · right
    have hr : ((c.collecting source).after ts).worker.endings = [r] := by
      refine hagrees.endings_eq ?_
      rintro ⟨hnothing, hcompleted⟩
      rw [(hagrees.of_nothing hnothing hcompleted).1] at hendings
      cases hendings
    rw [hendings] at hr
    cases hr
    obtain ⟨cause, rfl, hcause⟩ := exists_cause hagrees hendings
    have hcause' : cause.isCancelled = true := by
      rwa [Error.isCancelled, Error.root_withComponent] at hcancelled
    refine ⟨rfl, cause, hcause.resolve_right ?_, hcause', rfl⟩
    rintro ⟨-, hplain⟩
    rw [hplain] at hcause'
    cases hcause'
  · left
    refine ⟨hcancel, hall, hall ▸ hforwarded, ?_⟩
    rw [hr, Collection.ofItems_map_ok, ← hall]

/-- Somebody cancels when the first fragment is on its way. -/
def cuttingOff : List Collection.Turn :=
  List.replicate 4 .work ++ [.cancel] ++ List.replicate 4 .work ++ [.read, .read]

/-- The handlers are told that the stream was cancelled, and the consumer takes the first of two
fragments for the message. -/
theorem collect_passes_cut :
    .cancel ∈ cuttingOff ∧
      (greeting.withStream ((greeting.collecting hello).after cuttingOff).worker).events =
        [.started greeting.input, .failed (.component "Ollama" "stream" .cancelled)] ∧
      ((greeting.collecting hello).after cuttingOff).result = some (.ok (.assistant "Hel")) ∧
      (greeting.course hello).outputs = [.assistant "Hel", .assistant "lo"] := by
  refine ⟨?_, ?_, ?_, ?_⟩
  · decide
  · rfl
  · rfl
  · rfl

/-- What the consumer got is the beginning of what the source comes to. -/
theorem collect_of_cancelled_cuttingOff :
    ((greeting.collecting hello).after cuttingOff).fragments <+: (greeting.course hello).outputs ∧
      ((greeting.collecting hello).after cuttingOff).fragments ≠
        (greeting.course hello).outputs := by
  have hfailed : (greeting.withStream ((greeting.collecting hello).after cuttingOff).worker).events =
    [.started greeting.input, .failed (.component "Ollama" "stream" .cancelled)] := rfl
  obtain ⟨hresult, -⟩ := collect_of_cancelled greeting hello
  rcases hresult cuttingOff (.ok (.assistant "Hel")) _ rfl hfailed rfl with
    ⟨-, -, hbegin, -⟩ | ⟨herror, -⟩
  · refine ⟨hbegin, ?_⟩
    show [Message.assistant "Hel"] ≠ [.assistant "Hel", .assistant "lo"]
    decide
  · cases herror

end LiveCall

end ChatRelay
