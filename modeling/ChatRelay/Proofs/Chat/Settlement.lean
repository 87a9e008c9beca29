import ChatRelay.Proofs.Chat.Accounting
import ChatRelay.Proofs.Stream.Delivery

/-!
# What is settled when a consumer sees the end

A consumer that reads a stream to its end may go on at once: by then the source was released, and
every handler was told how the call ended (`LiveCall.settled_at_end`).  That is so on every way out
of a worker, and also where somebody cancels while the reader stays.

Handlers take their time, and the consumer moves while they do.  So a call is looked at here handler
by handler: each move of its worker tells one handler, as long as there is one to be told.  Whatever
such a call comes to is what a call comes to that tells all its handlers at once
(`PacedCall.Keeps`), so nothing about workers has to be proved again.

What carries the proof is that a consumer can see nothing of the end while handlers are still to be
told of it (`Worker.HidesEnd`): the worker keeps its end of the channel, and no error waits there.

## Main definitions

* `LiveCall.deliveries` — who is told of some events, and of what
* `PacedCall` — a call that tells its handlers one after the other
* `Worker.HidesEnd` — the consumer cannot see the end of the stream yet
-/

namespace ChatRelay

namespace LiveCall

/-- Who is told of some events, and of what: of each event all handlers, in their order. -/
def deliveries (c : LiveCall) (events : List CallEvent) : List (Handler × CallEvent) :=
  events.flatMap fun event => c.run.handlers.map fun handler => (handler, event)

end LiveCall

/-- A call that tells its handlers one after the other. -/
structure PacedCall where
  call : LiveCall
  /-- Who is still to be told, and of what. -/
  due : List (Handler × CallEvent)
  /-- Who was told, and of what. -/
  told : List (Handler × CallEvent) := []

namespace PacedCall

/-- A call whose handlers are still to be told of what has happened so far. -/
def ofCall (c : LiveCall) : PacedCall where
  call := c
  due := c.deliveries c.events

/-- What a move of the worker leaves: one handler more was told, and only when all were told of
everything, the call goes on. -/
def work (p : PacedCall) : PacedCall :=
  match p.due with
  | next :: due => { p with due, told := p.told ++ [next] }
  | [] =>
    let call := p.call.take .work
    { p with call, due := call.deliveries (call.events.drop p.call.events.length) }

/-- What a move leaves.  The consumer waits for no handler. -/
def take (p : PacedCall) (m : Move) : PacedCall :=
  if m = .work then p.work else { p with call := p.call.take m }

/-- What some moves leave. -/
def after (p : PacedCall) (ms : List Move) : PacedCall :=
  ms.foldl take p

end PacedCall

/-! ### Workers -/

namespace Worker

variable {w w' : Worker}

/-- The consumer cannot see the end of the stream yet. -/
def HidesEnd (w : Worker) : Prop :=
  w.channel.writerOpen = true ∧ ∀ e, .error e ∉ w.channel.queue

/-- The consumer sees the end of the stream, or the error that it ends with. -/
def ShowsEnd (w : Worker) : Prop :=
  w.channel.receive.1 = .ended ∨ ∃ e, w.channel.receive.1 = .item (.error e)

theorem HidesEnd.not_showsEnd (h : w.HidesEnd) : ¬ w.ShowsEnd := by
  obtain ⟨hopen, hqueue⟩ := h
  rintro (hended | ⟨e, hitem⟩)
  · rw [(Channel.receive_eq_ended_iff.mp hended).2] at hopen
    cases hopen
  · obtain ⟨rest, hrest⟩ := Channel.receive_eq_item_iff.mp hitem
    exact hqueue e (hrest ▸ List.mem_cons_self)

/-- The consumer brings no end about. -/
theorem HidesEnd.take (h : w.HidesEnd) {m : Move} (hm : m ≠ .work) : (w.take m).HidesEnd := by
  obtain ⟨hopen, hqueue⟩ := h
  obtain ⟨-, -, hwriter, hrest⟩ := w.channel_take hm
  refine ⟨hwriter.trans hopen, fun e he => ?_⟩
  rcases hrest with ⟨-, hrest⟩ | ⟨-, hempty, -⟩
  · exact hqueue e (hrest ▸ List.mem_append_right _ he)
  · rw [hempty] at he
    cases he

/-- An ending is reported when the worker is about to report. -/
theorem endings_of_step (h : Step w w') : w'.endings = w.endings ∨
    (∃ outcome, w.phase = .reporting outcome) ∧ w'.channel = w.channel := by
  cases h with
  | report hphase => exact Or.inr ⟨⟨_, hphase⟩, rfl⟩
  | _ => exact Or.inl rfl

/-- A worker that has not reported yet has told its consumer of no error. -/
theorem Ledger.hidesEnd {origin : Worker} {reads : List (Option SourceStep)}
    {accepted received : List (Result Message)} (h : w.Ledger origin reads accepted received)
    {outcome : Outcome} (hphase : w.phase = .reporting outcome) : w.HidesEnd := by
  constructor
  · rw [← Bool.not_eq_false, h.writer, hphase]
    exact Phase.noConfusion
  · intro e he
    have haccepted : .error e ∈ accepted :=
      h.received_prefix.subset (List.mem_append_right _ he)
    obtain ⟨-, -, -, -, -, hreports⟩ := h.balances.of_mem_accepted haccepted
    exact hreports (by rw [hphase]; rfl)

/-- **A worker that shows the end has reported,** and an error that it shows is the one that it
reported. -/
theorem Ledger.of_showsEnd {origin : Worker} {script : List SourceStep}
    {reads : List (Option SourceStep)} {accepted received : List (Result Message)}
    (h : w.Ledger origin reads accepted received) (horderly : w.Orderly script)
    (hshows : w.ShowsEnd) :
    w.phase.reports ≠ 0 ∧ ∃ ending, w.endings = [ending] ∧
      ∀ e, w.channel.receive.1 = .item (.error e) → ending = .error e := by
  rcases hshows with hended | ⟨e, hitem⟩
  · have hphase := h.writer.mp (Channel.receive_eq_ended_iff.mp hended).2
    have hlength : w.endings.length = 1 := by rw [horderly.endings, hphase]; rfl
    obtain ⟨ending, hending⟩ := List.length_eq_one_iff.mp hlength
    refine ⟨by rw [hphase]; exact one_ne_zero, ending, hending, ?_⟩
    intro e hitem
    rw [hended] at hitem
    cases hitem
  · obtain ⟨rest, hqueue⟩ := Channel.receive_eq_item_iff.mp hitem
    have haccepted : .error e ∈ accepted := by
      refine h.received_prefix.subset (List.mem_append_right _ ?_)
      exact hqueue ▸ List.mem_cons_self
    obtain ⟨outcome, -, hendings, hending, -, hreports⟩ := h.balances.of_mem_accepted haccepted
    refine ⟨hreports, w.endingOf outcome, hendings, ?_⟩
    intro e' hitem'
    rw [hitem] at hitem'
    cases hitem'
    exact hending

end Worker

/-! ### Calls that tell all their handlers at once -/

namespace LiveCall

variable {c : LiveCall}

/-- The stream of a call is one that was opened, after some moves. -/
theorem exists_worker_after (hc : c.stage = .asking) {ms : List Move} {w : Worker}
    (hstage : (c.after ms).stage = .streaming w) : ∃ source ns,
      c.Opens source ∧ w = (Worker.start c.model.vendor c.model.streaming source).after ns := by
  induction ms using List.reverseRecOn generalizing w with
  | nil => cases hc.symm.trans hstage
  | append_singleton ms m ih =>
      rw [after_concat, take] at hstage
      cases hprior : (c.after ms).stage with
      | asking =>
          have hanswer : (c.after ms).answer = c.answer := by
            obtain ⟨stage, hafter⟩ := c.exists_after_eq ms
            rw [hafter]
            rfl
          by_cases hm : m = .work
          · simp only [hprior, hm, if_true, hanswer] at hstage
            obtain ⟨source, hopens, rfl⟩ := exists_of_answer_eq_streaming hstage
            exact ⟨source, [], hopens, rfl⟩
          · simp [hprior, hm] at hstage
      | returned r => simp [hprior] at hstage
      | streaming w' =>
          simp only [hprior, CallStage.streaming.injEq] at hstage
          obtain ⟨source, ns, hopens, rfl⟩ := ih hprior
          exact ⟨source, ns ++ [m], hopens, by rw [← hstage, Worker.after_append]; rfl⟩

/-- A stream of a call keeps its ledger and its source in order. -/
theorem exists_ledger_after (hc : c.stage = .asking) {ms : List Move} {w : Worker}
    (hstage : (c.after ms).stage = .streaming w) : ∃ origin script reads accepted received,
      w.Ledger origin reads accepted received ∧ w.Orderly script := by
  obtain ⟨source, ns, -, rfl⟩ := exists_worker_after hc hstage
  exact ⟨_, source, _, _, _, Worker.ledger_after c.model.vendor c.model.streaming source ns,
    (Worker.orderly_start c.model.vendor c.model.streaming source).after ns⟩

theorem deliveries_append (c : LiveCall) (events later : List CallEvent) :
    c.deliveries (events ++ later) = c.deliveries events ++ c.deliveries later :=
  List.flatMap_append

/-- All that the handlers of a call were told. -/
theorem notices_eq_deliveries (c : LiveCall) : c.notices =
    (c.deliveries c.events).flatMap fun delivery => delivery.1.notify c.run.info delivery.2 := by
  rw [deliveries, List.flatMap_assoc]
  simp only [List.flatMap_map]
  rfl

/-- A call has the same handlers after a move, and what they were told is not taken back. -/
theorem events_take (c : LiveCall) (m : Move) :
    (c.take m).run = c.run ∧ c.events <+: (c.take m).events := by
  have hprefix {stage : CallStage} (h : c.endings <+: endings { c with stage }) :
      c.events <+: events { c with stage } :=
    (List.prefix_cons_inj _).mpr (h.map _)
  unfold take
  cases hstage : c.stage with
  | asking =>
      simp only
      split
      · exact ⟨rfl, hprefix (by simp [endings, hstage])⟩
      · exact ⟨rfl, List.prefix_rfl⟩
  | returned r => exact ⟨rfl, List.prefix_rfl⟩
  | streaming w =>
      refine ⟨rfl, hprefix ?_⟩
      simp only [endings, hstage]
      exact w.endings_prefix_after [m]

/-- The consumer of a call does nothing that handlers are told of. -/
theorem take_of_ne_work (c : LiveCall) {m : Move} (hm : m ≠ .work) :
    (c.take m).events = c.events ∧ ∀ w, (c.take m).stage = .streaming w →
      ∃ w', c.stage = .streaming w' ∧ w = w'.take m := by
  unfold take
  cases hstage : c.stage with
  | asking =>
      rw [if_neg hm]
      refine ⟨rfl, fun w hw => ?_⟩
      cases hstage.symm.trans hw
  | returned r =>
      refine ⟨rfl, fun w hw => ?_⟩
      cases hstage.symm.trans hw
  | streaming w' =>
      obtain ⟨channel, htake⟩ := w'.take_of_ne_work hm
      refine ⟨by simp [events, endings, hstage, htake], fun w hw => ?_⟩
      cases hw
      exact ⟨w', rfl, rfl⟩

/-- Where a move of the worker tells of something, it leaves no stream, or one that hides its
end. -/
theorem hidesEnd_of_work (hc : c.stage = .asking) {ms : List Move} {w : Worker}
    (htold : ((c.after ms).take .work).events ≠ (c.after ms).events)
    (hstage : ((c.after ms).take .work).stage = .streaming w) : w.HidesEnd := by
  have hsame {d : LiveCall} {w' : Worker} (hd : d.stage = .streaming w')
      (hendings : (w'.take .work).endings = w'.endings) : (d.take .work).events = d.events := by
    simp [take, events, endings, hd, hendings]
  cases hprior : (c.after ms).stage with
  | asking =>
      rw [take_work_of_asking hprior] at htold hstage
      obtain ⟨source, -, rfl⟩ := exists_of_answer_eq_streaming hstage
      simp only at hstage
      refine absurd ?_ htold
      simp [events, endings, hprior, hstage, Worker.start]
  | returned r =>
      rw [take, hprior] at hstage
      cases hprior.symm.trans hstage
  | streaming w' =>
      rcases w'.work_cases with ⟨-, htake⟩ | hstep
      · exact absurd (hsame hprior (by rw [htake])) htold
      · rcases Worker.endings_of_step hstep with hendings | ⟨⟨outcome, hphase⟩, hchannel⟩
        · exact absurd (hsame hprior hendings) htold
        · obtain ⟨_, _, _, _, _, hledger, -⟩ := exists_ledger_after hc hprior
          have hw : w = w'.take .work := by
            rw [take, hprior] at hstage
            exact (CallStage.streaming.inj hstage).symm
          rw [hw, Worker.HidesEnd, hchannel]
          exact hledger.hidesEnd hphase

end LiveCall

/-! ### Calls that tell one handler after the other -/

namespace PacedCall

variable {c : LiveCall} {p : PacedCall}

/-- A call that tells one handler after the other comes to nothing but what a call does that tells
all at once.  Its handlers are told just the events of the call, and while one of them is still to
be told of something, the consumer sees nothing of the end. -/
structure Keeps (c : LiveCall) (p : PacedCall) : Prop where
  reached : ∃ ms, p.call = c.after ms
  deliveries : p.told ++ p.due = p.call.deliveries p.call.events
  hidden : p.due ≠ [] → ∀ w, p.call.stage = .streaming w → w.HidesEnd

theorem keeps_ofCall (hc : c.stage = .asking) : (ofCall c).Keeps c where
  reached := ⟨[], rfl⟩
  deliveries := rfl
  hidden := by
    intro _ w hstage
    cases hc.symm.trans hstage

theorem Keeps.work (h : p.Keeps c) (hc : c.stage = .asking) : p.work.Keeps c := by
  unfold PacedCall.work
  split
  · next next due hdue =>
    refine ⟨h.reached, ?_, fun _ => h.hidden (by simp [hdue])⟩
    rw [← h.deliveries, hdue, List.append_assoc, List.singleton_append]
  · next hdue =>
    obtain ⟨ms, hms⟩ := h.reached
    obtain ⟨hrun, hbegin⟩ := p.call.events_take .work
    refine ⟨⟨ms ++ [.work], by rw [LiveCall.after_concat, ← hms]⟩, ?_, ?_⟩
    · have htold : p.told = (p.call.take .work).deliveries p.call.events := by
        rw [LiveCall.deliveries, hrun, ← List.append_nil p.told, ← hdue]
        exact h.deliveries
      simp only
      rw [htold, ← LiveCall.deliveries_append, List.prefix_iff_eq_append.mp hbegin]
    · intro hsome w hstage
      simp only [hms] at hsome hstage
      refine LiveCall.hidesEnd_of_work hc (fun hsame => hsome ?_) hstage
      rw [hsame, List.drop_length]
      rfl

theorem Keeps.take (h : p.Keeps c) (hc : c.stage = .asking) (m : Move) : (p.take m).Keeps c := by
  unfold PacedCall.take
  split
  · exact h.work hc
  · next hm =>
    obtain ⟨ms, hms⟩ := h.reached
    obtain ⟨hevents, hstream⟩ := p.call.take_of_ne_work hm
    refine ⟨⟨ms ++ [m], by rw [LiveCall.after_concat, ← hms]⟩, ?_, ?_⟩
    · simp only
      rw [hevents, LiveCall.deliveries, (p.call.events_take m).1]
      exact h.deliveries
    · intro hdue w hstage
      obtain ⟨w', hw', rfl⟩ := hstream w hstage
      exact (h.hidden hdue w' hw').take hm

/-- **Telling handlers one after the other changes nothing else.** -/
theorem Keeps.after (h : p.Keeps c) (hc : c.stage = .asking) (ms : List Move) :
    (p.after ms).Keeps c :=
  List.foldlRecOn ms PacedCall.take h fun _ hp m _ => hp.take hc m

/-- Everything that is told of a stream was told. -/
def IsSettled (p : PacedCall) : Prop :=
  p.due = [] ∧ ∃ w, p.call.stage = .streaming w ∧ w.phase.reports ≠ 0

/-- Nothing is told of a stream after its end. -/
theorem IsSettled.take (h : p.IsSettled) (m : Move) :
    (p.take m).IsSettled ∧ (p.take m).told = p.told := by
  obtain ⟨hdue, w, hstage, hreports⟩ := h
  have hworker : (w.take m).phase.reports ≠ 0 ∧ (w.take m).endings = w.endings := by
    refine Worker.holds_take
      (P := fun w' => w'.phase.reports ≠ 0 ∧ w'.endings = w.endings) ⟨hreports, rfl⟩ ?_ ?_ m
    · intro w' hstep
      obtain ⟨hreports', -, hendings, -⟩ := Worker.reported_of_step hstep hreports
      exact ⟨hreports', hendings⟩
    · exact fun channel => ⟨hreports, rfl⟩
  have hcall : p.call.take m = { p.call with stage := .streaming (w.take m) } := by
    rw [LiveCall.take, hstage]
  have hevents : (p.call.take m).events = p.call.events := by
    simp [hcall, LiveCall.events, LiveCall.endings, hstage, hworker.2]
  unfold PacedCall.take
  split
  · next hm =>
    subst hm
    simp only [PacedCall.work, hdue, hevents, List.drop_length]
    exact ⟨⟨rfl, _, by rw [hcall], hworker.1⟩, trivial⟩
  · exact ⟨⟨hdue, _, by rw [hcall], hworker.1⟩, rfl⟩

theorem IsSettled.after (h : p.IsSettled) (ms : List Move) :
    (p.after ms).IsSettled ∧ (p.after ms).told = p.told := by
  refine List.foldlRecOn (motive := fun p' => p'.IsSettled ∧ p'.told = p.told) ms PacedCall.take
    ⟨h, rfl⟩ ?_
  rintro p' ⟨hsettled, htold⟩ m -
  obtain ⟨hsettled', htold'⟩ := hsettled.take m
  exact ⟨hsettled', htold'.trans htold⟩

/-- **Where the consumer can see the end, everything is settled.** -/
theorem Keeps.isSettled (h : p.Keeps c) (hc : c.stage = .asking) {w : Worker}
    (hstage : p.call.stage = .streaming w) (hshows : w.ShowsEnd) :
    p.IsSettled ∧ ∃ ending, w.endings = [ending] ∧
      ∀ e, w.channel.receive.1 = .item (.error e) → ending = .error e := by
  obtain ⟨ms, hms⟩ := h.reached
  obtain ⟨_, _, _, _, _, hledger, horderly⟩ :=
    LiveCall.exists_ledger_after hc (hms ▸ hstage)
  obtain ⟨hreports, hending⟩ := hledger.of_showsEnd horderly hshows
  refine ⟨⟨?_, w, hstage, hreports⟩, hending⟩
  by_contra hdue
  exact (h.hidden hdue w hstage).not_showsEnd hshows

/-- The source of a stream that has ended is released. -/
theorem Keeps.closes (h : p.Keeps c) (hc : c.stage = .asking) {w : Worker}
    (hstage : p.call.stage = .streaming w) (hreports : w.phase.reports ≠ 0) :
    w.closes = 1 ∧ ∀ read, w.phase ≠ .awaiting read := by
  obtain ⟨ms, hms⟩ := h.reached
  obtain ⟨_, _, _, _, _, -, horderly⟩ := LiveCall.exists_ledger_after hc (hms ▸ hstage)
  obtain ⟨hone, hidle, -⟩ := horderly.of_closes_ne_zero
    (horderly.closes ▸ Worker.releases_ne_zero_of_reports hreports)
  exact ⟨hone, hidle⟩

end PacedCall

namespace LiveCall

/-- **Who sees the end of a stream finds everything settled.**  Let the handlers of a call be told
one after the other, and let the consumer move while they are, cancel, or leave.  Where the consumer
can read the end of the stream, or an error, the source was released, no read is under way, and
every handler was told of the start of the call and then of its end.  It is the same end for all,
and where the consumer reads an error, it is this error.  Nothing is told and the source is not
released again after that. -/
theorem settled_at_end (m : ChatModel) (globals own : List Handler) (id : Nat)
    (messages : List Message) (options : CallOptions) (demand : Demand) (ms : List Move)
    (w : Worker) :
    let c := begin m globals own id messages options demand
    let p := (PacedCall.ofCall c).after ms
    let handlers := globals ++ (m.handlers ++ own)
    p.call.stage = .streaming w → w.ShowsEnd →
      w.closes = 1 ∧ (∀ read, w.phase ≠ .awaiting read) ∧
      ∃ ending : Ending,
        (∀ e, w.channel.receive.1 = .item (.error e) → ending = .error e) ∧
        p.due = [] ∧
        p.told = (handlers.map fun h => (h, .started c.input)) ++
          handlers.map (fun h => (h, .ofResult c.input.settings ending)) ∧
        (p.told.flatMap fun delivery => delivery.1.notify c.run.info delivery.2) =
          p.call.notices ∧
        ∀ later, (p.after later).told = p.told ∧ ∃ w',
          (p.after later).call.stage = .streaming w' ∧ w'.closes = 1 := by
  intro c p handlers hstage hshows
  have hkeeps : p.Keeps c := (PacedCall.keeps_ofCall rfl).after rfl ms
  obtain ⟨hsettled, ending, hendings, herror⟩ := hkeeps.isSettled rfl hstage hshows
  obtain ⟨hcloses, hidle⟩ : w.closes = 1 ∧ ∀ read, w.phase ≠ .awaiting read := by
    obtain ⟨-, w', hstage', hreports⟩ := hsettled
    cases hstage.symm.trans hstage'
    exact hkeeps.closes rfl hstage hreports
  obtain ⟨stage, hcall⟩ : ∃ stage, p.call = { c with stage } := by
    obtain ⟨ns, hns⟩ := hkeeps.reached
    rw [hns]
    exact c.exists_after_eq ns
  have hevents : p.call.events = [.started c.input, .ofResult c.input.settings ending] := by
    simp only [events, endings, hstage, hendings]
    rw [hcall]
    rfl
  have htold : p.told = p.call.deliveries p.call.events := by
    rw [← hkeeps.deliveries, hsettled.1, List.append_nil]
  refine ⟨hcloses, hidle, ending, herror, hsettled.1, ?_, ?_, fun later => ?_⟩
  · rw [htold, hevents, hcall]
    exact congrArg _ (List.append_nil _)
  · rw [htold, notices_eq_deliveries, hcall]
  · obtain ⟨⟨-, w', hstage', hreports⟩, hsame⟩ := hsettled.after later
    exact ⟨hsame, w', hstage', ((hkeeps.after rfl later).closes rfl hstage' hreports).1⟩

/-- Somebody cancels while the worker waits for its source.  The worker gives up, releases the
source and has two handlers to tell of it. -/
def cancellingEarly : List Move :=
  List.replicate 4 .work ++ [.cancel] ++ List.replicate 3 .work

/-- As long as one of the handlers was not told, the reader finds nothing.  Then it finds the
end. -/
theorem settled_at_end_cancelled :
    (∃ w, ((PacedCall.ofCall greeting).after (cancellingEarly ++ [.work])).call.stage =
      .streaming w ∧ w.channel.receive.1 = .blocked) ∧
    ∃ w ending, ((PacedCall.ofCall greeting).after
        (cancellingEarly ++ [.work, .work, .work])).call.stage = .streaming w ∧
      w.channel.receive.1 = .ended ∧ w.closes = 1 ∧
      ((PacedCall.ofCall greeting).after (cancellingEarly ++ [.work, .work, .work])).told =
        [(.log, .started greeting.input), (.recorder 0, .started greeting.input),
          (.log, .ofResult greeting.input.settings ending),
          (.recorder 0, .ofResult greeting.input.settings ending)] := by
  refine ⟨⟨_, rfl, rfl⟩, ?_⟩
  obtain ⟨w, hstage, hended⟩ : ∃ w, ((PacedCall.ofCall greeting).after
      (cancellingEarly ++ [.work, .work, .work])).call.stage = .streaming w ∧
      w.channel.receive.1 = .ended := ⟨_, rfl, rfl⟩
  obtain ⟨hcloses, -, ending, -, -, htold, -⟩ := settled_at_end greeting.model [.log]
    [.recorder 0] 7 [.user "Hello"] {} greeting.demand _ w hstage (Or.inl hended)
  exact ⟨w, ending, hstage, hended, hcloses, htold⟩

end LiveCall

end ChatRelay
