import ChatRelay.Chat.Rehearsal
import ChatRelay.Proofs.Callback.Delivery
import ChatRelay.Proofs.Stream.Ending

/-!
# Callback accounting

The handlers of a call are told of its start and then of one end, whatever the vendor answers and
however the worker of a stream and its consumer interleave (`LiveCall.accounted`).  They are told of
a good end when a reply is returned, or when the worker reached the end of the source and everything
was accepted and can be merged, and of a failure otherwise.

A call goes on move by move as a stream does (`Worker.take`).  Its first move asks the vendor, with
all attempts that this takes, and what it comes to is the reply, an error, or the worker of a stream
that moves on from there.  The calls that are rehearsed are among these (`Rehearsal.call_notices`).

## Main definitions

* `Demand` — what a call asks for, and what its attempts come to
* `LiveCall` — a call with its handlers, and where it stands
* `LiveCall.events`, `LiveCall.notices` — what the handlers were told, and what they left
* `LiveCall.Did` — what the worker of a call did in some move
* `Rehearsal.begin`, `Rehearsal.owed` — a rehearsed call, and what its stream tells when it was left
-/

namespace ChatRelay

/-- What a call asks for, and what the `k`-th attempt to send its request comes to, counted from
one. -/
inductive Demand where
  | reply (outcome : WireRequest → Nat → Result Json)
  | stream (outcome : WireRequest → Nat → Result (List SourceStep))

/-- No attempt fails as if the consumer had cancelled, and no read of a stream does. -/
def Demand.NeverCancels : Demand → Prop
  | .reply outcome => ∀ wire k, (outcome wire k).NeverCancelled
  | .stream outcome =>
    (∀ wire k, (outcome wire k).NeverCancelled) ∧
      ∀ wire k source, outcome wire k = .ok source →
        ∀ e, .failure e ∈ source → e.isCancelled = false

/-- Where a call stands. -/
inductive CallStage where
  | asking
  | returned (r : Result Message)
  | streaming (w : Worker)

/-- A call with its handlers. -/
structure LiveCall where
  model : ChatModel
  request : ChatRequest
  demand : Demand
  run : Run
  input : CallInput
  stage : CallStage := .asking

namespace LiveCall

/-- A call that has told its handlers of its start. -/
def begin (m : ChatModel) (globals own : List Handler) (id : Nat) (messages : List Message)
    (options : CallOptions) (demand : Demand) : LiveCall where
  model := m
  request := (m.prepare messages options).1
  demand := demand
  run := m.startRun globals id own
  input := (m.prepare messages options).2

/-- What comes of asking the vendor. -/
def answer (c : LiveCall) : CallStage :=
  match c.demand with
  | .reply outcome => .returned (c.model.generate c.request outcome).result
  | .stream outcome =>
    match (c.model.openStream c.request outcome).result with
    | .ok w => .streaming w
    | .error e => .returned (.error e)

/-- What a move leaves.  The consumer has nothing to do with a call that has no stream. -/
def take (c : LiveCall) (m : Move) : LiveCall :=
  match c.stage with
  | .asking => if m = .work then { c with stage := c.answer } else c
  | .returned _ => c
  | .streaming w => { c with stage := .streaming (w.take m) }

/-- What some moves leave. -/
def after (c : LiveCall) (ms : List Move) : LiveCall :=
  ms.foldl take c

/-- The ends of the call that its handlers were told of. -/
def endings (c : LiveCall) : List Ending :=
  match c.stage with
  | .asking => []
  | .returned r => [r]
  | .streaming w => w.endings

/-- What the handlers were told. -/
def events (c : LiveCall) : List CallEvent :=
  .started c.input :: c.endings.map (.ofResult c.input.settings)

/-- The traces that the handlers left. -/
def notices (c : LiveCall) : List Notice :=
  c.events.flatMap c.run.notify

/-- The traces of its start. -/
def startNotices (c : LiveCall) : List Notice :=
  c.run.notify (.started c.input)

/-- The traces of its end. -/
def endNotices (c : LiveCall) : List Notice :=
  c.endings.flatMap fun ending => c.run.notify (.ofResult c.input.settings ending)

/-- A reply or an error was returned, or the worker of the stream has finished. -/
def IsOver (c : LiveCall) : Prop :=
  match c.stage with
  | .asking => False
  | .returned _ => True
  | .streaming w => w.phase = .finished

/-- In one of the moves the worker took a step of some kind. -/
def Did (c : LiveCall) (kind : Worker → Prop) (ms : List Move) : Prop :=
  ∃ before later w, ms = before ++ .work :: later ∧ (c.after before).stage = .streaming w ∧ kind w

/-! ### Moves -/

/-- The traces of a call are those of its start and then those of its end. -/
theorem notices_eq (c : LiveCall) : c.notices = c.startNotices ++ c.endNotices := by
  rw [notices, events, List.flatMap_cons, List.flatMap_map]
  rfl

theorem after_append (c : LiveCall) (ms ns : List Move) :
    c.after (ms ++ ns) = (c.after ms).after ns :=
  List.foldl_append

theorem after_concat (c : LiveCall) (ms : List Move) (m : Move) :
    c.after (ms ++ [m]) = (c.after ms).take m := by
  rw [after, List.foldl_append]
  rfl

/-- Moves change nothing of a call but where it stands. -/
theorem exists_after_eq (c : LiveCall) (ms : List Move) :
    ∃ stage, c.after ms = { c with stage } := by
  induction ms generalizing c with
  | nil => exact ⟨c.stage, rfl⟩
  | cons m ms ih =>
      obtain ⟨stage, hstage⟩ : ∃ stage, c.take m = { c with stage } := by
        unfold take
        split
        · split <;> exact ⟨_, rfl⟩
        · exact ⟨_, rfl⟩
        · exact ⟨_, rfl⟩
      obtain ⟨stage', hrest⟩ := ih { c with stage }
      refine ⟨stage', ?_⟩
      rw [after, List.foldl_cons, hstage]
      exact hrest

theorem take_work_of_asking {c : LiveCall} (hstage : c.stage = .asking) :
    c.take .work = { c with stage := c.answer } := by
  rw [take, hstage]
  exact if_pos rfl

/-- Once there is a stream, the moves are those of its worker and its consumer. -/
theorem after_of_streaming {c : LiveCall} {w : Worker} (hstage : c.stage = .streaming w)
    (ms : List Move) : c.after ms = { c with stage := .streaming (w.after ms) } := by
  induction ms generalizing c w with
  | nil =>
      rw [Worker.after_nil, ← hstage]
      rfl
  | cons m ms ih =>
      have htake : c.take m = { c with stage := .streaming (w.take m) } := by rw [take, hstage]
      rw [after, List.foldl_cons, htake]
      exact ih rfl

theorem did_concat {c : LiveCall} {kind : Worker → Prop} {ms : List Move} {m : Move} :
    c.Did kind (ms ++ [m]) ↔
      c.Did kind ms ∨ m = .work ∧ ∃ w, (c.after ms).stage = .streaming w ∧ kind w := by
  constructor
  · rintro ⟨before, later, w, hms, hstage, hw⟩
    rcases List.eq_nil_or_concat later with rfl | ⟨later, m', rfl⟩
    · obtain ⟨rfl, hm⟩ := List.append_inj' hms rfl
      exact Or.inr ⟨by simpa using hm, w, hstage, hw⟩
    · have hlast : ms ++ [m] = (before ++ .work :: later) ++ [m'] := by simpa using hms
      obtain ⟨rfl, -⟩ := List.append_inj' hlast rfl
      exact Or.inl ⟨before, later, w, rfl, hstage, hw⟩
  · rintro (⟨before, later, w, rfl, hstage, hw⟩ | ⟨rfl, w, hstage, hw⟩)
    · exact ⟨before, later ++ [m], w, by simp, hstage, hw⟩
    · exact ⟨ms, [], w, rfl, hstage, hw⟩

/-- No worker took a step before there was one. -/
theorem not_did_nil (c : LiveCall) (kind : Worker → Prop) : ¬ c.Did kind [] := by
  rintro ⟨before, later, w, hms, -, -⟩
  simp at hms

/-! ### What asking comes to -/

/-- A stream is opened by an attempt that comes to what its source will hold. -/
def Opens (c : LiveCall) (source : List SourceStep) : Prop :=
  ∃ outcome wire k, c.demand = .stream outcome ∧ outcome wire k = .ok source

theorem exists_of_answer_eq_streaming {c : LiveCall} {w : Worker} (h : c.answer = .streaming w) :
    ∃ source, c.Opens source ∧ w = .start c.model.vendor c.model.streaming source := by
  unfold answer at h
  split at h
  · cases h
  · next outcome hdemand =>
    split at h
    · next w' hopen =>
      cases h
      obtain ⟨source, hsource, rfl⟩ := Result.map_eq_ok_iff.mp hopen
      refine ⟨source, ?_, rfl⟩
      rcases c.model.exchange_result_cases c.request true outcome with ⟨e, he, -⟩ | ⟨wire, k, hk⟩
      · rw [ChatModel.inCall, he] at hsource
        cases hsource
      · refine ⟨outcome, wire, k, hdemand, ?_⟩
        rw [ChatModel.inCall, hk] at hsource
        cases hresult : outcome wire k with
        | error e =>
            rw [hresult] at hsource
            cases hsource
        | ok source' =>
            rw [hresult] at hsource
            exact hsource
    · cases h

theorem neverCancelled_of_answer {c : LiveCall} {r : Result Message} (h : c.answer = .returned r)
    (hdemand : c.demand.NeverCancels) : r.NeverCancelled := by
  unfold answer at h
  split at h
  · next outcome houtcome =>
    cases h
    rw [houtcome] at hdemand
    have hexchange := c.model.neverCancelled_exchange c.request false hdemand
    exact (hexchange.bind fun body =>
      (c.model.vendor.failsPlainly_reply body).neverCancelled).named _ _
  · next outcome houtcome =>
    split at h
    · cases h
    · next e he =>
      cases h
      rw [houtcome] at hdemand
      have hexchange := c.model.neverCancelled_exchange c.request true hdemand.1
      have hopen := (hexchange.named c.model.vendor.typeName (ChatModel.operation true)).map
        fun source => Worker.start c.model.vendor c.model.streaming source
      exact Result.neverCancelled_error_iff.mpr (hopen e he)

/-! ### Where a call stands -/

/-- What holds of a call after some moves, by where it stands. -/
def Stands (c : LiveCall) (ms : List Move) : CallStage → Prop
  | .asking => ∀ kind, ¬ c.Did kind ms
  | .returned r => c.answer = .returned r ∧ ∀ kind, ¬ c.Did kind ms
  | .streaming w => ∃ source, c.Opens source ∧
    w.Accounts source (c.Did Worker.Halts ms) (c.Did Worker.IsRefused ms)
      (c.Did Worker.EndsSource ms)

theorem did_concat_of_streaming {c : LiveCall} {kind : Worker → Prop} {ms : List Move} {m : Move}
    {w : Worker} (hstage : (c.after ms).stage = .streaming w) :
    c.Did kind (ms ++ [m]) ↔ c.Did kind ms ∨ m = .work ∧ kind w := by
  rw [did_concat]
  simp [hstage]

theorem not_did_concat {c : LiveCall} {ms : List Move} (h : ∀ kind, ¬ c.Did kind ms)
    (hstage : ∀ w, (c.after ms).stage ≠ .streaming w) (m : Move) (kind : Worker → Prop) :
    ¬ c.Did kind (ms ++ [m]) := by
  rw [did_concat]
  rintro (hdid | ⟨-, w, hw, -⟩)
  · exact h kind hdid
  · exact hstage w hw

/-- **What holds of a call holds after every list of moves.** -/
theorem stands {c : LiveCall} (hc : c.stage = .asking) (ms : List Move) :
    c.Stands ms (c.after ms).stage := by
  induction ms using List.reverseRecOn with
  | nil =>
      have hstage : (c.after []).stage = .asking := hc
      rw [hstage]
      exact c.not_did_nil
  | append_singleton ms m ih =>
      have hanswer : (c.after ms).answer = c.answer := by
        obtain ⟨stage, hafter⟩ := c.exists_after_eq ms
        rw [hafter]
        rfl
      rw [after_concat]
      unfold take
      cases hstage : (c.after ms).stage with
      | asking =>
          rw [hstage] at ih
          have hnot := not_did_concat ih (by simp [hstage]) m
          by_cases hm : m = .work
          · simp only [hm, if_true, hanswer]
            cases hanswer : c.answer with
            | asking => exact hm ▸ hnot
            | returned r => exact ⟨hanswer, hm ▸ hnot⟩
            | streaming w =>
                -- The worker has just started, and has done nothing yet.
                obtain ⟨source, hopens, rfl⟩ := exists_of_answer_eq_streaming hanswer
                refine ⟨source, hopens, ?_⟩
                simp only [eq_false (hm ▸ hnot _)]
                exact Worker.accounts_start _ _ source
          · simp only [if_neg hm, hstage]
            exact hnot
      | returned r =>
          rw [hstage] at ih
          simp only [hstage]
          exact ⟨ih.1, not_did_concat ih.2 (by simp [hstage]) m⟩
      | streaming w =>
          rw [hstage] at ih
          obtain ⟨source, hopens, haccounts⟩ := ih
          refine ⟨source, hopens, ?_⟩
          simp only [did_concat_of_streaming hstage]
          by_cases hm : m = .work
          · subst hm
            simpa using haccounts.work
          · simpa [hm] using haccounts.take hm

/-- What the handlers were told of the end of a call, if it has ended for them. -/
theorem exists_terminal {c : LiveCall} (hc : c.stage = .asking) (ms : List Move) :
    ∃ terminal : Option Ending, (c.after ms).endings = terminal.toList ∧
      ((c.after ms).IsOver → terminal ≠ none) ∧
      ∀ ending, terminal = some ending →
        (∀ reply, ending = .ok reply ↔ (c.after ms).stage = .returned (.ok reply) ∨
          ∃ w, (c.after ms).stage = .streaming w ∧ c.Did Worker.EndsSource ms ∧
            ¬ c.Did Worker.IsRefused ms ∧ w.merged = .ok reply) ∧
        (c.demand.NeverCancels → ((∃ e, ending = .error e ∧ e.isCancelled = true) ↔
          c.Did Worker.Halts ms ∨ c.Did Worker.IsRefused ms)) := by
  have hstands := stands hc ms
  unfold endings IsOver
  cases hstage : (c.after ms).stage with
  | asking => exact ⟨none, rfl, by simp, by simp⟩
  | returned r =>
      rw [hstage] at hstands
      obtain ⟨hanswer, hnot⟩ := hstands
      refine ⟨some r, rfl, by simp, ?_⟩
      rintro _ ⟨⟩
      refine ⟨by simp, fun hdemand => iff_of_false ?_ (by simp [hnot])⟩
      rintro ⟨e, rfl, hcancelled⟩
      simp [neverCancelled_of_answer hanswer hdemand e rfl] at hcancelled
  | streaming w =>
      rw [hstage] at hstands
      obtain ⟨source, ⟨outcome, wire, k, hdemand, hsource⟩, haccounts⟩ := hstands
      rcases haccounts.endings_cases with ⟨hendings, hnot⟩ | ⟨outcome, hendings, hfits⟩
      · refine ⟨none, hendings, ?_, by simp⟩
        exact fun hphase => absurd (Or.inr (Or.inl hphase)) hnot
      · refine ⟨some (w.endingOf outcome), hendings, by simp, ?_⟩
        rintro _ ⟨⟩
        refine ⟨fun reply => ?_, fun hnever => ?_⟩
        · rw [Worker.endingOf_eq_ok_iff hfits]
          simp
        · rw [hdemand] at hnever
          exact Worker.exists_endingOf_isCancelled_iff hfits (hnever.2 wire k source hsource)

/-- **Handlers are told of one start and one end.**  Each handler that is attached when a call
begins is told the same events of the same run: first the start, and then at most one end, which
comes before the call is over.  It is a good end when a reply is returned, or when the worker of the
stream reached the end of the source, was refused nothing, and what it forwarded can be merged.  It
is a failure as cancelled when the worker stopped for its consumer, unless attempts or reads fail
so. -/
theorem accounted (m : ChatModel) (globals own : List Handler) (id : Nat) (messages : List Message)
    (options : CallOptions) (demand : Demand) (ms : List Move) :
    let c := begin m globals own id messages options demand
    let d := c.after ms
    let info : RunInfo := ⟨m.name, m.vendor.typeName, id⟩
    let handlers := globals ++ (m.handlers ++ own)
    d.notices = d.events.flatMap (fun event => handlers.flatMap (Handler.notify info event)) ∧
    (∀ place, (Recorder.ofNotices place d.notices).events = d.events.flatMap fun event =>
      List.replicate ((handlers.flatMap Handler.places).count place) (info, event)) ∧
    ∃ terminal : Option Ending,
      d.events = .started c.input :: (terminal.map (CallEvent.ofResult c.input.settings)).toList ∧
      (d.IsOver → terminal ≠ none) ∧
      ∀ ending, terminal = some ending →
        (∀ reply, ending = .ok reply ↔ d.stage = .returned (.ok reply) ∨
          ∃ w, d.stage = .streaming w ∧ c.Did Worker.EndsSource ms ∧
            ¬ c.Did Worker.IsRefused ms ∧ w.merged = .ok reply) ∧
        (demand.NeverCancels → ((∃ e, ending = .error e ∧ e.isCancelled = true) ↔
          c.Did Worker.Halts ms ∨ c.Did Worker.IsRefused ms)) := by
  intro c d info handlers
  obtain ⟨stage, hafter⟩ : ∃ stage, d = { c with stage } := c.exists_after_eq ms
  have hrun : d.run = ⟨info, handlers⟩ := by
    rw [hafter]
    rfl
  have hinput : d.input = c.input := by rw [hafter]
  refine ⟨?_, fun place => ?_, ?_⟩
  · rw [notices, hrun]
    rfl
  · rw [notices, Run.recorded, hrun]
  · obtain ⟨terminal, hendings, hover, hterminal⟩ := exists_terminal (c := c) rfl ms
    refine ⟨terminal, ?_, hover, hterminal⟩
    rw [events, hendings, hinput]
    cases terminal <;> rfl

/-- A call for a stream of one chunk. -/
def greeting : LiveCall :=
  begin
    { name := "local", vendor := .ollama { http := default }, defaults := { model := "llama" }
      retry := .once, streaming := {} }
    [.log] [.recorder 0] 7 [.user "Hello"] {}
    (.stream fun _ _ => .ok [.value (.ofMembers [("message", .ofMembers
      [("content", .text "Hel")])])])

/-- The consumer cancels when it has got the one fragment, and the worker goes on to its end. -/
def cancelling : List Move :=
  List.replicate 5 .work ++ [.receive, .cancel] ++ List.replicate 4 .work

/-- The worker gives up reading, and the handlers are told that the call was cancelled. -/
theorem accounted_cancelled :
    (greeting.after cancelling).IsOver ∧ greeting.demand.NeverCancels ∧
      greeting.Did Worker.Halts cancelling ∧
      ∃ e, (greeting.after cancelling).events = [.started greeting.input, .failed e] ∧
        e.isCancelled = true := by
  have hover : (greeting.after cancelling).IsOver := rfl (a := Phase.finished)
  have hnever : greeting.demand.NeverCancels := by
    refine ⟨fun _ _ => Result.neverCancelled_ok _, fun _ _ source hsource e he => ?_⟩
    cases hsource
    simp at he
  have hhalts : greeting.Did Worker.Halts cancelling := by
    refine ⟨List.replicate 5 .work ++ [.receive, .cancel], List.replicate 3 .work, _, rfl, rfl, ?_⟩
    exact ⟨Or.inl rfl, rfl⟩
  refine ⟨hover, hnever, hhalts, ?_⟩
  obtain ⟨-, -, terminal, hevents, hterminal, hending⟩ := accounted greeting.model [.log]
    [.recorder 0] 7 [.user "Hello"] {} greeting.demand cancelling
  obtain ⟨ending, rfl⟩ := Option.ne_none_iff_exists'.mp (hterminal hover)
  obtain ⟨e, rfl, hcancelled⟩ := ((hending ending rfl).2 hnever).mpr (Or.inl hhalts)
  exact ⟨e, hevents, hcancelled⟩

end LiveCall

/-! ### Rehearsed calls -/

namespace Rehearsal

/-- What a rehearsed call asks for, with the answers that are left. -/
def demand (r : Rehearsal) (p : CallPlan) : Demand :=
  match p.actions with
  | none => .reply fun _ => Script.outcome r.script.replies
  | some _ => .stream fun _ => Script.outcome r.script.streams

/-- A call as a rehearsed one begins. -/
def begin (r : Rehearsal) (p : CallPlan) : LiveCall :=
  .begin r.model r.globals p.handlers r.nextId p.messages p.options (r.demand p)

/-- What the handlers of a stream that was left are still told when its worker has its turn. -/
def owed (s : OpenStream) : List Notice :=
  { s with session := s.session.abandon }.notices s.session.worker.endings.length

/-- What a stream still owes is what some more moves of its call leave. -/
theorem exists_owed {c : LiveCall} {s : OpenStream} (hstage : c.stage = .streaming s.session.worker)
    (hrun : s.run = c.run) (hsettings : s.settings = c.input.settings) :
    ∃ ms, (c.after ms).endNotices = c.endNotices ++ owed s := by
  obtain ⟨ms, hms⟩ := s.session.reaches_abandon
  obtain ⟨later, hlater⟩ := s.session.worker.endings_prefix_after ms
  refine ⟨ms, ?_⟩
  have howed : owed s = later.flatMap fun ending =>
      s.run.notify (.ofResult s.settings ending) := by
    rw [owed, OpenStream.notices, ← hms, ← hlater, List.drop_left]
  rw [LiveCall.after_of_streaming hstage, howed, hrun, hsettings]
  simp only [LiveCall.endNotices, LiveCall.endings, hstage, ← hlater, List.flatMap_append]

theorem answer_begin_of_none {r : Rehearsal} {p : CallPlan} (hp : p.actions = none) :
    (r.begin p).answer = .returned (r.model.generate (r.begin p).request
      fun _ => Script.outcome r.script.replies).result := by
  simp [LiveCall.answer, begin, LiveCall.begin, demand, hp]

theorem answer_begin_of_some {r : Rehearsal} {p : CallPlan} {actions : List Action}
    (hp : p.actions = some actions) :
    (r.begin p).answer =
      match (r.model.openStream (r.begin p).request
        fun _ => Script.outcome r.script.streams).result with
      | .ok w => .streaming w
      | .error e => .returned (.error e) := by
  simp [LiveCall.answer, begin, LiveCall.begin, demand, hp]

/-- **A rehearsed call leaves the traces of a call after some moves,** and between those of its
start and its end the traces that streams left before it still owe.  What a stream that it leaves
owes is what more moves of the same call leave. -/
theorem call_notices (r : Rehearsal) (p : CallPlan) : ∃ ms others,
    (others = [] ∨ others = r.left.flatMap owed) ∧
    (r.call p).1.notices =
      (r.begin p).startNotices ++ others ++ ((r.begin p).after ms).endNotices ∧
    ∀ s ∈ (r.call p).2.left, s ∈ r.left ∨ ∃ ms',
      ((r.begin p).after (ms ++ ms')).endNotices = ((r.begin p).after ms).endNotices ++ owed s := by
  have hasked : (r.begin p).after [.work] = { r.begin p with stage := (r.begin p).answer } :=
    LiveCall.take_work_of_asking (c := r.begin p) rfl
  -- Where there is more than one attempt, the call waits, and the streams that were left go on.
  have hothers (attempts : Nat) : (if 1 < attempts then r.leftNotices else []) = [] ∨
      (if 1 < attempts then r.leftNotices else []) = r.left.flatMap owed := by
    split
    · exact Or.inr rfl
    · exact Or.inl rfl
  have hleft (attempts : Nat) : ∀ s ∈ (if 1 < attempts then [] else r.left), s ∈ r.left := by
    split <;> simp
  unfold call
  cases hactions : p.actions with
  | none =>
      rw [answer_begin_of_none hactions] at hasked
      refine ⟨[.work], _, hothers (r.model.generate (r.begin p).request
        fun _ => Script.outcome r.script.replies).sent.length, ?_,
        fun s hs => Or.inl (hleft _ s hs)⟩
      simp only [generate, hasked, LiveCall.endNotices, LiveCall.endings, List.flatMap_singleton]
      rfl
  | some actions =>
      rw [answer_begin_of_some hactions] at hasked
      simp only [stream]
      split
      · next e he =>
        have hresult : (r.model.openStream (r.begin p).request
          fun _ => Script.outcome r.script.streams).result = .error e := he
        rw [hresult] at hasked
        refine ⟨[.work], _, hothers (r.model.openStream (r.begin p).request
          fun _ => Script.outcome r.script.streams).sent.length, ?_,
          fun s hs => Or.inl (hleft _ s hs)⟩
        simp only [hasked, LiveCall.endNotices, LiveCall.endings, List.flatMap_singleton]
        rfl
      · next worker hworker =>
        have hresult : (r.model.openStream (r.begin p).request
          fun _ => Script.outcome r.script.streams).result = .ok worker := hworker
        rw [hresult] at hasked
        obtain ⟨ms, hms⟩ := Session.reaches_run worker actions
        have hafter : (r.begin p).after (.work :: ms) =
            { r.begin p with stage := .streaming (Session.run worker actions).2.worker } := by
          rw [← List.singleton_append, LiveCall.after_append, hasked,
            LiveCall.after_of_streaming rfl, hms]
        refine ⟨.work :: ms, _, Or.inr rfl, ?_, fun s hs => Or.inr ?_⟩
        · rw [hafter]
          rfl
        · cases List.mem_singleton.mp hs
          simp only [LiveCall.after_append, hafter]
          exact exists_owed rfl rfl rfl

end Rehearsal

end ChatRelay
