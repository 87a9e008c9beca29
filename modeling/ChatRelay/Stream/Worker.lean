import ChatRelay.Config.Streaming
import ChatRelay.Stream.Accumulator
import ChatRelay.Stream.Channel
import ChatRelay.Vendor

/-!
# Stream workers

A worker reads one value after the other from an open stream of a vendor, repairs and coalesces the
fragments, and offers them to the consumer. It never starts to read once the consumer has cancelled.

When it is done, for whatever reason, it releases the source, reports how the call ended, and, if it
ended with an error of its own, tells the consumer; only then is its end of the channel gone. So a
consumer that sees the end of a stream knows that all is settled.

## Main definitions

* `SourceStep` — what one read of a source comes to
* `Phase` — where a worker stands
* `Worker.step` — the next thing that a worker does, unless it has to wait
* `Worker.settle` — all that it can do without the consumer

## Design notes

A step is what happens without interruption, so the steps of a worker and the actions of its
consumer interleave in every way in which two tasks can. A read is two steps, since a value may come
late: its start, which looks for a cancellation first, and its end. That an item was accepted and
that it counts as forwarded are two steps as well, as the consumer may be faster.
-/

namespace ChatRelay

/-- What one read of a source comes to. After the last step a source is at its end. -/
inductive SourceStep where
  | value (v : Json)
  | failure (e : Error)
  /-- The read breaks down, for a reason. -/
  | crash (reason : String)
  /-- The read never returns. -/
  | silence
deriving DecidableEq, Repr

/-- The step of an item of a decoded stream. -/
def SourceStep.ofItem : Result Json → SourceStep
  | .ok v => value v
  | .error e => failure e

/-- How the reading of a stream ended. -/
inductive Outcome where
  /-- The source is at its end, and every fragment was accepted. -/
  | completed
  | failed (e : Error)
  /-- The consumer cancelled or is gone. -/
  | cancelled
deriving DecidableEq, Repr

/-- How a call ended, as its handlers are told. -/
abbrev Ending := Result Message

/-- Where a worker stands. -/
inductive Phase where
  /-- It is about to read. -/
  | polling
  /-- It has started to read; `none` is the end of the source. -/
  | awaiting (read : Option SourceStep)
  /-- It has a fragment for the consumer; `final` if the source is at its end. -/
  | offering (fragment : Message) (final : Bool)
  /-- A fragment was accepted. -/
  | recording (fragment : Message) (final : Bool)
  /-- It is done with reading. -/
  | releasing (outcome : Outcome)
  /-- It is about to report. -/
  | reporting (outcome : Outcome)
  /-- It has an error for the consumer. -/
  | raising (e : Error)
  /-- It is about to leave the channel. -/
  | leaving
  | finished
deriving DecidableEq, Repr

/-- A worker. -/
structure Worker where
  vendor : Vendor
  policy : MalformedChunks
  /-- The reads to come. -/
  source : List SourceStep
  channel : Channel (Result Message)
  phase : Phase := .polling
  accumulator : Accumulator
  /-- The fragments that the consumer accepted. -/
  forwarded : List Message := []
  /-- How many reads have been started. -/
  reads : Nat := 0
  /-- How often the source has been released. -/
  closes : Nat := 0
  /-- What has been reported. -/
  endings : List Ending := []
deriving Repr

namespace Worker

/-- The worker of a stream that has just been opened. -/
def start (vendor : Vendor) (c : StreamConfig) (source : List SourceStep) : Worker where
  vendor := vendor
  policy := c.malformedChunks
  source := source
  channel := .ofCapacity c.channelCapacity
  accumulator := { emptyArguments := vendor.emptyArguments }

/-- The error of a read that broke down. -/
def crashed (reason : String) : Error :=
  .runtime ("stream worker panicked: " ++ reason) { source := some "stream_worker" }

/-- What follows an error of a read or of its value: a malformed chunk may be passed over. -/
def afterFailure (policy : MalformedChunks) (e : Error) : Phase :=
  if e.isMalformedChunk && policy = .skip then .polling else .releasing (.failed e)

/-- What follows what the accumulator says; `final` if the source is at its end. -/
def afterAccumulator (final : Bool) : Result (Option Message) → Phase
  | .ok (some fragment) => .offering fragment final
  | .ok none => if final then .releasing .completed else .polling
  | .error e => .releasing (.failed e)

/-- A read has ended. -/
def receiveRead (w : Worker) : Option SourceStep → Worker
  | none =>
    let (out, accumulator) := w.accumulator.finish
    { w with accumulator, phase := afterAccumulator true out }
  | some (.failure e) => { w with phase := afterFailure w.policy e }
  | some (.crash reason) => { w with phase := .releasing (.failed (crashed reason)) }
  | some .silence => w
  | some (.value v) =>
    match w.vendor.fragment v with
    | .error e => { w with phase := afterFailure w.policy e }
    | .ok none => { w with phase := .polling }
    | .ok (some fragment) =>
      let (out, accumulator) := w.accumulator.push fragment
      { w with accumulator, phase := afterAccumulator false out }

/-- An error as it is reported and raised. -/
def named (w : Worker) (e : Error) : Error :=
  e.withComponent w.vendor.typeName "stream"

/-- The message of all that was forwarded. -/
def merged (w : Worker) : Result Message :=
  if w.forwarded.isEmpty then .ok (.assistant "") else Message.concat w.forwarded

/-- How the call ended. -/
def endingOf (w : Worker) : Outcome → Ending
  | .completed => w.merged.mapError w.named
  | .failed e => .error (w.named e)
  | .cancelled => .error (w.named .cancelled)

/-- What follows a report: an error that is not the consumer's doing is raised. -/
def afterReport (outcome : Outcome) (ending : Ending) : Phase :=
  match outcome, ending with
  | .cancelled, _ => .leaving
  | _, .ok _ => .leaving
  | _, .error e => .raising e

/-- The next thing that a worker does; none if it has to wait, or is finished. -/
def step (w : Worker) : Option Worker :=
  match w.phase with
  | .polling =>
    if w.channel.cancelled then some { w with phase := .releasing .cancelled }
    else some { w with reads := w.reads + 1, source := w.source.tail,
                       phase := .awaiting w.source.head? }
  | .awaiting read =>
    if w.channel.cancelled then some { w with phase := .releasing .cancelled }
    else if read = some .silence then none
    else some (w.receiveRead read)
  | .offering fragment final =>
    match w.channel.offer (.ok fragment) with
    | (.accepted, channel) => some { w with channel, phase := .recording fragment final }
    | (.refused, _) => some { w with phase := .releasing .cancelled }
    | (.blocked, _) => none
  | .recording fragment final =>
    some { w with forwarded := w.forwarded ++ [fragment]
                  phase := if final then .releasing .completed else .polling }
  | .releasing outcome => some { w with closes := w.closes + 1, phase := .reporting outcome }
  | .reporting outcome =>
    let ending := w.endingOf outcome
    some { w with endings := w.endings ++ [ending], phase := afterReport outcome ending }
  | .raising e =>
    match w.channel.offer (.error e) with
    | (.accepted, channel) => some { w with channel, phase := .leaving }
    | (.refused, _) => some { w with phase := .leaving }
    | (.blocked, _) => none
  | .leaving => some { w with channel := w.channel.dropWriter, phase := .finished }
  | .finished => none

/-- The steps to come at most. Each read takes four, and so does the end. -/
def measure (w : Worker) : Nat :=
  match w.phase with
  | .polling => 4 * w.source.length + 8
  | .awaiting (some _) => 4 * w.source.length + 11
  | .offering _ false => 4 * w.source.length + 10
  | .recording _ false => 4 * w.source.length + 9
  | .awaiting none => 7
  | .offering _ true => 6
  | .recording _ true => 5
  | .releasing _ => 4
  | .reporting _ => 3
  | .raising _ => 2
  | .leaving => 1
  | .finished => 0

/-- At most `n` steps. -/
def runFor : Nat → Worker → Worker
  | 0, w => w
  | n + 1, w =>
    match w.step with
    | none => w
    | some w => runFor n w

/-- All that a worker does until it has to wait or is finished. -/
def settle (w : Worker) : Worker :=
  runFor w.measure w

theorem measure_afterFailure (w : Worker) (p : MalformedChunks) (e : Error) :
    { w with phase := afterFailure p e }.measure ≤ 4 * w.source.length + 8 := by
  unfold afterFailure
  split <;> simp [measure]

theorem measure_afterAccumulator (w : Worker) (final : Bool) (out : Result (Option Message)) :
    { w with phase := afterAccumulator final out }.measure <
      { w with phase := .awaiting (if final then none else some .silence) }.measure := by
  cases final <;> rcases out with e | _ | m <;> simp [afterAccumulator, measure]

theorem measure_receiveRead (w : Worker) (read : Option SourceStep) (h : read ≠ some .silence) :
    (w.receiveRead read).measure < { w with phase := .awaiting read }.measure := by
  rcases read with _ | (v | e | _ | _)
  · exact measure_afterAccumulator { w with accumulator := w.accumulator.finish.2 } true _
  · simp only [receiveRead]
    split
    · exact Nat.lt_of_le_of_lt (measure_afterFailure ..) (by simp [measure])
    · simp [measure]
    · next f _ =>
      exact measure_afterAccumulator { w with accumulator := (w.accumulator.push f).2 } false _
  · exact Nat.lt_of_le_of_lt (measure_afterFailure ..) (by simp [measure])
  · simp only [receiveRead, measure]
    omega
  · exact absurd rfl h

/-- Every step brings a worker closer to its end. -/
theorem measure_lt_of_step {w w' : Worker} (h : w.step = some w') : w'.measure < w.measure := by
  have hphase (p : Phase) (hp : w.phase = p) : w = { w with phase := p } := by subst hp; rfl
  unfold step at h
  split at h
  · next hp =>
    split at h <;> cases h
    · simp [measure, hp]
    · rcases hs : w.source with _ | ⟨a, rest⟩
      · simp [measure, hp, hs]
      · simp [measure, hp, hs]
        omega
  · next read hp =>
    split at h
    · cases h
      cases read <;> simp [measure, hp]
    · split at h
      · cases h
      · next hr =>
        cases h
        have := measure_receiveRead w read hr
        rwa [← hphase _ hp] at this
  · next final hp =>
    split at h <;> cases h <;> cases final <;> simp [measure, hp]
  · next final hp =>
    cases h
    cases final <;> simp [measure, hp]
  · next hp => cases h; simp [measure, hp]
  · next hp =>
    cases h
    simp only [afterReport]
    split <;> simp [measure, hp]
  · next hp => split at h <;> cases h <;> simp [measure, hp]
  · next hp => cases h; simp [measure, hp]
  · cases h

theorem step_runFor {n : Nat} {w : Worker} (h : w.measure ≤ n) : (runFor n w).step = none := by
  induction n generalizing w with
  | zero =>
    rcases hs : w.step with _ | w'
    · exact hs
    · have := measure_lt_of_step hs
      omega
  | succ n ih =>
    unfold runFor
    split
    · assumption
    · next hs =>
      have := measure_lt_of_step hs
      exact ih (by omega)

/-- A settled worker has to wait, or is finished. -/
theorem step_settle (w : Worker) : w.settle.step = none :=
  step_runFor (Nat.le_refl _)

end Worker

end ChatRelay
