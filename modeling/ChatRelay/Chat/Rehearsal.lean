import ChatRelay.Callback.Recorder
import ChatRelay.Chat.Call
import ChatRelay.Http.Exchange
import ChatRelay.Stream.Session

/-!
# Rehearsals

Calls of a model against prepared answers, one after the other.

## Main definitions

* `Script` — the prepared answers
* `Rehearsal` — the answers that are left, and the streams that were left behind
* `Rehearsal.call` — one call
* `Rehearsal.run` — a list of calls

## Design notes

A stream that its consumer leaves before the end goes on for a moment: its worker has its next turn
when a later call waits for something, which is when that call has told its handlers of its start.
-/

namespace ChatRelay

/-- The prepared answers for whole replies and for streams, in the order of the requests. -/
structure Script where
  replies : List (Result Json) := []
  streams : List (Result (List SourceStep)) := []

/-- What comes of a request for which nothing was prepared. -/
def Script.exhausted : Error :=
  .runtime "no scripted reply" {}

/-- What the `k`-th attempt comes to, counted from one. -/
def Script.outcome {α : Type} (answers : List (Result α)) (k : Nat) : Result α :=
  (answers[k - 1]?).getD (.error exhausted)

/-- A call as it is asked for. -/
structure CallPlan where
  messages : List Message
  options : CallOptions := {}
  handlers : List Handler := []
  /-- What the consumer does with the stream; none for a whole reply. -/
  actions : Option (List Action) := none

/-- What is seen of a call. -/
inductive CallSight where
  | result (r : Result Message)
  /-- The stream was opened; what each action left behind. -/
  | observations (os : List Observation)

/-- What a call came to. -/
structure CallReport where
  sight : CallSight
  sent : List (Nat × WireRequest)
  notices : List Notice

/-- A stream that was opened, and the run that it belongs to. -/
structure OpenStream where
  run : Run
  settings : Settings
  session : Session

/-- The traces that the handlers leave of what the worker has reported after the first reports. -/
def OpenStream.notices (s : OpenStream) (known : Nat) : List Notice :=
  (s.session.worker.endings.drop known).flatMap fun ending =>
    s.run.notify (.ofResult s.settings ending)

/-- The calls so far. -/
structure Rehearsal where
  model : ChatModel
  globals : List Handler := []
  script : Script := {}
  /-- The number of the next call. -/
  nextId : Nat := 0
  /-- The streams that were left before their end. -/
  left : List OpenStream := []

namespace Rehearsal

/-- The traces of the streams that were left, when their workers have their turn. -/
def leftNotices (r : Rehearsal) : List Notice :=
  r.left.flatMap fun s =>
    { s with session := s.session.abandon }.notices s.session.worker.endings.length

/-- A call for a whole reply. Workers have a turn if it has to wait between two attempts. -/
def generate (r : Rehearsal) (p : CallPlan) : CallReport × Rehearsal :=
  let (request, input) := r.model.prepare p.messages p.options
  let run := r.model.startRun r.globals r.nextId p.handlers
  let e := r.model.generate request fun _ => Script.outcome r.script.replies
  let waits := 1 < e.sent.length
  let notices := run.notify (.started input) ++ (if waits then r.leftNotices else []) ++
    run.notify (.ofResult input.settings e.result)
  (⟨.result e.result, e.sent, notices⟩,
    { r with
        nextId := r.nextId + 1
        script := { r.script with replies := r.script.replies.drop e.sent.length }
        left := if waits then [] else r.left })

/-- A call for a stream, and what its consumer does with it. -/
def stream (r : Rehearsal) (p : CallPlan) (actions : List Action) : CallReport × Rehearsal :=
  let (request, input) := r.model.prepare p.messages p.options
  let run := r.model.startRun r.globals r.nextId p.handlers
  let e := r.model.openStream request fun _ => Script.outcome r.script.streams
  let r' :=
    { r with
        nextId := r.nextId + 1
        script := { r.script with streams := r.script.streams.drop e.sent.length } }
  match e.result with
  | .error error =>
    let waits := 1 < e.sent.length
    (⟨.result (.error error), e.sent,
        run.notify (.started input) ++ (if waits then r.leftNotices else []) ++
          run.notify (.failed error)⟩,
      { r' with left := if waits then [] else r.left })
  | .ok worker =>
    let (observations, session) := Session.run worker actions
    let opened : OpenStream := ⟨run, input.settings, session⟩
    (⟨.observations observations, e.sent,
        run.notify (.started input) ++ r.leftNotices ++ opened.notices 0⟩,
      { r' with left := [opened] })

/-- One call. -/
def call (r : Rehearsal) (p : CallPlan) : CallReport × Rehearsal :=
  match p.actions with
  | none => r.generate p
  | some actions => r.stream p actions

/-- The calls of a list, one after the other. -/
def run (r : Rehearsal) : List CallPlan → List CallReport
  | [] => []
  | p :: ps =>
    let (report, r) := r.call p
    report :: run r ps

end Rehearsal

end ChatRelay
