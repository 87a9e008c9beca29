import ChatRelay.Stream.Worker

/-!
# The consumer of a stream

A consumer acts on a stream, and in between the worker does all that it can.

## Main definitions

* `Action` — what a consumer does
* `Session` — a worker, and whether the consumer still has its end of the stream
* `Session.act` — one action, and what comes of it
* `Session.run` — a list of actions
-/

namespace ChatRelay

/-- What a consumer does. -/
inductive Action where
  /-- Read some items. -/
  | read (count : Nat)
  /-- Read to the end. -/
  | drain
  /-- Read to the end for one message. This uses the stream up. -/
  | collect
  /-- Cancel, and keep the stream. -/
  | cancel
  | close
  | drop
deriving DecidableEq, Repr

/-- What a consumer sees. -/
inductive Sight where
  | item (r : Result Message)
  | ended
  /-- Nothing comes, however long it waits. -/
  | blocked
deriving Repr

/-- A stream with its worker. -/
structure Session where
  worker : Worker
  /-- Whether the consumer has used the stream up. -/
  usedUp : Bool := false

/-- What an action leaves behind. -/
structure Observation where
  sights : List Sight
  reads : Nat
  closes : Nat
  cancelled : Bool
deriving Repr

namespace Session

/-- The worker does all that it can. -/
def settle (s : Session) : Session :=
  { s with worker := s.worker.settle }

/-- Changes the channel. -/
def onChannel (s : Session) (f : Channel (Result Message) → Channel (Result Message)) : Session :=
  { s with worker := { s.worker with channel := f s.worker.channel } }

/-- One item. If there is none yet, the worker has its turn first. -/
def next (s : Session) : Sight × Session :=
  let s := if s.worker.channel.queue.isEmpty then s.settle else s
  match s.worker.channel.receive with
  | (.item r, channel) => (.item r, s.onChannel fun _ => channel)
  | (.ended, _) => (.ended, s)
  | (.blocked, _) => (.blocked, s)

/-- At most `n` items; the first thing that is no item ends the reading. -/
def readUpTo : Nat → Session → List Sight × Session
  | 0, s => ([], s)
  | n + 1, s =>
    match s.next with
    | (.item r, s) =>
      let (sights, s) := readUpTo n s
      (.item r :: sights, s)
    | (sight, s) => ([sight], s)

/-- A bound on the items that are still to come, and the end. -/
def remaining (s : Session) : Nat :=
  s.worker.channel.queue.length + s.worker.measure + 1

/-- The fragments up to the first thing that is none. -/
def collectFrom : Nat → List (Result Message) → Session → Sight × Session
  | 0, _, s => (.blocked, s)
  | n + 1, items, s =>
    match s.next with
    | (.item (.ok f), s) => collectFrom n (items ++ [.ok f]) s
    | (.item (.error e), s) => (.item (.error e), s)
    | (.ended, s) => (.item (Message.ofItems items), s)
    | (.blocked, s) => (.blocked, s)

/-- One action on a stream that is not used up. -/
def perform (s : Session) : Action → List Sight × Session
  | .read n => readUpTo n s
  | .drain => readUpTo s.remaining s
  | .collect =>
    let (sight, s) := collectFrom s.remaining [] s
    ([sight], { s.onChannel Channel.drop with usedUp := true })
  | .cancel => ([], s.onChannel Channel.cancel)
  | .close | .drop => ([], { s.onChannel Channel.drop with usedUp := true })

/-- One action. On a stream that is used up it does nothing. -/
def act (s : Session) (a : Action) : Observation × Session :=
  let (sights, s) := if s.usedUp then ([], s) else s.perform a
  let s := s.settle
  (⟨sights, s.worker.reads, s.worker.closes, s.worker.channel.cancelled⟩, s)

/-- The actions of a list, one after the other. -/
def actAll (s : Session) : List Action → List Observation × Session
  | [] => ([], s)
  | a :: rest =>
    let (o, s) := s.act a
    let (os, s) := s.actAll rest
    (o :: os, s)

/-- The actions of a list on a stream whose worker has had its turn. -/
def run (w : Worker) (actions : List Action) : List Observation × Session :=
  Session.actAll (Session.settle ⟨w, false⟩) actions

/-- The consumer leaves, and the worker comes to its end. -/
def abandon (s : Session) : Session :=
  (s.onChannel Channel.drop).settle

end Session

end ChatRelay
