import ChatRelay.Stream.ChannelOp

/-!
# Sends that wait

A send that finds no room waits until there is some, it is given up, or the consumer cancels.
Several sends may wait. They are served in the order in which they began to, though not at once: a
place that gets free is kept for the one that has waited longest, until it looks again. A send looks
for a cancellation whenever it looks for room.

## Main definitions

* `Channel.offerBehind` — an item is offered while other sends wait longer
* `Traffic` — a channel and the sends that wait, each with a number
* `TrafficOp`, `TrafficEvent` — what is done, and what can be seen of it
* `Traffic.step` — one operation

## Design notes

The numbers of sends travel with their items, so that two sends of the same item can be told apart.
A channel never looks at what it holds.
-/

namespace ChatRelay

/-- What becomes of an item that is offered now, while as many sends as `ahead` wait longer. A place
is kept for each of them. -/
def Channel.offerBehind {α : Type} (c : Channel α) (ahead : Nat) (a : α) : Offer × Channel α :=
  if c.isAbandoned then (.refused, c)
  else if c.queue.length + ahead < c.capacity then
    (.accepted, { c with queue := c.queue ++ [a] })
  else (.blocked, c)

/-- A channel with sends that wait. -/
structure Traffic (α : Type) where
  /-- The channel, with the number of its send beside each item. -/
  channel : Channel (Nat × α)
  /-- The sends that wait, the longest first. -/
  waiting : List (Nat × α) := []
  /-- How many sends have begun. -/
  begun : Nat := 0
deriving DecidableEq, Repr

/-- What is done with a channel. -/
inductive TrafficOp (α : Type) where
  /-- A send begins, and looks at the channel. -/
  | send (item : α)
  /-- The send at a place among those that wait looks again. -/
  | look (place : Nat)
  /-- The send at a place among those that wait is given up. -/
  | abandon (place : Nat)
  | receive
  | cancel
  | close
  | drop
  | dropWriter
deriving DecidableEq, Repr

/-- What can be seen of a send. -/
inductive SendSign where
  | began
  /-- It returned true. -/
  | accepted
  /-- It returned false. -/
  | refused
  | abandoned
  /-- Its item is received. -/
  | received
deriving DecidableEq, Repr

/-- What can be seen of a channel. -/
inductive TrafficEvent (α : Type) where
  | of (sign : SendSign) (send : Nat × α)
  /-- The reader is told that there will be no more items. -/
  | ended
deriving DecidableEq, Repr

namespace TrafficEvent

variable {α : Type}

/-- The send of which something is seen. -/
def send? (sign : SendSign) : TrafficEvent α → Option (Nat × α)
  | of s send => if s = sign then some send else none
  | ended => none

/-- The sends of which something is seen, in order. -/
def seen (sign : SendSign) (es : List (TrafficEvent α)) : List (Nat × α) :=
  es.filterMap (send? sign)

end TrafficEvent

namespace Traffic

variable {α : Type}

/-- A new channel. -/
def ofCapacity (capacity : Nat) : Traffic α :=
  { channel := .ofCapacity capacity }

/-- One more send, behind those that wait. -/
def join (t : Traffic α) (item : α) : Traffic α :=
  { t with waiting := t.waiting ++ [(t.begun, item)], begun := t.begun + 1 }

/-- The send at a place no longer waits. -/
def leave (t : Traffic α) (place : Nat) : Traffic α :=
  { t with waiting := t.waiting.eraseIdx place }

/-- The send at a place among those that wait looks at the channel. It returns unless there is no
room. -/
def look (t : Traffic α) (place : Nat) : List (TrafficEvent α) × Traffic α :=
  match t.waiting[place]? with
  | none => ([], t)
  | some send =>
    match t.channel.offerBehind place send with
    | (.accepted, channel) => ([.of .accepted send], { t.leave place with channel })
    | (.refused, _) => ([.of .refused send], t.leave place)
    | (.blocked, _) => ([], t)

/-- The send at a place among those that wait is given up. -/
def abandon (t : Traffic α) (place : Nat) : List (TrafficEvent α) × Traffic α :=
  match t.waiting[place]? with
  | none => ([], t)
  | some send => ([.of .abandoned send], t.leave place)

/-- The reader asks for an item. -/
def receive (t : Traffic α) : List (TrafficEvent α) × Traffic α :=
  match t.channel.receive with
  | (.item send, channel) => ([.of .received send], { t with channel })
  | (.ended, _) => ([.ended], t)
  | (.blocked, _) => ([], t)

/-- One operation: what can be seen of it, and what it leaves behind. An end that is gone does
nothing. A cancellation needs no end. With the writer go the sends that wait. -/
def step (t : Traffic α) : TrafficOp α → List (TrafficEvent α) × Traffic α
  | .send item =>
    if t.channel.writerOpen then
      let (es, t') := (t.join item).look t.waiting.length
      (.of .began (t.begun, item) :: es, t')
    else ([], t)
  | .look place => t.look place
  | .abandon place => t.abandon place
  | .receive => if t.channel.readerOpen then t.receive else ([], t)
  | .cancel => ([], { t with channel := t.channel.cancel })
  | .close | .drop =>
    if t.channel.readerOpen then ([], { t with channel := t.channel.drop }) else ([], t)
  | .dropWriter =>
    if t.channel.writerOpen then
      (t.waiting.map (.of .abandoned), { t with channel := t.channel.dropWriter, waiting := [] })
    else ([], t)

/-- What some operations leave behind. -/
def after (t : Traffic α) (ops : List (TrafficOp α)) : Traffic α :=
  ops.foldl (fun t op => (t.step op).2) t

/-- What can be seen of some operations. -/
def events (t : Traffic α) : List (TrafficOp α) → List (TrafficEvent α)
  | [] => []
  | op :: ops => (t.step op).1 ++ (t.step op).2.events ops

end Traffic

end ChatRelay
