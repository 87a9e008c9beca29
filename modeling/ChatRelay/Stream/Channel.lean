import ChatRelay.Message.Concat

/-!
# Channels between a stream and its consumer

A bounded queue with two ends. The writer waits when the queue is full. The consumer may cancel at
any time; closing or dropping its end cancels too. A cancelled writer is refused even if there is
room, while a reader that is still there gets what was accepted before.

## Main definitions

* `Channel` — the queue, and what has become of its ends
* `Channel.offer`, `Channel.receive` — one item in, one item out
* `Channel.cancel`, `Channel.close`, `Channel.drop`, `Channel.dropWriter` — the ends
* `Message.ofItems` — the message of all items of a stream
-/

namespace ChatRelay

/-- A bounded queue. -/
structure Channel (α : Type) where
  capacity : Nat
  queue : List α := []
  cancelled : Bool := false
  readerOpen : Bool := true
  writerOpen : Bool := true
deriving DecidableEq, Repr

/-- What becomes of an item that is offered. -/
inductive Offer where
  | accepted
  /-- There is no consumer any more. -/
  | refused
  /-- There is no room. -/
  | blocked
deriving DecidableEq, Repr

/-- What a reader gets. -/
inductive Receipt (α : Type) where
  | item (a : α)
  /-- There will be no more items. -/
  | ended
  /-- There is no item yet. -/
  | blocked
deriving DecidableEq, Repr

namespace Channel

variable {α : Type}

/-- A channel with room for at least one item. -/
def ofCapacity (capacity : Nat) : Channel α :=
  { capacity := max capacity 1 }

/-- Whether the writer knows that its items are not wanted. -/
def isAbandoned (c : Channel α) : Bool :=
  c.cancelled || !c.readerOpen

/-- What becomes of an item that is offered now. -/
def offer (c : Channel α) (a : α) : Offer × Channel α :=
  if c.isAbandoned then (.refused, c)
  else if c.queue.length < c.capacity then (.accepted, { c with queue := c.queue ++ [a] })
  else (.blocked, c)

/-- The next item, in the order of arrival. -/
def receive (c : Channel α) : Receipt α × Channel α :=
  match c.queue with
  | a :: rest => (.item a, { c with queue := rest })
  | [] => (if c.writerOpen then .blocked else .ended, c)

/-- The consumer wants no more items. -/
def cancel (c : Channel α) : Channel α :=
  { c with cancelled := true }

/-- The reader is gone, and with it what waits for it. -/
def drop (c : Channel α) : Channel α :=
  { c with cancelled := true, readerOpen := false, queue := [] }

/-- The writer is gone. -/
def dropWriter (c : Channel α) : Channel α :=
  { c with writerOpen := false }

end Channel

/-- The message of all items of a stream: the first error, or all fragments together. -/
def Message.ofItems (items : List (Result Message)) : Result Message := do
  let fragments ← items.mapM id
  if fragments.isEmpty then
    .error (.runtime "stream ended without any fragment" { source := some "message_stream" })
  else Message.concat fragments

end ChatRelay
