import ChatRelay.Stream.Channel

/-!
# Operations on channels

Everything that a writer and a consumer can do with a channel, as data, so that histories can be
talked about. An end that is gone cannot do anything.

## Main definitions

* `ChannelOp` — what is done
* `ChannelOutcome` — what comes of it
* `Channel.perform`, `Channel.performAll` — one operation, and a list of them
-/

namespace ChatRelay

/-- What is done with a channel of messages. -/
inductive ChannelOp where
  /-- An item is offered, and given up if there is no room. -/
  | send (item : Result Message)
  | receive
  /-- All items are received for one message, which uses the reader up. -/
  | collect
  /-- The writer looks for a cancellation. -/
  | lookForCancel
  | cancel
  | close
  | drop
  | dropWriter
deriving Repr

/-- What comes of an operation. -/
inductive ChannelOutcome where
  | sent (accepted : Bool)
  | received (item : Result Message)
  | ended
  | blocked
  | saw (cancelled : Bool)
  | done
  /-- The end of the channel that would do it is gone. -/
  | gone
deriving Repr

namespace Channel

/-- The message of all items up to the end or the first error; none if the end does not come. -/
def collect? (c : Channel (Result Message)) : Option (Result Message) :=
  if c.writerOpen && c.queue.all (·.toBool) then none else some (Message.ofItems c.queue)

/-- An operation of the writer. -/
def performWriter (c : Channel (Result Message)) :
    ChannelOp → ChannelOutcome × Channel (Result Message)
  | .send item =>
    match c.offer item with
    | (.accepted, c) => (.sent true, c)
    | (.refused, c) => (.sent false, c)
    | (.blocked, c) => (.blocked, c)
  | .lookForCancel => (.saw c.cancelled, c)
  | _ => (.done, c.dropWriter)

/-- An operation of the reader. -/
def performReader (c : Channel (Result Message)) :
    ChannelOp → ChannelOutcome × Channel (Result Message)
  | .receive =>
    match c.receive with
    | (.item item, c) => (.received item, c)
    | (.ended, c) => (.ended, c)
    | (.blocked, c) => (.blocked, c)
  | .collect => ((c.collect?.map .received).getD .blocked, c.drop)
  | _ => (.done, c.drop)

/-- An operation, if the end of the channel that does it is still there. A cancellation needs no
end. -/
def perform (c : Channel (Result Message)) (op : ChannelOp) :
    ChannelOutcome × Channel (Result Message) :=
  match op with
  | .cancel => (.done, c.cancel)
  | .send _ | .lookForCancel | .dropWriter =>
    if c.writerOpen then c.performWriter op else (.gone, c)
  | .receive | .collect | .close | .drop =>
    if c.readerOpen then c.performReader op else (.gone, c)

/-- The operations of a list, each with the channel that it leaves. -/
def performAll (c : Channel (Result Message)) :
    List ChannelOp → List (ChannelOutcome × Channel (Result Message))
  | [] => []
  | op :: ops =>
    let (outcome, c) := c.perform op
    (outcome, c) :: c.performAll ops

end Channel

end ChatRelay
