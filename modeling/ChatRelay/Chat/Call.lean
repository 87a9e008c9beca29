import ChatRelay.Callback.Run
import ChatRelay.Chat.Model
import ChatRelay.Stream.Worker

/-!
# Calls

A call resolves its options, tells its handlers, checks the request and puts it into the vendor's
form, sends it as often as the policy allows, and reads the reply. Nothing is sent for a request that
is refused, and every attempt sends the same.

## Main definitions

* `ChatModel.prepare` — the request of a call, and what its handlers are told
* `ChatModel.exchange` — the attempts to send it
* `ChatModel.generate` — a call for a whole reply
* `ChatModel.openStream` — a call for a stream, up to its opening
-/

namespace ChatRelay

/-- What was sent, with the time since the call began, and what came of it. -/
structure Exchange (α : Type) where
  sent : List (Nat × WireRequest)
  result : Result α

namespace ChatModel

/-- The request of a call, and what its handlers are told. -/
def prepare (m : ChatModel) (messages : List Message) (o : CallOptions) : ChatRequest × CallInput :=
  let settings := o.resolve m.defaults
  let tools := o.tools.getD m.tools
  let toolChoice := o.toolChoice.or m.toolChoice
  ({ settings, messages, tools, toolChoice }, { messages, tools, toolChoice, settings })

/-- What is sent for a request, if it passes the checks. -/
def wireRequest (m : ChatModel) (r : ChatRequest) (stream : Bool) : Result WireRequest := do
  m.vendor.validate r
  m.vendor.request r stream

variable {α : Type}

/-- The attempts to send a request. `outcome` tells what the `k`-th one comes to, counted from
one. -/
def exchange (m : ChatModel) (r : ChatRequest) (stream : Bool)
    (outcome : WireRequest → Nat → Result α) : Exchange α :=
  match m.wireRequest r stream with
  | .error e => ⟨[], .error e⟩
  | .ok wire =>
    let attempts := m.retry.run (outcome wire)
    ⟨attempts.startsMs.map (·, wire), attempts.result⟩

/-- The name of the operation of a call in errors. -/
def operation (stream : Bool) : String :=
  if stream then "stream" else "generate"

/-- An error of a call. -/
def inCall (m : ChatModel) (stream : Bool) (r : Result α) : Result α :=
  r.mapError (·.withComponent m.vendor.typeName (operation stream))

/-- The run of a call with a number, given the handlers of all calls and those of the call. -/
def startRun (m : ChatModel) (globals : List Handler) (id : Nat) (own : List Handler) : Run :=
  .start globals ⟨m.name, m.vendor.typeName, id⟩ (m.handlers ++ own)

/-- A call for a whole reply: what was sent, and the reply or the error that is returned. -/
def generate (m : ChatModel) (r : ChatRequest) (outcome : WireRequest → Nat → Result Json) :
    Exchange Message :=
  let e := m.exchange r false outcome
  ⟨e.sent, m.inCall false (e.result.bind m.vendor.reply)⟩

/-- A call for a stream, up to its opening: what was sent, and the worker of the stream or the error
that is returned. -/
def openStream (m : ChatModel) (r : ChatRequest)
    (outcome : WireRequest → Nat → Result (List SourceStep)) : Exchange Worker :=
  let e := m.exchange r true outcome
  ⟨e.sent, (m.inCall true e.result).map fun source => .start m.vendor m.streaming source⟩

end ChatModel

end ChatRelay
