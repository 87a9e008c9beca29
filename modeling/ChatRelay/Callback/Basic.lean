import ChatRelay.Error
import ChatRelay.Request.Basic

/-!
# The life of a call

Handlers are told when a call starts and when it ends.

## Main definitions

* `RunInfo` — which call it is
* `CallInput`, `CallOutput` — what the call was asked to do, and what came of it
* `CallEvent` — what handlers are told
-/

namespace ChatRelay

/-- Which call it is. -/
structure RunInfo where
  /-- The name of the model, as its owner calls it. -/
  name : String
  /-- The name of the vendor. -/
  typeName : String
  /-- A number that no other call has. -/
  id : Nat
deriving DecidableEq, Repr, Inhabited

/-- The kind of component that makes calls. -/
def RunInfo.component : String := "ChatModel"

/-- What a call was asked to do, with the settings in effect. -/
structure CallInput where
  messages : List Message := []
  tools : List ToolInfo := []
  toolChoice : Option ToolChoice := none
  settings : Settings := {}
deriving DecidableEq, Repr, Inhabited

/-- What came of a call. -/
structure CallOutput where
  message : Message
  settings : Settings
deriving DecidableEq, Repr, Inhabited

/-- The tokens that the call cost, as the vendor reported. -/
def CallOutput.usage? (o : CallOutput) : Option TokenUsage :=
  o.message.usage?

/-- What handlers are told. -/
inductive CallEvent where
  | started (input : CallInput)
  | ended (output : CallOutput)
  | failed (e : Error)
deriving DecidableEq, Repr

/-- The event of the end of a call. -/
def CallEvent.ofResult (settings : Settings) : Result Message → CallEvent
  | .ok message => ended { message, settings }
  | .error e => failed e

end ChatRelay
