import ChatRelay.Callback.Handler

/-!
# Runs

A run is one call with the handlers that are told of it. They are fixed when it starts: those of all
calls, then those of the model, then those of the call.
-/

namespace ChatRelay

/-- One call and its handlers. -/
structure Run where
  info : RunInfo
  handlers : List Handler

namespace Run

/-- The run of a call, given the handlers of all calls and its own. -/
def start (globals : List Handler) (info : RunInfo) (own : List Handler) : Run :=
  ⟨info, globals ++ own⟩

/-- Whether nobody is told. -/
def isEmpty (r : Run) : Bool :=
  r.handlers.isEmpty

/-- The traces that the handlers leave of an event. -/
def notify (r : Run) (event : CallEvent) : List Notice :=
  Handler.notifyAll r.info event r.handlers

end Run

end ChatRelay
