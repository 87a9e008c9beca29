import ChatRelay.Callback.Basic

/-!
# Handlers

A handler is told of the events of calls. A handler that fails is noted in the log and changes
nothing else: the others are told, and the call goes on.

## Main definitions

* `Handler` — the kinds of handlers, groups among them
* `Notice` — the traces that handlers leave
* `Handler.deliver` — what one handler does with an event
* `Handler.notifyAll` — what all handlers of a call do with an event
* `GlobalChange` — changes of the handlers of all calls

## Design notes

What handlers do is the list of their traces in order, so that two runs can be compared. A group
keeps the failures of its members to itself.
-/

namespace ChatRelay

/-- A handler. -/
inductive Handler where
  /-- It does nothing. -/
  | silent
  /-- It writes to the log. -/
  | log
  /-- It keeps events in a place with a number. -/
  | recorder (place : Nat)
  /-- It passes events on under a label, and then fails with the error that it has for the event, if
  any. -/
  | tap (label : String) (failure? : CallEvent → Option Error)
  /-- It tells its members. -/
  | group (members : List Handler)
deriving Inhabited

inductive LogLevel where
  | info
  | warn
deriving DecidableEq, Repr

/-- A line of the log: a message and fields. -/
structure LogEntry where
  level : LogLevel
  message : String
  fields : List (String × Json)
deriving DecidableEq, Repr

/-- A trace that a handler leaves. -/
inductive Notice where
  | logged (entry : LogEntry)
  | recorded (place : Nat) (info : RunInfo) (event : CallEvent)
  | tapped (label : String) (info : RunInfo) (event : CallEvent)
deriving DecidableEq, Repr

namespace CallEvent

/-- The name of the kind of event. -/
def name : CallEvent → String
  | started _ => "start"
  | ended _ => "end"
  | failed _ => "error"

/-- The line of the log for an event. -/
def logEntry (info : RunInfo) : CallEvent → LogEntry
  | started input =>
    { level := .info, message := "chat model call started"
      fields := [("provider", .text info.typeName), ("model", .text input.settings.model),
        ("messages", .ofNat input.messages.length), ("tools", .ofNat input.tools.length)] }
  | ended output =>
    { level := .info, message := "chat model call finished"
      fields := [("provider", .text info.typeName),
        ("finish_reason", .text (output.message.finishReason?.getD "")),
        ("prompt_tokens", .ofNat (output.usage?.elim 0 (·.promptTokens.toNat))),
        ("completion_tokens", .ofNat (output.usage?.elim 0 (·.completionTokens.toNat)))] }
  | failed e =>
    { level := .warn, message := "chat model call failed"
      fields := [("provider", .text info.typeName), ("cancelled", .bool e.isCancelled),
        ("error", .text e.message)] }

/-- The line of the log for a handler that failed. -/
def failureEntry (event : CallEvent) (e : Error) : LogEntry :=
  { level := .warn, message := "callback on_" ++ event.name ++ " failed"
    fields := [("error", .text e.message)] }

end CallEvent

namespace Handler

mutual

/-- The traces that a handler leaves of an event, and its error if it fails. -/
def deliver (info : RunInfo) (event : CallEvent) : Handler → List Notice × Option Error
  | silent => ([], none)
  | log => ([.logged (event.logEntry info)], none)
  | recorder place => ([.recorded place info event], none)
  | tap label failure? => ([.tapped label info event], failure? event)
  | group members => (deliverGroup info event members, none)

/-- The traces that the members of a group leave. -/
def deliverGroup (info : RunInfo) (event : CallEvent) : List Handler → List Notice
  | [] => []
  | h :: hs => (deliver info event h).1 ++ deliverGroup info event hs

end

/-- The traces that a handler of a call leaves. Its failure is noted in the log. -/
def notify (info : RunInfo) (event : CallEvent) (h : Handler) : List Notice :=
  match h.deliver info event with
  | (notices, none) => notices
  | (notices, some e) => notices ++ [.logged (event.failureEntry e)]

/-- The traces that the handlers of a call leave, in their order. -/
def notifyAll (info : RunInfo) (event : CallEvent) (handlers : List Handler) : List Notice :=
  handlers.flatMap (notify info event)

end Handler

/-- A change of the handlers of all calls. It does not touch calls that have started. -/
inductive GlobalChange where
  | set (handlers : List Handler)
  | append (handlers : List Handler)

/-- The handlers after a change. -/
def GlobalChange.apply : GlobalChange → List Handler → List Handler
  | set handlers, _ => handlers
  | append handlers, current => current ++ handlers

end ChatRelay
