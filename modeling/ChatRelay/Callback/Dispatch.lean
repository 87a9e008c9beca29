import ChatRelay.Callback.Run

/-!
# Runs side by side

The handlers of all calls may change at any time, and any number of runs may be under way. A run
tells its handlers one after the other, and much may happen in between: other runs go on, and the
handlers of all calls change. When a group has its turn, its members are told instead of it.

## Main definitions

* `Ongoing` — a run, and who is still to be told of something
* `Dispatch` — the handlers of all calls, and the runs
* `DispatchOp`, `DispatchEvent` — what happens, and what can be seen of it
* `Dispatch.step` — one operation

## Design notes

Whether a handler fails is part of the operation in which it is told, so that it may fail at one time
and not at another.
-/

namespace ChatRelay

/-- The event is the last one of its run. -/
def CallEvent.isLast : CallEvent → Bool
  | started _ => false
  | ended _ | failed _ => true

/-- A handler that is still to be told of an event. -/
structure Due where
  handler : Handler
  event : CallEvent
  /-- It is a member of a group, which keeps its failures to itself. -/
  inGroup : Bool := false

/-- A run that is under way. -/
structure Ongoing where
  run : Run
  /-- Who is still to be told, and of what. -/
  due : List Due := []
  /-- The run has had its last event. -/
  isOver : Bool := false

/-- What happens to the handlers of all calls, and to the runs, which are numbered as they are
created. -/
inductive DispatchOp where
  | change (c : GlobalChange)
  /-- A run is created, with the handlers of its model and those of its call. -/
  | create (info : RunInfo) (model own : List Handler)
  /-- A run is to tell its handlers of an event. -/
  | tell (run : Nat) (event : CallEvent)
  /-- The next handler of a run has its turn, and may fail. -/
  | proceed (run : Nat) (failure? : Option Error)

/-- What can be seen of a run. -/
inductive DispatchEvent where
  /-- A handler that is no group was told. -/
  | delivered (handler : Handler) (event : CallEvent)
  /-- The failure of a handler was noted in the log. -/
  | warned (event : CallEvent) (e : Error)

namespace Ongoing

/-- All handlers of the run are to be told of an event. -/
def tell (o : Ongoing) (event : CallEvent) : Ongoing :=
  if o.isOver then o
  else { o with
    due := o.due ++ o.run.handlers.map fun handler => { handler, event }
    isOver := event.isLast }

/-- The next handler has its turn. -/
def proceed (o : Ongoing) (failure? : Option Error) : List DispatchEvent × Ongoing :=
  match o.due with
  | [] => ([], o)
  | next :: due =>
    match next.handler with
    | .group members =>
      let inside := members.map fun handler => { handler, event := next.event, inGroup := true }
      ([], { o with due := inside ++ due })
    | handler =>
      let warnings := if next.inGroup then [] else failure?.toList.map (.warned next.event)
      (.delivered handler next.event :: warnings, { o with due })

end Ongoing

/-- The handlers of all calls, and the runs. -/
structure Dispatch where
  globals : List Handler := []
  runs : List Ongoing := []

namespace Dispatch

/-- One operation: what can be seen of it, each with the number of its run, and what it leaves
behind. -/
def step (d : Dispatch) : DispatchOp → List (Nat × DispatchEvent) × Dispatch
  | .change c => ([], { d with globals := c.apply d.globals })
  | .create info model own =>
    ([], { d with runs := d.runs ++ [{ run := .start d.globals info (model ++ own) }] })
  | .tell run event => ([], { d with runs := d.runs.modify run (·.tell event) })
  | .proceed run failure? =>
    match d.runs[run]? with
    | none => ([], d)
    | some o =>
      let (es, o) := o.proceed failure?
      (es.map (run, ·), { d with runs := d.runs.set run o })

/-- What some operations leave behind. -/
def after (d : Dispatch) (ops : List DispatchOp) : Dispatch :=
  ops.foldl (fun d op => (d.step op).2) d

/-- What can be seen of some operations. -/
def events (d : Dispatch) : List DispatchOp → List (Nat × DispatchEvent)
  | [] => []
  | op :: ops => (d.step op).1 ++ (d.step op).2.events ops

end Dispatch

end ChatRelay
