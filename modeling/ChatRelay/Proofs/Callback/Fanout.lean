import ChatRelay.Callback.Dispatch
import ChatRelay.Proofs.Chat.Accounting

/-!
# Runs do not disturb each other

A run tells its events to the handlers that it was created with and to nobody else, group members in
the place of their group, each once and always in the same order. Nothing that happens meanwhile
changes that: no change of the handlers of all calls, no other run, and no handler that fails.

What carries the proofs is what a run still has to deliver (`Ongoing.rest`). A turn of a handler
takes its deliveries off the front (`Ongoing.rest_proceed`), an event adds all deliveries of the run
at the back (`Ongoing.rest_tell`), and nothing else touches it (`Dispatch.step_run`).

## Main definitions

* `Handler.leaves` — the handlers among a handler and its members that are no groups
* `Ongoing.rest` — the deliveries that a run has still to make
* `Dispatch.deliveries`, `Dispatch.deliveriesOf` — the deliveries of all runs, and those of one
* `Dispatch.audience` — the handlers of a run that is created after some operations

## Main results

* `Dispatch.deliveriesOf_append_rest` — the deliveries of a run that is under way
* `Dispatch.isolated` — the deliveries of every run in every history
* `Ongoing.notices_proceed` — turn by turn, a run leaves the traces of `Run.notify`
* `LiveCall.upToLast_events` — the events of a call are all told
-/

namespace ChatRelay

namespace Handler

mutual

/-- The handlers that are told when a handler is, depth first: members in the place of a group. -/
def leaves : Handler → List Handler
  | group members => leavesOfGroup members
  | h => [h]

/-- The handlers that are told when the members of a group are. -/
def leavesOfGroup : List Handler → List Handler
  | [] => []
  | h :: hs => leaves h ++ leavesOfGroup hs

end

mutual

/-- The number of turns that a handler and its members have. -/
def turns : Handler → Nat
  | group members => turnsOfGroup members + 1
  | _ => 1

/-- The number of turns that the members of a group have. -/
def turnsOfGroup : List Handler → Nat
  | [] => 0
  | h :: hs => turns h + turnsOfGroup hs

end

theorem leavesOfGroup_eq (hs : List Handler) : leavesOfGroup hs = hs.flatMap leaves := by
  induction hs with
  | nil => rfl
  | cons h hs ih => rw [leavesOfGroup, ih, List.flatMap_cons]

theorem turnsOfGroup_eq (hs : List Handler) : turnsOfGroup hs = (hs.map turns).sum := by
  induction hs with
  | nil => rfl
  | cons h hs ih => rw [turnsOfGroup, ih, List.map_cons, List.sum_cons]

@[simp] theorem leaves_group (members : List Handler) :
    (group members).leaves = members.flatMap leaves := by
  rw [leaves, leavesOfGroup_eq]

@[simp] theorem turns_group (members : List Handler) :
    (group members).turns = (members.map turns).sum + 1 := by
  rw [turns, turnsOfGroup_eq]

/-- The handler is a group. -/
def isGroup : Handler → Bool
  | group _ => true
  | _ => false

variable {h : Handler}

theorem leaves_of_not_isGroup (hleaf : h.isGroup = false) : h.leaves = [h] := by
  cases h with
  | group members => cases hleaf
  | _ => rfl

theorem turns_of_not_isGroup (hleaf : h.isGroup = false) : h.turns = 1 := by
  cases h with
  | group members => cases hleaf
  | _ => rfl

theorem turns_pos (h : Handler) : 0 < h.turns := by
  cases h with
  | group members => rw [turns_group]; exact Nat.succ_pos _
  | _ => exact Nat.one_pos

end Handler

namespace CallEvent

/-- The events of a list up to one that is the last of its run. -/
def upToLast : List CallEvent → List CallEvent
  | [] => []
  | event :: events => if event.isLast then [event] else event :: upToLast events

end CallEvent

/-- The delivery that is seen. -/
def DispatchEvent.delivery? : DispatchEvent → Option (Handler × CallEvent)
  | delivered handler event => some (handler, event)
  | warned .. => none

/-- The deliveries of a handler and its members. -/
def Due.deliveries (x : Due) : List (Handler × CallEvent) :=
  x.handler.leaves.map (·, x.event)

/-- The deliveries of a run for an event. -/
def Run.deliveries (r : Run) (event : CallEvent) : List (Handler × CallEvent) :=
  (r.handlers.flatMap Handler.leaves).map (·, event)

namespace Ongoing

/-! ### One run -/

/-- The deliveries that the run has still to make. -/
def rest (o : Ongoing) : List (Handler × CallEvent) :=
  o.due.flatMap Due.deliveries

/-- The number of turns that are still to come. -/
def turns (o : Ongoing) : Nat :=
  (o.due.map (·.handler.turns)).sum

variable {o : Ongoing}

/-- **All that a turn can do.**  A group is replaced by its members; any other handler is told, and
its failure is noted unless it is a member of a group. -/
theorem proceed_cases (o : Ongoing) (failure? : Option Error) :
    (o.due = [] ∧ o.proceed failure? = ([], o)) ∨
    (∃ members event inGroup due, o.due = ⟨.group members, event, inGroup⟩ :: due ∧
      o.proceed failure? =
        ([], { o with due := (members.map fun handler => ⟨handler, event, true⟩) ++ due })) ∨
    ∃ handler event inGroup due, o.due = ⟨handler, event, inGroup⟩ :: due ∧
      handler.isGroup = false ∧
      o.proceed failure? =
        (.delivered handler event :: (if inGroup then [] else failure?.toList.map (.warned event)),
          { o with due }) := by
  cases hdue : o.due with
  | nil => exact Or.inl ⟨rfl, by simp only [proceed, hdue]⟩
  | cons next due =>
      obtain ⟨handler, event, inGroup⟩ := next
      cases handler with
      | group members =>
          exact Or.inr (Or.inl ⟨members, event, inGroup, due, rfl, by simp only [proceed, hdue]⟩)
      | _ => exact Or.inr (Or.inr ⟨_, event, inGroup, due, rfl, rfl, by simp only [proceed, hdue]⟩)

theorem filterMap_delivery_warned (event : CallEvent) (es : List Error) :
    (es.map (.warned event)).filterMap DispatchEvent.delivery? = [] := by
  simp [DispatchEvent.delivery?]

/-- **A turn takes its deliveries off the front,** whether the handler fails or not. -/
theorem rest_proceed (o : Ongoing) (failure? : Option Error) :
    (o.proceed failure?).1.filterMap DispatchEvent.delivery? ++ (o.proceed failure?).2.rest =
      o.rest := by
  rcases o.proceed_cases failure? with ⟨hdue, heq⟩ | ⟨members, event, inGroup, due, hdue, heq⟩ |
    ⟨handler, event, inGroup, due, hdue, hleaf, heq⟩ <;> rw [heq]
  · rfl
  · simp [rest, hdue, Due.deliveries, List.flatMap_map, List.map_flatMap]
  · have hwarned : ((if inGroup then [] else failure?.toList.map (.warned event)) :
        List DispatchEvent).filterMap DispatchEvent.delivery? = [] := by
      cases inGroup with
      | true => rfl
      | false => exact filterMap_delivery_warned event failure?.toList
    simp [rest, hdue, Due.deliveries, Handler.leaves_of_not_isGroup hleaf, hwarned,
      DispatchEvent.delivery?]

/-- A failure leaves nothing but the note of it. -/
theorem proceed_failure (o : Ongoing) (failure? failure?' : Option Error) :
    (o.proceed failure?).2 = (o.proceed failure?').2 ∧
      (o.proceed failure?).1.filterMap DispatchEvent.delivery? =
        (o.proceed failure?').1.filterMap DispatchEvent.delivery? := by
  have hsame : (o.proceed failure?).2 = (o.proceed failure?').2 := by
    simp only [proceed]
    split
    · rfl
    · split <;> rfl
  refine ⟨hsame, ?_⟩
  have hrest := (o.rest_proceed failure?).trans (o.rest_proceed failure?').symm
  rw [hsame] at hrest
  exact List.append_cancel_right hrest

@[simp] theorem proceed_run (o : Ongoing) (failure? : Option Error) :
    (o.proceed failure?).2.run = o.run := by
  rcases o.proceed_cases failure? with ⟨-, heq⟩ | ⟨_, _, _, _, -, heq⟩ | ⟨_, _, _, _, -, -, heq⟩ <;>
    rw [heq]

@[simp] theorem proceed_isOver (o : Ongoing) (failure? : Option Error) :
    (o.proceed failure?).2.isOver = o.isOver := by
  rcases o.proceed_cases failure? with ⟨-, heq⟩ | ⟨_, _, _, _, -, heq⟩ | ⟨_, _, _, _, -, -, heq⟩ <;>
    rw [heq]

theorem turns_proceed (o : Ongoing) (failure? : Option Error) :
    (o.proceed failure?).2.turns = o.turns - 1 := by
  rcases o.proceed_cases failure? with ⟨hdue, heq⟩ | ⟨members, event, inGroup, due, hdue, heq⟩ |
    ⟨handler, event, inGroup, due, hdue, hleaf, heq⟩ <;> rw [heq]
  · simp [turns, hdue]
  · simp [turns, hdue, Function.comp_def]
  · simp [turns, hdue, Handler.turns_of_not_isGroup hleaf]

theorem rest_of_turns_eq_zero (hturns : o.turns = 0) : o.rest = [] := by
  cases hdue : o.due with
  | nil => rw [rest, hdue, List.flatMap_nil]
  | cons next due =>
      have hpos := next.handler.turns_pos
      rw [turns, hdue, List.map_cons, List.sum_cons] at hturns
      omega

/-- An event adds all deliveries of the run at the back. -/
theorem rest_tell (hover : o.isOver = false) (event : CallEvent) :
    (o.tell event).rest = o.rest ++ o.run.deliveries event := by
  simp [tell, hover, rest, Due.deliveries, Run.deliveries, List.flatMap_map, List.map_flatMap]

theorem tell_of_isOver (hover : o.isOver = true) (event : CallEvent) : o.tell event = o :=
  if_pos hover

@[simp] theorem tell_run (o : Ongoing) (event : CallEvent) : (o.tell event).run = o.run := by
  unfold tell
  split <;> rfl

theorem tell_isOver (hover : o.isOver = false) (event : CallEvent) :
    (o.tell event).isOver = event.isLast := by
  simp [tell, hover]

/-! ### The traces of a run -/

/-- The error of the handler that has the next turn, if it fails. -/
def failure? (o : Ongoing) : Option Error :=
  o.due.head?.bind fun next => (next.handler.deliver o.run.info next.event).2

/-- The traces that are left when all turns that are still to come have come. -/
def notices (o : Ongoing) : List Notice :=
  o.due.flatMap fun x =>
    if x.inGroup then (x.handler.deliver o.run.info x.event).1
    else x.handler.notify o.run.info x.event

end Ongoing

/-- The traces of what is seen of a run. -/
def DispatchEvent.notices (info : RunInfo) : DispatchEvent → List Notice
  | delivered handler event => (handler.deliver info event).1
  | warned event e => [.logged (event.failureEntry e)]

namespace Handler

theorem deliverGroup_eq (info : RunInfo) (event : CallEvent) (hs : List Handler) :
    deliverGroup info event hs = hs.flatMap fun h => (h.deliver info event).1 := by
  induction hs with
  | nil => rfl
  | cons h hs ih => rw [deliverGroup, ih, List.flatMap_cons]

theorem notify_eq (info : RunInfo) (event : CallEvent) (h : Handler) :
    h.notify info event = (h.deliver info event).1 ++
      (h.deliver info event).2.toList.map fun e => .logged (event.failureEntry e) := by
  unfold notify
  split
  · next notices hdeliver => simp [hdeliver]
  · next notices e hdeliver => simp [hdeliver]

end Handler

namespace Ongoing

variable {o : Ongoing}

/-- **Turn by turn, a run leaves its traces,** if each handler fails just as it does otherwise. -/
theorem notices_proceed (o : Ongoing) :
    (o.proceed o.failure?).1.flatMap (DispatchEvent.notices o.run.info) ++
      (o.proceed o.failure?).2.notices = o.notices := by
  rcases o.proceed_cases o.failure? with ⟨hdue, heq⟩ | ⟨members, event, inGroup, due, hdue, heq⟩ |
    ⟨handler, event, inGroup, due, hdue, hleaf, heq⟩ <;> rw [heq]
  · rfl
  · have hmembers : (if inGroup then ((Handler.group members).deliver o.run.info event).1
        else (Handler.group members).notify o.run.info event) =
          members.flatMap fun h => (h.deliver o.run.info event).1 := by
      rw [Handler.notify_eq, Handler.deliver, Handler.deliverGroup_eq]
      cases inGroup <;> simp
    simp [notices, hdue, hmembers, List.flatMap_map]
  · have hfailure : o.failure? = (handler.deliver o.run.info event).2 := by simp [failure?, hdue]
    rw [hfailure]
    cases inGroup <;>
      simp [notices, hdue, Handler.notify_eq, DispatchEvent.notices, List.flatMap_map,
        ← List.map_eq_flatMap]

/-- The traces that an event is to leave are those that the run leaves of it. -/
theorem notices_tell (hover : o.isOver = false) (event : CallEvent) :
    (o.tell event).notices = o.notices ++ o.run.notify event := by
  simp [tell, hover, notices, Run.notify, Handler.notifyAll, List.flatMap_map]

end Ongoing

namespace DispatchOp

/-- The operation creates a run. -/
def creates : DispatchOp → Bool
  | create .. => true
  | _ => false

/-- The change of the handlers of all calls. -/
def change? : DispatchOp → Option GlobalChange
  | change c => some c
  | _ => none

/-- The event that a run is to tell. -/
def told? (run : Nat) : DispatchOp → Option CallEvent
  | tell run' event => if run' = run then some event else none
  | _ => none

/-- The same operation, where the handler that has its turn fails otherwise. -/
def failing (failure? : Option Error) : DispatchOp → DispatchOp
  | proceed run _ => proceed run failure?
  | op => op

end DispatchOp

namespace Dispatch

/-- The deliveries of all runs. -/
def deliveries (es : List (Nat × DispatchEvent)) : List (Nat × Handler × CallEvent) :=
  es.filterMap fun e => e.2.delivery?.map (e.1, ·)

/-- The deliveries of a run. -/
def deliveriesOf (run : Nat) (es : List (Nat × DispatchEvent)) : List (Handler × CallEvent) :=
  (es.filter (·.1 = run)).filterMap (·.2.delivery?)

/-- The handlers of all calls after some operations. -/
def globalsAfter (globals : List Handler) (ops : List DispatchOp) : List Handler :=
  (ops.filterMap DispatchOp.change?).foldl (fun globals c => c.apply globals) globals

/-- The handlers that are told of the events of a run, if it is created after some operations: those
of all calls that there are then, those of its model, and its own. -/
def audience (globals : List Handler) (before : List DispatchOp) (model own : List Handler) :
    List Handler :=
  (globalsAfter globals before ++ (model ++ own)).flatMap Handler.leaves

@[simp] theorem deliveriesOf_append (run : Nat) (es es' : List (Nat × DispatchEvent)) :
    deliveriesOf run (es ++ es') = deliveriesOf run es ++ deliveriesOf run es' := by
  rw [deliveriesOf, List.filter_append, List.filterMap_append]
  rfl

@[simp] theorem deliveries_append (es es' : List (Nat × DispatchEvent)) :
    deliveries (es ++ es') = deliveries es ++ deliveries es' :=
  List.filterMap_append ..

theorem deliveriesOf_map_self (run : Nat) (es : List DispatchEvent) :
    deliveriesOf run (es.map (run, ·)) = es.filterMap DispatchEvent.delivery? := by
  simp [deliveriesOf, List.filter_map, List.filterMap_map, Function.comp_def]

theorem deliveriesOf_map_of_ne {run run' : Nat} (h : run' ≠ run) (es : List DispatchEvent) :
    deliveriesOf run (es.map (run', ·)) = [] := by
  simp [deliveriesOf, List.filter_map, h]

theorem deliveries_map (run : Nat) (es : List DispatchEvent) :
    deliveries (es.map (run, ·)) = (es.filterMap DispatchEvent.delivery?).map (run, ·) := by
  simp [deliveries, List.filterMap_map, List.map_filterMap]

variable {d : Dispatch} {run : Nat} {o : Ongoing}

/-! ### Histories -/

theorem after_append (d : Dispatch) (ops ops' : List DispatchOp) :
    d.after (ops ++ ops') = (d.after ops).after ops' :=
  List.foldl_append ..

theorem events_append (d : Dispatch) (ops ops' : List DispatchOp) :
    d.events (ops ++ ops') = d.events ops ++ (d.after ops).events ops' := by
  induction ops generalizing d with
  | nil => rfl
  | cons op ops ih =>
      rw [List.cons_append, events, events, ih, List.append_assoc]
      rfl

theorem step_proceed (h : d.runs[run]? = some o) (failure? : Option Error) :
    d.step (.proceed run failure?) = ((o.proceed failure?).1.map (run, ·),
      { d with runs := d.runs.set run (o.proceed failure?).2 }) := by
  simp only [step, h]

theorem runs_proceed (h : d.runs[run]? = some o) (failure? : Option Error) :
    (d.step (.proceed run failure?)).2.runs[run]? = some (o.proceed failure?).2 := by
  obtain ⟨hlt, -⟩ := List.getElem?_eq_some_iff.mp h
  rw [step_proceed h]
  exact List.getElem?_set_self hlt

/-- **What an operation does to a run** that is there.  The run is to tell an event, or it makes
some of the deliveries that it has to make. -/
theorem step_run (h : d.runs[run]? = some o) (op : DispatchOp) :
    ∃ o', (d.step op).2.runs[run]? = some o' ∧
      ((∃ event, op.told? run = some event ∧ o' = o.tell event ∧ (d.step op).1 = []) ∨
        (op.told? run = none ∧ o'.run = o.run ∧ o'.isOver = o.isOver ∧
          deliveriesOf run (d.step op).1 ++ o'.rest = o.rest)) := by
  cases op with
  | change c => exact ⟨o, h, Or.inr ⟨rfl, rfl, rfl, rfl⟩⟩
  | create info model own =>
      refine ⟨o, ?_, Or.inr ⟨rfl, rfl, rfl, rfl⟩⟩
      obtain ⟨hlt, rfl⟩ := List.getElem?_eq_some_iff.mp h
      simp [step, List.getElem?_append_left hlt]
  | tell run' event =>
      by_cases hrun : run' = run
      · subst hrun
        exact ⟨o.tell event, by simp [step, h], Or.inl ⟨event, if_pos rfl, rfl, rfl⟩⟩
      · exact ⟨o, by simp [step, h, hrun], Or.inr ⟨if_neg hrun, rfl, rfl, rfl⟩⟩
  | proceed run' failure? =>
      by_cases hrun : run' = run
      · subst hrun
        refine ⟨(o.proceed failure?).2, runs_proceed h failure?,
          Or.inr ⟨rfl, o.proceed_run _, o.proceed_isOver _, ?_⟩⟩
        rw [step_proceed h, deliveriesOf_map_self, Ongoing.rest_proceed]
      · refine ⟨o, ?_, Or.inr ⟨rfl, rfl, rfl, ?_⟩⟩
        all_goals simp only [step]
        · split
          · exact h
          · rw [List.getElem?_set_ne hrun, h]
        · split
          · rfl
          · rw [deliveriesOf_map_of_ne hrun, List.nil_append]

/-- **The deliveries of a run that is under way.**  What it has still to deliver, and all that it is
told up to its last event, is what it delivers and has then still to deliver. -/
theorem deliveriesOf_append_rest (h : d.runs[run]? = some o) (ops : List DispatchOp) :
    ∃ o', (d.after ops).runs[run]? = some o' ∧
      deliveriesOf run (d.events ops) ++ o'.rest = o.rest ++
        if o.isOver then []
        else (CallEvent.upToLast (ops.filterMap (DispatchOp.told? run))).flatMap
          o.run.deliveries := by
  induction ops generalizing d o with
  | nil => exact ⟨o, h, by cases o.isOver <;> simp [events, deliveriesOf, CallEvent.upToLast]⟩
  | cons op ops ih =>
      obtain ⟨o₁, h₁, hstep⟩ := step_run h op
      obtain ⟨o', h', hrest⟩ := ih h₁
      refine ⟨o', h', ?_⟩
      rw [events, deliveriesOf_append, List.append_assoc, hrest]
      rcases hstep with ⟨event, htold, rfl, hnone⟩ | ⟨htold, hrun, hover, hdelivered⟩
      · rw [hnone, List.filterMap_cons_some htold]
        cases hover : o.isOver with
        | true => simp [Ongoing.tell_of_isOver hover, hover, deliveriesOf]
        | false =>
            rw [Ongoing.rest_tell hover, Ongoing.tell_isOver hover, CallEvent.upToLast]
            cases event.isLast <;> simp [deliveriesOf]
      · rw [List.filterMap_cons_none htold, ← List.append_assoc, hdelivered, hrun, hover]

/-! ### The creation of runs -/

theorem length_step (d : Dispatch) (op : DispatchOp) :
    (d.step op).2.runs.length = d.runs.length + if op.creates then 1 else 0 := by
  cases op with
  | proceed run failure? =>
      simp only [step]
      split <;> simp [DispatchOp.creates]
  | _ => simp [step, DispatchOp.creates]

theorem length_after (d : Dispatch) (ops : List DispatchOp) :
    (d.after ops).runs.length = d.runs.length + ops.countP DispatchOp.creates := by
  induction ops generalizing d with
  | nil => rfl
  | cons op ops ih =>
      have hafter : d.after (op :: ops) = (d.step op).2.after ops := rfl
      rw [hafter, ih, length_step, List.countP_cons]
      omega

/-- Runs do not change the handlers of all calls. -/
theorem globals_after (d : Dispatch) (ops : List DispatchOp) :
    (d.after ops).globals = globalsAfter d.globals ops := by
  induction ops generalizing d with
  | nil => rfl
  | cons op ops ih =>
      have hafter : d.after (op :: ops) = (d.step op).2.after ops := rfl
      rw [hafter, ih]
      cases op with
      | proceed run failure? =>
          have hglobals : (d.step (.proceed run failure?)).2.globals = d.globals := by
            simp only [step]
            split <;> rfl
          rw [hglobals]
          rfl
      | _ => rfl

/-- A run delivers nothing before it is created. -/
theorem deliveriesOf_eq_nil {ops : List DispatchOp} (h : (d.after ops).runs.length ≤ run) :
    deliveriesOf run (d.events ops) = [] := by
  induction ops generalizing d with
  | nil => rfl
  | cons op ops ih =>
      have hnone : deliveriesOf run (d.step op).1 = [] := by
        cases op with
        | proceed run' failure? =>
            simp only [step]
            split
            · rfl
            · next o hrun =>
                obtain ⟨hlt, -⟩ := List.getElem?_eq_some_iff.mp hrun
                rw [length_after] at h
                exact deliveriesOf_map_of_ne (by omega) _
        | _ => rfl
      rw [events, deliveriesOf_append, hnone, ih h, List.nil_append]

/-- A run has the next number when it is created. -/
theorem runs_create (d : Dispatch) (info : RunInfo) (model own : List Handler) :
    (d.step (.create info model own)).2.runs[d.runs.length]? =
      some { run := .start d.globals info (model ++ own) } := by
  simp [step]

/-- **The deliveries of a run,** from its creation on. -/
theorem deliveriesOf_create (globals : List Handler) (before : List DispatchOp) (info : RunInfo)
    (model own : List Handler) (after : List DispatchOp) :
    ∃ o, ((⟨globals, []⟩ : Dispatch).after (before ++ .create info model own :: after)).runs[
          before.countP DispatchOp.creates]? = some o ∧
      deliveriesOf (before.countP DispatchOp.creates)
          ((⟨globals, []⟩ : Dispatch).events (before ++ .create info model own :: after)) ++
            o.rest =
        (CallEvent.upToLast (after.filterMap
          (DispatchOp.told? (before.countP DispatchOp.creates)))).flatMap
            fun event => (audience globals before model own).map (·, event) := by
  set d := (⟨globals, []⟩ : Dispatch).after before with hd
  have hlength : d.runs.length = before.countP DispatchOp.creates := by
    rw [hd, length_after, List.length_nil, Nat.zero_add]
  have hcreate := d.runs_create info model own
  rw [hlength, hd, globals_after, ← hd] at hcreate
  obtain ⟨o, ho, hrest⟩ := deliveriesOf_append_rest hcreate after
  refine ⟨o, by rw [after_append]; exact ho, ?_⟩
  have hbefore : deliveriesOf (before.countP DispatchOp.creates)
      ((⟨globals, []⟩ : Dispatch).events before) = [] := deliveriesOf_eq_nil hlength.le
  rw [events_append, deliveriesOf_append, hbefore, List.nil_append, ← hd, events]
  exact hrest

/-! ### Turns -/

/-- Turns of a run, in which handlers fail or not. -/
def turns (run : Nat) (failures : List (Option Error)) : List DispatchOp :=
  failures.map (.proceed run)

/-- A run that has its turns comes to an end. -/
theorem rest_after_turns (h : d.runs[run]? = some o) {failures : List (Option Error)}
    (hturns : o.turns ≤ failures.length) :
    ∃ o', (d.after (turns run failures)).runs[run]? = some o' ∧ o'.rest = [] := by
  induction failures generalizing d o with
  | nil => exact ⟨o, h, Ongoing.rest_of_turns_eq_zero (Nat.le_zero.mp hturns)⟩
  | cons failure? failures ih =>
      refine ih (runs_proceed h failure?) ?_
      rw [Ongoing.turns_proceed]
      exact Nat.sub_le_of_le_add hturns

/-- In its turns a run is told nothing. -/
theorem filterMap_told_turns (run run' : Nat) (failures : List (Option Error)) :
    (turns run' failures).filterMap (DispatchOp.told? run) = [] := by
  simp [turns, DispatchOp.told?]

/-! ### Failures -/

theorem step_failing (d : Dispatch) (op : DispatchOp) (failure? : Option Error) :
    (d.step (op.failing failure?)).2 = (d.step op).2 ∧
      deliveries (d.step (op.failing failure?)).1 = deliveries (d.step op).1 := by
  cases op with
  | proceed run failure?' =>
      rw [DispatchOp.failing]
      cases hrun : d.runs[run]? with
      | none => simp [step, hrun]
      | some o =>
          obtain ⟨hleft, hdelivered⟩ := o.proceed_failure failure? failure?'
          rw [step_proceed hrun, step_proceed hrun, deliveries_map, deliveries_map, hleft,
            hdelivered]
          exact ⟨rfl, rfl⟩
  | _ => exact ⟨rfl, rfl⟩

/-- **Failures change no delivery,** whichever handlers fail and whenever. -/
theorem deliveries_failing (d : Dispatch) (ops : List DispatchOp) (failures : Nat → Option Error) :
    deliveries (d.events (ops.mapIdx fun k op => op.failing (failures k))) =
      deliveries (d.events ops) := by
  induction ops generalizing d failures with
  | nil => rfl
  | cons op ops ih =>
      obtain ⟨hleft, hdelivered⟩ := d.step_failing op (failures 0)
      rw [List.mapIdx_cons, events, events, deliveries_append, deliveries_append, hleft, hdelivered,
        ih _ fun k => failures (k + 1)]

/-! ### Isolation -/

/-- What a run promises that is to make some deliveries, after some operations. -/
structure Isolated (globals : List Handler) (ops : List DispatchOp) (run : Nat)
    (full : List (Handler × CallEvent)) : Prop where
  /-- The run makes these deliveries, in this order, and no others. -/
  order : deliveriesOf run ((⟨globals, []⟩ : Dispatch).events ops) <+: full
  /-- It has made all of them when its handlers have had their turns. -/
  complete : ∃ n, ∀ failures : List (Option Error), n ≤ failures.length →
    deliveriesOf run ((⟨globals, []⟩ : Dispatch).events (ops ++ turns run failures)) = full
  /-- All runs make the same deliveries in the same order, whichever handlers fail and whenever. -/
  failures : ∀ failures : Nat → Option Error,
    deliveries ((⟨globals, []⟩ : Dispatch).events
        (ops.mapIdx fun k op => op.failing (failures k))) =
      deliveries ((⟨globals, []⟩ : Dispatch).events ops)

/-- **Runs do not disturb each other.**  A run tells each event up to its last one to its audience:
the handlers of all calls that there were when it was created, then those of its model, then its
own, and members in the place of their groups.  Later changes, other runs and failures do not
matter. -/
theorem isolated (globals : List Handler) (before : List DispatchOp) (info : RunInfo)
    (model own : List Handler) (after : List DispatchOp) :
    Isolated globals (before ++ .create info model own :: after)
      (before.countP DispatchOp.creates)
      ((CallEvent.upToLast (after.filterMap
        (DispatchOp.told? (before.countP DispatchOp.creates)))).flatMap
          fun event => (audience globals before model own).map (·, event)) := by
  obtain ⟨o, ho, hrest⟩ := deliveriesOf_create globals before info model own after
  refine ⟨⟨o.rest, hrest⟩, ⟨o.turns, fun failures hturns => ?_⟩, deliveries_failing _ _⟩
  obtain ⟨o₁, ho₁, hrest₁⟩ := deliveriesOf_create globals before info model own
    (after ++ turns (before.countP DispatchOp.creates) failures)
  obtain ⟨o₂, ho₂, hnone⟩ := rest_after_turns ho hturns
  have hops : before ++ .create info model own ::
      (after ++ turns (before.countP DispatchOp.creates) failures) =
        (before ++ .create info model own :: after) ++
          turns (before.countP DispatchOp.creates) failures := by simp
  rw [hops, after_append, ho₂] at ho₁
  obtain rfl := Option.some.inj ho₁
  rw [hops, hnone, List.append_nil, List.filterMap_append, filterMap_told_turns,
    List.append_nil] at hrest₁
  exact hrest₁

end Dispatch

/-- A run that is created for a call is the run of the call. -/
theorem ChatModel.runs_create (m : ChatModel) (d : Dispatch) (id : Nat) (own : List Handler) :
    (d.step (.create ⟨m.name, m.vendor.typeName, id⟩ m.handlers own)).2.runs =
      d.runs ++ [{ run := m.startRun d.globals id own }] := rfl

/-- **A call tells all its events:** its start, and no more than one end after it. -/
theorem LiveCall.upToLast_events (m : ChatModel) (globals own : List Handler) (id : Nat)
    (messages : List Message) (options : CallOptions) (demand : Demand) (ms : List Move) :
    CallEvent.upToLast ((begin m globals own id messages options demand).after ms).events =
      ((begin m globals own id messages options demand).after ms).events := by
  obtain ⟨terminal, hendings, -⟩ :=
    exists_terminal (c := begin m globals own id messages options demand) rfl ms
  rw [events, hendings]
  cases terminal with
  | none => rfl
  | some ending => cases ending <;> rfl

end ChatRelay
