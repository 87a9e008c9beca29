import Mathlib
import ChatRelay.Callback.Recorder
import ChatRelay.Callback.Run

/-!
# What handlers are told

A recorder keeps what it is told, so it shows what the handlers of a run are told: each event once,
in order, and with the same run (`Run.recorded`).  A recorder that is attached several times, or
stands in a group, is told as often as it occurs.

## Main definitions

* `Handler.places` — the places of the recorders among a handler and its members
-/

namespace ChatRelay

/-- What a trace adds to the record of a place. -/
def Notice.record? (place : Nat) : Notice → Option (RunInfo × CallEvent)
  | .recorded p info event => if p = place then some (info, event) else none
  | _ => none

theorem Recorder.events_addAll (place : Nat) (r : Recorder) (notices : List Notice) :
    (r.addAll place notices).events = r.events ++ notices.filterMap (Notice.record? place) := by
  induction notices generalizing r with
  | nil => simp [addAll]
  | cons notice notices ih =>
      rw [addAll, List.foldl_cons, ← addAll, ih]
      cases notice with
      | recorded p info event => by_cases hp : p = place <;> simp [add, Notice.record?, hp]
      | logged entry =>
          rw [List.filterMap_cons_none rfl]
          rfl
      | tapped label info event =>
          rw [List.filterMap_cons_none rfl]
          rfl

namespace Handler

mutual

/-- The places of the recorders that are told when a handler is, depth first. -/
def places : Handler → List Nat
  | recorder place => [place]
  | group members => placesOfGroup members
  | silent | log | tap .. => []

/-- The places of the recorders among the members of a group. -/
def placesOfGroup : List Handler → List Nat
  | [] => []
  | h :: hs => places h ++ placesOfGroup hs

end

variable (place : Nat) (info : RunInfo) (event : CallEvent)

mutual

/-- A handler leaves a record as often as the recorder occurs in it. -/
theorem record_deliver (h : Handler) :
    (h.deliver info event).1.filterMap (Notice.record? place) =
      List.replicate (h.places.count place) (info, event) := by
  match h with
  | silent => rfl
  | log => rfl
  | recorder p => by_cases hp : p = place <;> simp [deliver, Notice.record?, places, hp]
  | tap label failure? => rfl
  | group members => exact record_deliverGroup members

theorem record_deliverGroup (hs : List Handler) :
    (deliverGroup info event hs).filterMap (Notice.record? place) =
      List.replicate ((placesOfGroup hs).count place) (info, event) := by
  match hs with
  | [] => rfl
  | h :: hs =>
      rw [deliverGroup, List.filterMap_append, record_deliver h, record_deliverGroup hs,
        placesOfGroup, List.count_append, List.replicate_add]

end

/-- The failure of a handler is no record. -/
theorem record_notify (h : Handler) :
    (h.notify info event).filterMap (Notice.record? place) =
      List.replicate (h.places.count place) (info, event) := by
  rw [← record_deliver place info event h]
  unfold notify
  split
  · next notices hdeliver => rw [hdeliver]
  · next notices e hdeliver => simp [hdeliver, Notice.record?]

theorem record_notifyAll (hs : List Handler) :
    (notifyAll info event hs).filterMap (Notice.record? place) =
      List.replicate ((hs.flatMap places).count place) (info, event) := by
  induction hs with
  | nil => rfl
  | cons h hs ih =>
      have hcons : notifyAll info event (h :: hs) =
          h.notify info event ++ notifyAll info event hs := rfl
      rw [hcons, List.filterMap_append, record_notify, ih, List.flatMap_cons, List.count_append,
        List.replicate_add]

end Handler

/-- **A recorder is told every event of a run,** in order and as often as it is attached. -/
theorem Run.recorded (r : Run) (place : Nat) (events : List CallEvent) :
    (Recorder.ofNotices place (events.flatMap r.notify)).events =
      events.flatMap fun event =>
        List.replicate ((r.handlers.flatMap Handler.places).count place) (r.info, event) := by
  have hnotify (event : CallEvent) : (r.notify event).filterMap (Notice.record? place) =
      List.replicate ((r.handlers.flatMap Handler.places).count place) (r.info, event) :=
    Handler.record_notifyAll place r.info event r.handlers
  rw [Recorder.ofNotices, Recorder.events_addAll, List.nil_append, List.filterMap_flatMap]
  simp only [hnotify]

end ChatRelay
