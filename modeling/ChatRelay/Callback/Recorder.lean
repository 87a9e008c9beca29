import ChatRelay.Callback.Handler

/-!
# Records of calls

What the handlers that keep events have kept.

## Main definitions

* `Recorder` — the events of one place, with counts and the last output
* `Recorder.ofNotices` — the record of a place after some traces
-/

namespace ChatRelay

/-- The events that were kept, in order. -/
structure Recorder where
  events : List (RunInfo × CallEvent) := []
deriving DecidableEq, Repr, Inhabited

namespace Recorder

/-- One more trace; only those of the place count. -/
def add (place : Nat) (r : Recorder) : Notice → Recorder
  | .recorded p info event => if p = place then ⟨r.events ++ [(info, event)]⟩ else r
  | _ => r

/-- The record of a place after some more traces. -/
def addAll (place : Nat) (r : Recorder) (notices : List Notice) : Recorder :=
  notices.foldl (add place) r

/-- The record of a place after some traces. -/
def ofNotices (place : Nat) (notices : List Notice) : Recorder :=
  addAll place {} notices

def starts (r : Recorder) : Nat :=
  r.events.countP fun
    | (_, .started _) => true
    | _ => false

def ends (r : Recorder) : Nat :=
  r.events.countP fun
    | (_, .ended _) => true
    | _ => false

def failures (r : Recorder) : Nat :=
  r.events.countP fun
    | (_, .failed _) => true
    | _ => false

/-- The output of the last call that ended well. -/
def lastOutput? (r : Recorder) : Option CallOutput :=
  (r.events.filterMap fun
    | (_, .ended output) => some output
    | _ => none).getLast?

end Recorder

end ChatRelay
