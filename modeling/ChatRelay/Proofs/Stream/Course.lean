import ChatRelay.Proofs.Failures
import ChatRelay.Proofs.Stream.Assembled
import ChatRelay.Proofs.Stream.Steps

/-!
# The course of a stream

What a stream comes to if nobody disturbs it can be read off its source: the fragments that the
accumulator passes on, and how the reading ends.  `Vendor.course` knows neither the channel nor the
consumer, so whatever is proved to follow it does not depend on a capacity or on who is faster.

`Worker.whole` is the course of a worker on its way, with what it has forwarded.  A step that ends a
read leaves it as it is (`whole_receiveRead`), and so does the start of a read (`whole_startRead`).

## Main definitions

* `Course`, `Vendor.course` — what a stream comes to
* `Vendor.endingOf` — how a stream is reported
* `Worker.outlook`, `Worker.whole` — what a worker still comes to, and with what it has forwarded
-/

namespace ChatRelay

/-- What a stream comes to. -/
structure Course where
  /-- What the accumulator passes on. -/
  outputs : List Message
  /-- How the reading ends; none if a read never returns. -/
  outcome : Option Outcome

namespace Course

/-- The same course with some fragments before it. -/
def after (fragments : List Message) (c : Course) : Course :=
  { c with outputs := fragments ++ c.outputs }

/-- An error ends the reading, unless it is passed over. -/
def unlessPassed (policy : MalformedChunks) (e : Error) (rest : Course) : Course :=
  if e.isMalformedChunk && policy = .skip then rest else ⟨[], some (.failed e)⟩

@[simp] theorem after_nil (c : Course) : c.after [] = c := rfl

theorem after_append (fs gs : List Message) (c : Course) :
    c.after (fs ++ gs) = (c.after gs).after fs := by
  simp [after]

end Course

namespace Vendor

open Result

/-- What the reads of a source come to, with what the accumulator remembers. -/
def course (v : Vendor) (policy : MalformedChunks) (a : Accumulator) : List SourceStep → Course
  | [] =>
    match a.finish.1 with
    | .ok out => ⟨out.toList, some .completed⟩
    | .error e => ⟨[], some (.failed e)⟩
  | .silence :: _ => ⟨[], none⟩
  | .crash reason :: _ => ⟨[], some (.failed (Worker.crashed reason))⟩
  | .failure e :: rest => .unlessPassed policy e (v.course policy a rest)
  | .value chunk :: rest =>
    match v.fragment chunk with
    | .error e => .unlessPassed policy e (v.course policy a rest)
    | .ok none => v.course policy a rest
    | .ok (some f) =>
      match a.push f with
      | (.ok out, a) => (v.course policy a rest).after out.toList
      | (.error e, _) => ⟨[], some (.failed e)⟩

variable {v : Vendor} {policy : MalformedChunks}

theorem unlessPassed_outcome {e : Error} {rest : Course} {outcome : Outcome}
    (h : (Course.unlessPassed policy e rest).outcome = some outcome) :
    rest.outcome = some outcome ∨ outcome = .failed e := by
  unfold Course.unlessPassed at h
  split at h
  · exact Or.inl h
  · cases h
    exact Or.inr rfl

/-- **A course ends for a reason of its own:** the source is at its end, or the error is one that
the source has or one of a single step. -/
theorem course_outcome (a : Accumulator) (source : List SourceStep) {outcome : Outcome}
    (h : (v.course policy a source).outcome = some outcome) :
    outcome = .completed ∨ ∃ e, outcome = .failed e ∧ (.failure e ∈ source ∨ e.IsPlain) := by
  induction source generalizing a with
  | nil =>
      have hfinish := a.failsPlainly_finish
      unfold course at h
      split at h
      · cases h
        exact Or.inl rfl
      · next e he =>
        cases h
        exact Or.inr ⟨e, rfl, Or.inr (hfinish e he)⟩
  | cons read rest ih =>
      -- What the rest of the source comes to has its reason in the rest.
      have hrest (a : Accumulator) (h : (v.course policy a rest).outcome = some outcome) :
          outcome = .completed ∨
            ∃ e, outcome = .failed e ∧ (.failure e ∈ read :: rest ∨ e.IsPlain) := by
        rcases ih a h with hcompleted | ⟨e, hfailed, hreason⟩
        · exact Or.inl hcompleted
        · exact Or.inr ⟨e, hfailed, hreason.imp_left (List.mem_cons_of_mem read)⟩
      cases read with
      | silence => cases h
      | crash reason =>
          cases h
          exact Or.inr ⟨_, rfl, Or.inr ⟨rfl, rfl⟩⟩
      | failure e =>
          rcases unlessPassed_outcome h with h | hfailed
          · exact hrest a h
          · exact Or.inr ⟨e, hfailed, Or.inl List.mem_cons_self⟩
      | value chunk =>
          unfold course at h
          split at h
          · next e he =>
            rcases unlessPassed_outcome h with h | hfailed
            · exact hrest a h
            · exact Or.inr ⟨e, hfailed, Or.inr (v.failsPlainly_fragment chunk e he)⟩
          · exact hrest a h
          · next f hf =>
            split at h
            · next out a' hpush => exact hrest a' h
            · next e a' hpush =>
              cases h
              have hplain := a.failsPlainly_push f e (congrArg Prod.fst hpush)
              exact Or.inr ⟨e, rfl, Or.inr hplain⟩

/-- How a stream is reported that forwarded some fragments and came to an outcome. -/
def endingOf (v : Vendor) (forwarded : List Message) : Outcome → Ending
  | .completed => (collected forwarded).mapError (Error.withComponent · v.typeName "stream")
  | .failed e => .error (e.withComponent v.typeName "stream")
  | .cancelled => .error (Error.cancelled.withComponent v.typeName "stream")

theorem failsPlainly_collected (forwarded : List Message) :
    (collected forwarded).FailsPlainly := by
  unfold collected
  split
  · exact failsOnly_ok _
  · exact Message.failsPlainly_concat _

/-- **What a course is reported as failing with has a cause:** an error of the source or of a single
step. -/
theorem exists_cause {a : Accumulator} {source : List SourceStep} {outcome : Outcome}
    (h : (v.course policy a source).outcome = some outcome) {forwarded : List Message} {e : Error}
    (he : v.endingOf forwarded outcome = .error e) :
    ∃ cause, e = cause.withComponent v.typeName "stream" ∧
      (.failure cause ∈ source ∨ cause.IsPlain) := by
  rcases course_outcome a source h with rfl | ⟨cause, rfl, hcause⟩
  · have hplain := failsPlainly_collected forwarded
    unfold endingOf at he
    cases hcollected : collected forwarded with
    | ok m =>
        rw [hcollected] at he
        cases he
    | error cause =>
        rw [hcollected] at he hplain
        cases he
        exact ⟨cause, rfl, Or.inr (failsOnly_error_iff.mp hplain)⟩
  · cases he
    exact ⟨cause, rfl, hcause⟩

/-- Only a course that reaches the end of its source is reported as good. -/
theorem endingOf_eq_ok_iff {forwarded : List Message} {outcome : Outcome} {m : Message} :
    v.endingOf forwarded outcome = .ok m ↔
      outcome = .completed ∧ collected forwarded = .ok m := by
  cases outcome with
  | completed =>
      unfold endingOf
      cases collected forwarded <;> simp [Except.mapError]
  | failed e => simp [endingOf]
  | cancelled => simp [endingOf]

end Vendor

namespace Worker

variable {w : Worker}

theorem endingOf_eq (w : Worker) (outcome : Outcome) :
    w.endingOf outcome = w.vendor.endingOf w.forwarded outcome := by
  cases outcome <;> rfl

/-- What a worker still comes to if nobody disturbs it.  Once it has reported, its phase does not
tell any more. -/
def outlook (w : Worker) : Course :=
  match w.phase with
  | .polling => w.vendor.course w.policy w.accumulator w.source
  | .awaiting none => w.vendor.course w.policy w.accumulator []
  | .awaiting (some read) => w.vendor.course w.policy w.accumulator (read :: w.source)
  | .offering f false | .recording f false =>
    (w.vendor.course w.policy w.accumulator w.source).after [f]
  | .offering f true | .recording f true => ⟨[f], some .completed⟩
  | .releasing outcome | .reporting outcome => ⟨[], some outcome⟩
  | .raising _ | .leaving | .finished => ⟨[], none⟩

/-- What a worker comes to in all if nobody disturbs it. -/
def whole (w : Worker) : Course :=
  w.outlook.after w.forwarded

theorem whole_start (v : Vendor) (c : StreamConfig) (source : List SourceStep) :
    (start v c source).whole = v.course c.malformedChunks v.accumulator source := rfl

/-- Only a read that never returns leaves open how the reading ends. -/
theorem whole_outcome_of_silence (hphase : w.phase = .awaiting (some .silence)) :
    w.whole.outcome = none := by
  simp [whole, outlook, hphase, Vendor.course, Course.after]

theorem whole_startRead (hphase : w.phase = .polling) :
    { w with
      reads := w.reads + 1, source := w.source.tail, phase := .awaiting w.source.head? }.whole =
      w.whole := by
  unfold whole outlook
  rw [hphase]
  cases w.source <;> rfl

/-- What follows an error of a read. -/
theorem whole_enter_afterFailure (w : Worker) (e : Error) :
    (w.enter (afterFailure w.policy e)).whole =
      (Course.unlessPassed w.policy e (w.vendor.course w.policy w.accumulator w.source)).after
        w.forwarded := by
  unfold afterFailure Course.unlessPassed
  split <;> rfl

/-- What follows what the accumulator says to a fragment. -/
theorem whole_afterPush (w : Worker) (out : Option Message) :
    { w with phase := afterAccumulator false (.ok out) }.whole =
      ((w.vendor.course w.policy w.accumulator w.source).after out.toList).after
        w.forwarded := by
  cases out <;> rfl

/-- **The end of a read changes nothing of the course.** -/
theorem whole_receiveRead {read : Option SourceStep} (hphase : w.phase = .awaiting read)
    (hread : read ≠ some .silence) : (w.receiveRead read).whole = w.whole := by
  have hwhole : w.whole = (match read with
      | none => w.vendor.course w.policy w.accumulator []
      | some read => w.vendor.course w.policy w.accumulator (read :: w.source)).after
        w.forwarded := by
    unfold whole outlook
    rw [hphase]
    cases read <;> rfl
  rw [hwhole]
  match read with
  | none =>
      simp only [receiveRead, Vendor.course]
      cases w.accumulator.finish.1 with
      | error e => rfl
      | ok out => cases out <;> rfl
  | some (.failure e) => exact w.whole_enter_afterFailure e
  | some (.crash reason) => rfl
  | some .silence => exact absurd rfl hread
  | some (.value v) =>
      simp only [receiveRead, Vendor.course]
      cases w.vendor.fragment v with
      | error e => exact w.whole_enter_afterFailure e
      | ok fragment =>
          cases fragment with
          | none => rfl
          | some f =>
              simp only
              rcases hpush : w.accumulator.push f with ⟨out, a⟩
              cases out with
              | error e => rfl
              | ok out => exact { w with accumulator := a }.whole_afterPush out

end Worker

end ChatRelay
