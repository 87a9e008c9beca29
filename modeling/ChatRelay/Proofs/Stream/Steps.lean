import Mathlib
import ChatRelay.Stream.Session

/-!
# The steps of a worker

`Worker.Step` says everything that one step of a worker can do, one case for each way in which it
goes on, and `step_eq_some_iff` that this is what the worker does.  What holds of a worker however
it was reached is proved case by case from here, and the worker itself is not opened again.

## Main definitions

* `Worker.IsReading` — the worker is about to read, or has started to
* `Worker.Step` — one step of a worker
-/

namespace ChatRelay

namespace Channel

variable {α : Type} {c c' : Channel α} {a : α}

/-- The same channel with one more item. -/
def enqueue (c : Channel α) (a : α) : Channel α :=
  { c with queue := c.queue ++ [a] }

/-- An item is accepted when somebody waits for it and there is room. -/
theorem offer_eq_accepted_iff : c.offer a = (.accepted, c') ↔
    c.isAbandoned = false ∧ c.queue.length < c.capacity ∧ c' = c.enqueue a := by
  unfold offer enqueue
  by_cases hgone : c.isAbandoned = true
  · simp [hgone]
  · by_cases hroom : c.queue.length < c.capacity
    · simp [hgone, hroom, @eq_comm _ c']
    · simp [hgone, hroom]

theorem offer_eq_refused_iff : c.offer a = (.refused, c') ↔ c.isAbandoned = true ∧ c' = c := by
  unfold offer
  by_cases hgone : c.isAbandoned = true
  · simp [hgone, @eq_comm _ c']
  · by_cases hroom : c.queue.length < c.capacity <;> simp [hgone, hroom]

theorem offer_of_room (a : α) (hopen : c.isAbandoned = false)
    (hroom : c.queue.length < c.capacity) : c.offer a = (.accepted, c.enqueue a) :=
  offer_eq_accepted_iff.mpr ⟨hopen, hroom, rfl⟩

theorem offer_of_isAbandoned (a : α) (hgone : c.isAbandoned = true) : c.offer a = (.refused, c) :=
  offer_eq_refused_iff.mpr ⟨hgone, rfl⟩

theorem receive_of_cons {rest : List α} (h : c.queue = a :: rest) :
    c.receive = (.item a, { c with queue := rest }) := by
  rw [receive, h]

theorem receive_of_nil (h : c.queue = []) :
    c.receive = (if c.writerOpen then .blocked else .ended, c) := by
  rw [receive, h]

theorem receive_eq_item_iff : c.receive.1 = .item a ↔ ∃ rest, c.queue = a :: rest := by
  cases hqueue : c.queue with
  | nil =>
      rw [receive_of_nil hqueue]
      cases c.writerOpen <;> simp
  | cons b rest => simp [receive_of_cons hqueue]

theorem receive_eq_ended_iff : c.receive.1 = .ended ↔ c.queue = [] ∧ c.writerOpen = false := by
  cases hqueue : c.queue with
  | nil =>
      rw [receive_of_nil hqueue]
      cases c.writerOpen <;> simp
  | cons b rest => simp [receive_of_cons hqueue]

theorem receive_eq_blocked_iff : c.receive.1 = .blocked ↔ c.queue = [] ∧ c.writerOpen = true := by
  cases hqueue : c.queue with
  | nil =>
      rw [receive_of_nil hqueue]
      cases c.writerOpen <;> simp
  | cons b rest => simp [receive_of_cons hqueue]

end Channel

namespace Worker

/-- A worker is about to read, or has started to. -/
def IsReading (w : Worker) : Prop :=
  w.phase = .polling ∨ ∃ read, w.phase = .awaiting read

/-- The same worker in another phase. -/
def enter (w : Worker) (phase : Phase) : Worker :=
  { w with phase }

/-- One step of a worker. -/
inductive Step : Worker → Worker → Prop
  /-- The consumer has cancelled, so no read is started, and one that was is given up. -/
  | halt {w} (hphase : w.IsReading) (hcancelled : w.channel.cancelled = true) :
      Step w (w.enter (.releasing .cancelled))
  | startRead {w} (hphase : w.phase = .polling) (hopen : w.channel.cancelled = false) :
      Step w { w with
        reads := w.reads + 1, source := w.source.tail, phase := .awaiting w.source.head? }
  /-- The source is at its end. -/
  | endSource {w} (hphase : w.phase = .awaiting none) (hopen : w.channel.cancelled = false) :
      Step w { w with
        accumulator := w.accumulator.finish.2
        phase := afterAccumulator true w.accumulator.finish.1 }
  | fail {w e} (hphase : w.phase = .awaiting (some (.failure e)))
      (hopen : w.channel.cancelled = false) : Step w (w.enter (afterFailure w.policy e))
  | crash {w reason} (hphase : w.phase = .awaiting (some (.crash reason)))
      (hopen : w.channel.cancelled = false) :
      Step w (w.enter (.releasing (.failed (crashed reason))))
  /-- A value is not one that the vendor sends. -/
  | reject {w v e} (hphase : w.phase = .awaiting (some (.value v)))
      (hopen : w.channel.cancelled = false) (hfragment : w.vendor.fragment v = .error e) :
      Step w (w.enter (afterFailure w.policy e))
  /-- A value carries no fragment. -/
  | ignore {w v} (hphase : w.phase = .awaiting (some (.value v)))
      (hopen : w.channel.cancelled = false) (hfragment : w.vendor.fragment v = .ok none) :
      Step w (w.enter .polling)
  | push {w v f} (hphase : w.phase = .awaiting (some (.value v)))
      (hopen : w.channel.cancelled = false) (hfragment : w.vendor.fragment v = .ok (some f)) :
      Step w { w with
        accumulator := (w.accumulator.push f).2
        phase := afterAccumulator false (w.accumulator.push f).1 }
  /-- The channel has room for a fragment. -/
  | deliver {w f final} (hphase : w.phase = .offering f final)
      (hopen : w.channel.isAbandoned = false)
      (hroom : w.channel.queue.length < w.channel.capacity) :
      Step w { w with channel := w.channel.enqueue (.ok f), phase := .recording f final }
  /-- Nobody wants a fragment any more. -/
  | refuse {w f final} (hphase : w.phase = .offering f final)
      (hgone : w.channel.isAbandoned = true) : Step w (w.enter (.releasing .cancelled))
  | record {w f final} (hphase : w.phase = .recording f final) :
      Step w { w with
        forwarded := w.forwarded ++ [f]
        phase := if final then .releasing .completed else .polling }
  | release {w outcome} (hphase : w.phase = .releasing outcome) :
      Step w { w with closes := w.closes + 1, phase := .reporting outcome }
  | report {w outcome} (hphase : w.phase = .reporting outcome) :
      Step w { w with
        endings := w.endings ++ [w.endingOf outcome]
        phase := afterReport outcome (w.endingOf outcome) }
  /-- The channel has room for the error. -/
  | raise {w e} (hphase : w.phase = .raising e) (hopen : w.channel.isAbandoned = false)
      (hroom : w.channel.queue.length < w.channel.capacity) :
      Step w { w with channel := w.channel.enqueue (.error e), phase := .leaving }
  /-- Nobody wants the error any more. -/
  | withhold {w e} (hphase : w.phase = .raising e) (hgone : w.channel.isAbandoned = true) :
      Step w (w.enter .leaving)
  | leave {w} (hphase : w.phase = .leaving) :
      Step w { w with channel := w.channel.dropWriter, phase := .finished }

theorem Step.of_step {w w' : Worker} (h : w.step = some w') : Step w w' := by
  unfold step at h
  split at h
  · next hphase =>
    split at h
    · next hcancelled =>
      cases h
      exact .halt (Or.inl hphase) hcancelled
    · next hopen =>
      cases h
      exact .startRead hphase (by simpa using hopen)
  · next read hphase =>
    split at h
    · next hcancelled =>
      cases h
      exact .halt (Or.inr ⟨read, hphase⟩) hcancelled
    · next hopen =>
      have hopen : w.channel.cancelled = false := by simpa using hopen
      split at h
      · cases h
      · next hread =>
        cases h
        -- The read has ended, and what the worker goes on with depends on what it came to.
        match read with
        | none => exact .endSource hphase hopen
        | some (.failure e) => exact .fail hphase hopen
        | some (.crash reason) => exact .crash hphase hopen
        | some .silence => exact absurd rfl hread
        | some (.value v) =>
            simp only [receiveRead]
            split
            · next e hfragment => exact .reject hphase hopen hfragment
            · next hfragment => exact .ignore hphase hopen hfragment
            · next f hfragment => exact .push hphase hopen hfragment
  · next f final hphase =>
    split at h
    · next hoffer =>
      cases h
      obtain ⟨hopen, hroom, rfl⟩ := Channel.offer_eq_accepted_iff.mp hoffer
      exact .deliver hphase hopen hroom
    · next hoffer =>
      cases h
      exact .refuse hphase (Channel.offer_eq_refused_iff.mp hoffer).1
    · cases h
  · next f final hphase =>
    cases h
    exact .record hphase
  · next outcome hphase =>
    cases h
    exact .release hphase
  · next outcome hphase =>
    cases h
    exact .report hphase
  · next e hphase =>
    split at h
    · next hoffer =>
      cases h
      obtain ⟨hopen, hroom, rfl⟩ := Channel.offer_eq_accepted_iff.mp hoffer
      exact .raise hphase hopen hroom
    · next hoffer =>
      cases h
      exact .withhold hphase (Channel.offer_eq_refused_iff.mp hoffer).1
    · cases h
  · next hphase =>
    cases h
    exact .leave hphase
  · cases h

/-- **A worker does what its steps say,** and everything that they say. -/
theorem step_eq_some_iff {w w' : Worker} : w.step = some w' ↔ Step w w' := by
  refine ⟨Step.of_step, fun h => ?_⟩
  cases h with
  | halt hphase hcancelled =>
      rcases hphase with hphase | ⟨read, hphase⟩ <;> simp [step, hphase, hcancelled, enter]
  | startRead hphase hopen => simp [step, hphase, hopen]
  | endSource hphase hopen => simp [step, hphase, hopen, receiveRead]
  | fail hphase hopen => simp [step, hphase, hopen, receiveRead, enter]
  | crash hphase hopen => simp [step, hphase, hopen, receiveRead, enter]
  | reject hphase hopen hfragment => simp [step, hphase, hopen, receiveRead, hfragment, enter]
  | ignore hphase hopen hfragment => simp [step, hphase, hopen, receiveRead, hfragment, enter]
  | push hphase hopen hfragment => simp [step, hphase, hopen, receiveRead, hfragment]
  | deliver hphase hopen hroom => simp [step, hphase, Channel.offer_of_room _ hopen hroom]
  | refuse hphase hgone => simp [step, hphase, Channel.offer_of_isAbandoned _ hgone, enter]
  | record hphase => simp [step, hphase]
  | release hphase => simp [step, hphase]
  | report hphase => simp [step, hphase]
  | raise hphase hopen hroom => simp [step, hphase, Channel.offer_of_room _ hopen hroom]
  | withhold hphase hgone => simp [step, hphase, Channel.offer_of_isAbandoned _ hgone, enter]
  | leave hphase => simp [step, hphase]

/-- A worker that has reported leaves the channel, or has an error for the consumer first. -/
theorem afterReport_cases (outcome : Outcome) (ending : Ending) :
    (afterReport outcome ending = .leaving ∧ (outcome = .cancelled ∨ ∃ m, ending = .ok m)) ∨
      ∃ e, ending = .error e ∧ afterReport outcome ending = .raising e := by
  cases outcome with
  | cancelled => exact Or.inl ⟨rfl, Or.inl rfl⟩
  | completed =>
      cases ending with
      | ok m => exact Or.inl ⟨rfl, Or.inr ⟨m, rfl⟩⟩
      | error e => exact Or.inr ⟨e, rfl, rfl⟩
  | failed e' =>
      cases ending with
      | ok m => exact Or.inl ⟨rfl, Or.inr ⟨m, rfl⟩⟩
      | error e => exact Or.inr ⟨e, rfl, rfl⟩

end Worker

end ChatRelay
