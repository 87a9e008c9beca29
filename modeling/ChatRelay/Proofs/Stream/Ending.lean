import ChatRelay.Proofs.Failures
import ChatRelay.Proofs.Stream.Finish
import ChatRelay.Proofs.Stream.Moves

/-!
# How a stream ends

A worker reports one ending, and only when it is done with reading.  Which one depends on three
things that may have happened before: the worker gave up reading, it was refused a fragment, or it
reached the end of the source.  `Worker.Stands` says for each phase of a worker which of them
happened and what was reported, and `stands_of_step` that every step keeps to it.

## Main definitions

* `Outcome.Fits` — an outcome is the right one for what has happened
* `Worker.Stands` — what holds of a worker in each of its phases
* `Worker.Accounts` — the invariant of a worker, whatever its consumer does
-/

namespace ChatRelay

/-- An outcome is the right one for what has happened: whether the worker gave up reading, was
refused a fragment, or reached the end of the source. -/
def Outcome.Fits (script : List SourceStep) (halted refused ended : Prop) : Outcome → Prop
  | .completed => ended ∧ ¬ halted ∧ ¬ refused
  | .failed e =>
    ¬ ended ∧ ¬ halted ∧ ¬ refused ∧ (.failure e ∈ script ∨ e.isCancelled = false)
  | .cancelled => (halted ∨ refused) ∧ (ended → refused)

namespace Worker

variable {script : List SourceStep} {halted refused ended : Prop} {w w' : Worker}

/-- What holds of a worker in each of its phases. -/
def Stands (script : List SourceStep) (halted refused ended : Prop) (w : Worker) : Prop :=
  match w.phase with
  | .polling | .awaiting _ | .offering _ false | .recording _ false =>
    w.endings = [] ∧ ¬ halted ∧ ¬ refused ∧ ¬ ended
  | .offering _ true | .recording _ true => w.endings = [] ∧ ¬ halted ∧ ¬ refused ∧ ended
  | .releasing outcome | .reporting outcome =>
    w.endings = [] ∧ outcome.Fits script halted refused ended
  | .raising _ | .leaving | .finished =>
    ∃ outcome, w.endings = [w.endingOf outcome] ∧ outcome.Fits script halted refused ended

/-- A worker has reported how the stream ended. -/
def HasReported (w : Worker) : Prop :=
  w.phase = .leaving ∨ w.phase = .finished ∨ ∃ e, w.phase = .raising e

/-- The reads that have not ended. -/
def ahead (w : Worker) : List SourceStep :=
  match w.phase with
  | .awaiting read => read.toList ++ w.source
  | _ => w.source

/-- The invariant of a worker: its reads are those of the source, the end of the stream cannot fail,
and it stands where it should. -/
structure Accounts (script : List SourceStep) (halted refused ended : Prop) (w : Worker) :
    Prop where
  ahead : ∀ read ∈ w.ahead, read ∈ script
  quiet : w.accumulator.IsQuiet
  stands : w.Stands script halted refused ended

/-! ### Reads to come -/

theorem ahead_of_awaiting {read : Option SourceStep} (hphase : w.phase = .awaiting read) :
    w.ahead = read.toList ++ w.source := by
  rw [ahead, hphase]

theorem source_subset_ahead (w : Worker) : w.source ⊆ w.ahead := by
  unfold ahead
  split
  · exact List.subset_append_right _ _
  · exact List.Subset.refl _

theorem afterFailure_ne_awaiting (policy : MalformedChunks) (e : Error)
    (read : Option SourceStep) : afterFailure policy e ≠ .awaiting read := by
  unfold afterFailure
  split <;> simp

theorem afterAccumulator_ne_awaiting (final : Bool) (out : Result (Option Message))
    (read : Option SourceStep) : afterAccumulator final out ≠ .awaiting read := by
  unfold afterAccumulator
  split
  · simp
  · split <;> simp
  · simp

theorem afterReport_ne_awaiting (outcome : Outcome) (ending : Ending) (read : Option SourceStep) :
    afterReport outcome ending ≠ .awaiting read := by
  unfold afterReport
  split <;> simp

theorem ahead_subset_source (hphase : ∀ read, w.phase ≠ .awaiting read) : w.ahead ⊆ w.source := by
  unfold ahead
  split
  · next read h => exact absurd h (hphase read)
  · exact List.Subset.refl _

/-- A step leaves no read to come but those that were. -/
theorem ahead_of_step (h : Step w w') : w'.ahead ⊆ w.ahead := by
  suffices hsource : w'.ahead ⊆ w.source from
    List.Subset.trans hsource w.source_subset_ahead
  cases h with
  | startRead =>
      -- The read that starts is the first of those to come.
      rw [ahead_of_awaiting rfl]
      cases w.source <;> simp
  | endSource => exact ahead_subset_source (afterAccumulator_ne_awaiting _ _)
  | fail => exact ahead_subset_source (afterFailure_ne_awaiting _ _)
  | reject => exact ahead_subset_source (afterFailure_ne_awaiting _ _)
  | push => exact ahead_subset_source (afterAccumulator_ne_awaiting _ _)
  | @record f final =>
      refine ahead_subset_source fun read => ?_
      cases final <;> simp
  | report => exact ahead_subset_source (afterReport_ne_awaiting _ _)
  | _ => exact List.Subset.refl _

/-- What waits stays such that the end of the stream cannot fail. -/
theorem isQuiet_of_step (h : Step w w') (hquiet : w.accumulator.IsQuiet) :
    w'.accumulator.IsQuiet := by
  cases h with
  | endSource => exact Accumulator.isQuiet_finish _
  | push hphase hopen hfragment =>
      exact Accumulator.isQuiet_push hquiet (Vendor.isSpoken_of_fragment hfragment)
  | _ => exact hquiet

/-! ### Where a worker stands -/

theorem stands_of_isReading (hphase : w.IsReading) :
    w.Stands script halted refused ended ↔
      w.endings = [] ∧ ¬ halted ∧ ¬ refused ∧ ¬ ended := by
  rcases hphase with hphase | ⟨read, hphase⟩ <;> simp [Stands, hphase]

theorem stands_of_hasReported (hphase : w.HasReported) :
    w.Stands script halted refused ended ↔
      ∃ outcome, w.endings = [w.endingOf outcome] ∧ outcome.Fits script halted refused ended := by
  rcases hphase with hphase | hphase | ⟨e, hphase⟩ <;> simp [Stands, hphase]

theorem hasReported_of_afterReport {outcome : Outcome} {ending : Ending}
    (hphase : w.phase = afterReport outcome ending) : w.HasReported := by
  unfold afterReport at hphase
  split at hphase
  · exact Or.inl hphase
  · exact Or.inl hphase
  · exact Or.inr (Or.inr ⟨_, hphase⟩)

theorem stands_of_afterFailure {policy : MalformedChunks} {e : Error}
    (hendings : w.endings = []) (hhalted : ¬ halted) (hrefused : ¬ refused) (hended : ¬ ended)
    (he : .failure e ∈ script ∨ e.isCancelled = false) :
    (w.enter (afterFailure policy e)).Stands script halted refused ended := by
  unfold afterFailure
  split
  · exact ⟨hendings, hhalted, hrefused, hended⟩
  · exact ⟨hendings, hended, hhalted, hrefused, he⟩

/-- What does not happen changes nothing. -/
theorem Stands.of_not (h : w.Stands script halted refused ended) {a b c : Prop}
    (hnot : ¬ a ∧ ¬ b ∧ ¬ c) : w.Stands script (halted ∨ a) (refused ∨ b) (ended ∨ c) := by
  simpa [hnot] using h

/-- **A step keeps to what holds of a worker in its phases.** -/
theorem stands_of_step (hahead : ∀ read ∈ w.ahead, read ∈ script) (hquiet : w.accumulator.IsQuiet)
    (hstands : w.Stands script halted refused ended) (h : Step w w') :
    w'.Stands script (halted ∨ w.Halts) (refused ∨ w.IsRefused) (ended ∨ w.EndsSource) := by
  have hreading {read : Option SourceStep} (hphase : w.phase = .awaiting read) :=
    (stands_of_isReading (Or.inr ⟨read, hphase⟩)).mp hstands
  cases h with
  | halt hphase hcancelled =>
      obtain ⟨hendings, hhalted, hrefused, hended⟩ := (stands_of_isReading hphase).mp hstands
      refine ⟨hendings, Or.inl (Or.inr ⟨hphase, hcancelled⟩), ?_⟩
      rintro (h | ⟨-, hopen⟩)
      · exact absurd h hended
      · simp [hcancelled] at hopen
  | startRead hphase hopen =>
      refine .of_not ?_ (by simp [Halts, IsRefused, EndsSource, hphase, hopen])
      exact (stands_of_isReading (Or.inl hphase)).mp hstands
  | endSource hphase hopen =>
      obtain ⟨hendings, hhalted, hrefused, -⟩ := hreading hphase
      have hnot : ¬ w.Halts ∧ ¬ w.IsRefused := by simp [Halts, IsRefused, hphase, hopen]
      have hends : w.EndsSource := ⟨hphase, hopen⟩
      -- The end of the stream does not fail, so what is left is offered, or nothing is.
      obtain ⟨out, hout⟩ := Accumulator.exists_finish hquiet
      rw [hout]
      cases out with
      | none => exact ⟨hendings, Or.inr hends, not_or.mpr ⟨hhalted, hnot.1⟩,
          not_or.mpr ⟨hrefused, hnot.2⟩⟩
      | some f => exact ⟨hendings, not_or.mpr ⟨hhalted, hnot.1⟩, not_or.mpr ⟨hrefused, hnot.2⟩,
          Or.inr hends⟩
  | fail hphase hopen =>
      obtain ⟨hendings, hhalted, hrefused, hended⟩ := hreading hphase
      refine .of_not ?_ (by simp [Halts, IsRefused, EndsSource, hphase, hopen])
      refine stands_of_afterFailure hendings hhalted hrefused hended (Or.inl (hahead _ ?_))
      simp [ahead_of_awaiting hphase]
  | crash hphase hopen =>
      obtain ⟨hendings, hhalted, hrefused, hended⟩ := hreading hphase
      refine .of_not ?_ (by simp [Halts, IsRefused, EndsSource, hphase, hopen])
      exact ⟨hendings, hended, hhalted, hrefused, Or.inr rfl⟩
  | reject hphase hopen hfragment =>
      obtain ⟨hendings, hhalted, hrefused, hended⟩ := hreading hphase
      refine .of_not ?_ (by simp [Halts, IsRefused, EndsSource, hphase, hopen])
      exact stands_of_afterFailure hendings hhalted hrefused hended
        (Or.inr (Vendor.failsPlainly_fragment _ _ _ hfragment).2)
  | ignore hphase hopen hfragment =>
      refine .of_not ?_ (by simp [Halts, IsRefused, EndsSource, hphase, hopen])
      exact hreading hphase
  | @push v f hphase hopen hfragment =>
      obtain ⟨hendings, hhalted, hrefused, hended⟩ := hreading hphase
      refine .of_not ?_ (by simp [Halts, IsRefused, EndsSource, hphase, hopen])
      have hpush := (Accumulator.failsPlainly_push w.accumulator f).neverCancelled
      cases hout : (w.accumulator.push f).1 with
      | error e =>
          rw [hout] at hpush
          exact ⟨hendings, hended, hhalted, hrefused, Or.inr (hpush e rfl)⟩
      | ok out => cases out <;> exact ⟨hendings, hhalted, hrefused, hended⟩
  | @deliver f final hphase hopen hroom =>
      refine .of_not ?_ (by simp [Halts, IsReading, IsRefused, EndsSource, hphase, hopen])
      cases final <;> simpa [Stands, hphase] using hstands
  | @refuse f final hphase hgone =>
      refine ⟨?_, Or.inr (Or.inr ⟨⟨f, final, hphase⟩, hgone⟩), fun _ =>
        Or.inr ⟨⟨f, final, hphase⟩, hgone⟩⟩
      cases final <;> simp only [Stands, hphase] at hstands <;> exact hstands.1
  | @record f final hphase =>
      refine .of_not ?_ (by simp [Halts, IsReading, IsRefused, EndsSource, hphase])
      cases final with
      | false => simpa [Stands, hphase] using hstands
      | true =>
          simp only [Stands, hphase] at hstands
          obtain ⟨hendings, hhalted, hrefused, hended⟩ := hstands
          exact ⟨hendings, hended, hhalted, hrefused⟩
  | release hphase =>
      refine .of_not ?_ (by simp [Halts, IsReading, IsRefused, EndsSource, hphase])
      simpa [Stands, hphase] using hstands
  | @report outcome hphase =>
      refine .of_not ?_ (by simp [Halts, IsReading, IsRefused, EndsSource, hphase])
      simp only [Stands, hphase] at hstands
      refine (stands_of_hasReported (hasReported_of_afterReport rfl)).mpr ⟨outcome, ?_, hstands.2⟩
      simp only [hstands.1, List.nil_append]
      rfl
  | raise hphase hopen hroom =>
      refine .of_not ?_ (by simp [Halts, IsReading, IsRefused, EndsSource, hphase])
      exact (stands_of_hasReported (Or.inr (Or.inr ⟨_, hphase⟩))).mp hstands
  | withhold hphase hgone =>
      refine .of_not ?_ (by simp [Halts, IsReading, IsRefused, EndsSource, hphase])
      exact (stands_of_hasReported (Or.inr (Or.inr ⟨_, hphase⟩))).mp hstands
  | leave hphase =>
      refine .of_not ?_ (by simp [Halts, IsReading, IsRefused, EndsSource, hphase])
      exact (stands_of_hasReported (Or.inl hphase)).mp hstands

/-! ### Whole streams -/

theorem Accounts.step (h : w.Accounts script halted refused ended) (hstep : Step w w') :
    w'.Accounts script (halted ∨ w.Halts) (refused ∨ w.IsRefused) (ended ∨ w.EndsSource) where
  ahead := fun read hread => h.ahead read (ahead_of_step hstep hread)
  quiet := isQuiet_of_step hstep h.quiet
  stands := stands_of_step h.ahead h.quiet h.stands hstep

/-- A move of the worker keeps the invariant, also where it has to wait. -/
theorem Accounts.work (h : w.Accounts script halted refused ended) :
    (w.take .work).Accounts script (halted ∨ w.Halts) (refused ∨ w.IsRefused)
      (ended ∨ w.EndsSource) := by
  cases hstep : w.step with
  | none =>
      have htake : w.take .work = w := by simp [take, hstep]
      rw [htake]
      exact { h with stands := h.stands.of_not (not_of_step_eq_none hstep) }
  | some w' =>
      have htake : w.take .work = w' := by simp [take, hstep]
      rw [htake]
      exact h.step (step_eq_some_iff.mp hstep)

/-- What the consumer does changes nothing about it. -/
theorem Accounts.take (h : w.Accounts script halted refused ended) {m : Move} (hm : m ≠ .work) :
    (w.take m).Accounts script halted refused ended := by
  obtain ⟨channel, htake⟩ := w.take_of_ne_work hm
  rw [htake]
  exact ⟨h.ahead, h.quiet, h.stands⟩

theorem accounts_start (v : Vendor) (c : StreamConfig) (source : List SourceStep) :
    (start v c source).Accounts source False False False where
  ahead := fun _ hread => hread
  quiet := fun _ hf => by cases hf
  stands := ⟨rfl, id, id, id⟩

/-! ### What is reported -/

/-- Nothing is reported before the worker is done with reading, and one ending then. -/
theorem Accounts.endings_cases (h : w.Accounts script halted refused ended) :
    (w.endings = [] ∧ ¬ w.HasReported) ∨
      ∃ outcome, w.endings = [w.endingOf outcome] ∧
        outcome.Fits script halted refused ended := by
  by_cases hreported : w.HasReported
  · exact Or.inr ((stands_of_hasReported hreported).mp h.stands)
  · left
    refine ⟨?_, hreported⟩
    have hstands := h.stands
    unfold Stands at hstands
    split at hstands
    all_goals first | exact hstands.1 | skip
    · next e hphase => exact absurd (Or.inr (Or.inr ⟨e, hphase⟩)) hreported
    · next hphase => exact absurd (Or.inl hphase) hreported
    · next hphase => exact absurd (Or.inr (Or.inl hphase)) hreported

/-- A call ends well when the end of the source was reached, every fragment was accepted, and what
was forwarded can be merged. -/
theorem endingOf_eq_ok_iff {outcome : Outcome} (h : outcome.Fits script halted refused ended)
    {reply : Message} :
    w.endingOf outcome = .ok reply ↔ ended ∧ ¬ refused ∧ w.merged = .ok reply := by
  cases outcome with
  | completed =>
      obtain ⟨hended, -, hrefused⟩ := h
      cases hmerged : w.merged <;> simp [endingOf, hmerged, Except.mapError, hended, hrefused]
  | failed e => simp [endingOf, h.1]
  | cancelled =>
      have hnot : ended → ¬ ¬ refused := fun hended hrefused => hrefused (h.2 hended)
      simp only [endingOf, reduceCtorEq, false_iff, not_and]
      exact fun hended hrefused => absurd hrefused (hnot hended)

theorem neverCancelled_merged (w : Worker) : w.merged.NeverCancelled := by
  unfold merged
  split
  · exact Result.neverCancelled_ok _
  · exact (Message.failsPlainly_concat _).neverCancelled

/-- A call ends as cancelled when the worker stopped for its consumer, unless the source itself
fails so. -/
theorem exists_endingOf_isCancelled_iff {outcome : Outcome}
    (h : outcome.Fits script halted refused ended)
    (hscript : ∀ e, .failure e ∈ script → e.isCancelled = false) :
    (∃ e, w.endingOf outcome = .error e ∧ e.isCancelled = true) ↔ halted ∨ refused := by
  have hnamed (e : Error) : (w.named e).isCancelled = e.isCancelled := by
    simp [named, Error.isCancelled]
  cases outcome with
  | completed =>
      obtain ⟨-, hhalted, hrefused⟩ := h
      refine iff_of_false ?_ (not_or.mpr ⟨hhalted, hrefused⟩)
      rintro ⟨e, he, hcancelled⟩
      have hnever := w.neverCancelled_merged.named w.vendor.typeName "stream" e he
      simp [hnever] at hcancelled
  | failed e =>
      obtain ⟨-, hhalted, hrefused, hcause⟩ := h
      refine iff_of_false ?_ (not_or.mpr ⟨hhalted, hrefused⟩)
      rintro ⟨_, he, hcancelled⟩
      cases he
      rw [hnamed] at hcancelled
      rcases hcause with hmem | hfalse
      · simp [hscript e hmem] at hcancelled
      · simp [hfalse] at hcancelled
  | cancelled => exact iff_of_true ⟨_, rfl, by rw [hnamed]; rfl⟩ h.1

end Worker

end ChatRelay
