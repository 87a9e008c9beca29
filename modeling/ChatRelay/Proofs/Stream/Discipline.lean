import ChatRelay.Proofs.Stream.Moves

/-!
# What a worker does with its source

A worker reads its source one step after the other, until its consumer is gone or a read ends its
run, and then it releases the source, once, before it reports anything (`source_disciplined`).  So a
source that must not be read again after its end, or after it was released, never is.

All of it rests on one condition: `Worker.MayRead` says that a worker may still start a read.  Where
it fails it fails for good, whatever worker and consumer do (`MayRead.of_take`), and no read is
started (`reads_after`).  What is said of single events, as a cancellation or the end of
the source, only has to tell why it fails.

## Main definitions

* `Worker.EndsRun` — a read after which a worker reads no more
* `Worker.MayRead` — a worker may still start a read
* `Phase.releases`, `Phase.reports` — what a worker has done on its way out
-/

namespace ChatRelay

/-- How often the source has been released. -/
def Phase.releases : Phase → Nat
  | .reporting _ | .raising _ | .leaving | .finished => 1
  | _ => 0

/-- How often an ending has been reported. -/
def Phase.reports : Phase → Nat
  | .raising _ | .leaving | .finished => 1
  | _ => 0

namespace Worker

variable {w w' : Worker} {policy : MalformedChunks}

/-- A worker reads no more after this read: it is the end of the source, it breaks down, or it fails
and is not passed over. -/
def EndsRun (policy : MalformedChunks) : Option SourceStep → Prop
  | none | some (.crash _) => True
  | some (.failure e) => ¬ (e.isMalformedChunk = true ∧ policy = .skip)
  | some (.value _) | some .silence => False

/-- A worker in this phase goes on reading, unless the consumer stops it. -/
def GoesOn (policy : MalformedChunks) : Phase → Prop
  | .polling | .offering _ false | .recording _ false => True
  | .awaiting read => ¬ EndsRun policy read
  | _ => False

/-- A worker may still start a read. -/
def MayRead (w : Worker) : Prop :=
  w.channel.cancelled = false ∧ GoesOn w.policy w.phase

/-! ### Going on -/

theorem goesOn_afterFailure {e : Error} (h : GoesOn policy (afterFailure policy e)) :
    ¬ EndsRun policy (some (.failure e)) := by
  intro hends
  unfold afterFailure at h
  split at h
  · next hpassed =>
    rw [Bool.and_eq_true, decide_eq_true_eq] at hpassed
    exact hends hpassed
  · exact h

/-- After the end of the source the accumulator may have one more fragment, but no read follows. -/
theorem not_goesOn_afterAccumulator (out : Result (Option Message)) :
    ¬ GoesOn policy (afterAccumulator true out) := by
  rcases out with e | _ | f <;> exact id

theorem policy_of_step (h : Step w w') : w'.policy = w.policy := by
  cases h <;> rfl

/-- Only a worker that was to go on goes on. -/
theorem goesOn_of_step (h : Step w w') (hw' : GoesOn w'.policy w'.phase) :
    GoesOn w.policy w.phase := by
  cases h with
  | startRead hphase hopen =>
      rw [hphase]
      trivial
  | endSource hphase hopen => exact absurd hw' (not_goesOn_afterAccumulator _)
  | fail hphase hopen =>
      rw [hphase]
      exact goesOn_afterFailure hw'
  | reject hphase hopen hfragment =>
      rw [hphase]
      exact id
  | ignore hphase hopen hfragment =>
      rw [hphase]
      exact id
  | push hphase hopen hfragment =>
      rw [hphase]
      exact id
  | @deliver f final hphase hopen hroom =>
      rw [hphase]
      cases final with
      | false => trivial
      | true => exact hw'
  | @record f final hphase =>
      rw [hphase]
      cases final with
      | false => trivial
      | true => exact hw'
  | @report outcome hphase =>
      have hover : ∀ ending, ¬ GoesOn w.policy (afterReport outcome ending) := by
        intro ending
        unfold afterReport
        split <;> exact id
      exact absurd hw' (hover _)
  | halt hphase hcancelled => exact hw'.elim
  | crash hphase hopen => exact hw'.elim
  | refuse hphase hgone => exact hw'.elim
  | release hphase => exact hw'.elim
  | raise hphase hopen hroom => exact hw'.elim
  | withhold hphase hgone => exact hw'.elim
  | leave hphase => exact hw'.elim

theorem cancelled_of_step (h : Step w w') : w'.channel.cancelled = w.channel.cancelled := by
  cases h <;> rfl

/-- A step starts a read just where the worker may. -/
theorem reads_of_step (h : Step w w') (hw : ¬ w.MayRead) : w'.reads = w.reads := by
  cases h with
  | startRead hphase hopen =>
      refine absurd ⟨hopen, ?_⟩ hw
      rw [hphase]
      trivial
  | _ => rfl

/-! ### Moves -/

/-- Who cancels, closes or drops a stream cancels it. -/
theorem cancelled_take_of_leaving (w : Worker) {m : Move} (hm : m ∈ [Move.cancel, .close, .drop]) :
    (w.take m).channel.cancelled = true := by
  simp only [List.mem_cons, List.not_mem_nil, or_false] at hm
  rcases hm with rfl | rfl | rfl <;> rfl

theorem cancelled_receive (w : Worker) :
    (w.take .receive).channel.cancelled = w.channel.cancelled := by
  show w.channel.receive.2.cancelled = w.channel.cancelled
  unfold Channel.receive
  split <;> rfl

theorem cancelled_work (w : Worker) :
    (w.take .work).channel.cancelled = w.channel.cancelled := by
  rcases w.work_cases with ⟨-, htake⟩ | hstep
  · rw [htake]
  · exact cancelled_of_step hstep

/-- Once a worker may not read, it never may again. -/
theorem MayRead.of_take {m : Move} (h : (w.take m).MayRead) : w.MayRead := by
  rcases w.take_cases m with ⟨-, -, htake⟩ | ⟨-, hstep⟩ | ⟨hm, channel, htake⟩
  · rwa [htake] at h
  · exact ⟨cancelled_of_step hstep ▸ h.1, goesOn_of_step hstep h.2⟩
  · have hgoesOn : GoesOn w.policy w.phase := by
      have hgoesOn := h.2
      rwa [htake] at hgoesOn
    refine ⟨?_, hgoesOn⟩
    cases m with
    | work => exact absurd rfl hm
    | receive => exact w.cancelled_receive ▸ h.1
    | cancel => exact absurd h.1 (by simp [w.cancelled_take_of_leaving])
    | close => exact absurd h.1 (by simp [w.cancelled_take_of_leaving])
    | drop => exact absurd h.1 (by simp [w.cancelled_take_of_leaving])

/-- **A worker that may not read starts no read,** however it goes on. -/
theorem reads_after (hw : ¬ w.MayRead) (ms : List Move) : (w.after ms).reads = w.reads := by
  refine (holds_after (P := fun w' => ¬ w'.MayRead ∧ w'.reads = w.reads) ⟨hw, rfl⟩ ?_).2
  rintro w' ⟨hnot, hreads⟩ m -
  refine ⟨fun hmay => hnot hmay.of_take, ?_⟩
  exact holds_take (P := fun w' => w'.reads = w.reads) hreads
    (fun _ hstep => (reads_of_step hstep hnot).trans hreads) (fun _ => hreads) m

/-- **A worker whose consumer leaves starts no read,** however it goes on. -/
theorem reads_after_of_leaving (w : Worker) {m : Move} (hm : m ∈ [Move.cancel, .close, .drop])
    (later : List Move) : (w.after (m :: later)).reads = w.reads := by
  have hnot : ¬ (w.take m).MayRead := by
    rintro ⟨hopen, -⟩
    rw [w.cancelled_take_of_leaving hm] at hopen
    cases hopen
  have hsame : (w.take m).reads = w.reads := by
    obtain ⟨channel, htake⟩ := w.take_of_ne_work (m := m) (by rintro rfl; simp at hm)
    rw [htake]
  rw [after_cons, reads_after hnot, hsame]

/-! ### Releasing and reporting -/

/-- What a worker has done so far fits its phase.  A worker that goes on has not used up the reads
of its source; the one that it takes then is the end. -/
structure Orderly (script : List SourceStep) (w : Worker) : Prop where
  closes : w.closes = w.phase.releases
  endings : w.endings.length = w.phase.reports
  reads : w.reads + w.source.length ≤ script.length + 1
  unread : GoesOn w.policy w.phase → w.reads + w.source.length ≤ script.length

variable {script : List SourceStep}

theorem orderly_start (v : Vendor) (c : StreamConfig) (source : List SourceStep) :
    (start v c source).Orderly source where
  closes := rfl
  endings := rfl
  reads := by
    show 0 + source.length ≤ source.length + 1
    omega
  unread := by
    intro _
    show 0 + source.length ≤ source.length
    omega

theorem releases_afterFailure (policy : MalformedChunks) (e : Error) :
    (afterFailure policy e).releases = 0 ∧ (afterFailure policy e).reports = 0 := by
  unfold afterFailure
  split <;> exact ⟨rfl, rfl⟩

theorem releases_afterAccumulator (final : Bool) (out : Result (Option Message)) :
    (afterAccumulator final out).releases = 0 ∧ (afterAccumulator final out).reports = 0 := by
  cases final <;> rcases out with e | _ | f <;> exact ⟨rfl, rfl⟩

theorem releases_afterReport (outcome : Outcome) (ending : Ending) :
    (afterReport outcome ending).releases = 1 ∧ (afterReport outcome ending).reports = 1 := by
  unfold afterReport
  split <;> exact ⟨rfl, rfl⟩

/-- A worker that has released its source is done with reading. -/
theorem of_releases_ne_zero {p : Phase} (h : p.releases ≠ 0) :
    p.releases = 1 ∧ (∀ read, p ≠ .awaiting read) ∧ ¬ GoesOn policy p := by
  cases p with
  | reporting outcome => exact ⟨rfl, by simp, id⟩
  | raising e => exact ⟨rfl, by simp, id⟩
  | leaving => exact ⟨rfl, by simp, id⟩
  | finished => exact ⟨rfl, by simp, id⟩
  | _ => exact absurd rfl h

/-- A worker that has reported has released its source. -/
theorem releases_ne_zero_of_reports {p : Phase} (h : p.reports ≠ 0) : p.releases ≠ 0 := by
  cases p with
  | raising e => exact Nat.one_ne_zero
  | leaving => exact Nat.one_ne_zero
  | finished => exact Nat.one_ne_zero
  | _ => exact absurd rfl h

/-- A step releases and reports as it says in the phase that it leads to. -/
theorem releases_of_step (h : Step w w') (hcloses : w.closes = w.phase.releases)
    (hendings : w.endings.length = w.phase.reports) :
    w'.closes = w'.phase.releases ∧ w'.endings.length = w'.phase.reports := by
  -- Before the release nothing was released or reported, and nothing is until then.
  have hbefore {p q : Phase} (hphase : w.phase = p) (hp : p.releases = 0 ∧ p.reports = 0)
      (hq : q.releases = 0 ∧ q.reports = 0) :
      w.closes = q.releases ∧ w.endings.length = q.reports := by
    rw [hcloses, hendings, hphase, hp.1, hp.2, hq.1, hq.2]
    exact ⟨rfl, rfl⟩
  cases h with
  | halt hphase hcancelled =>
      rcases hphase with hphase | ⟨read, hphase⟩
      · exact hbefore hphase ⟨rfl, rfl⟩ ⟨rfl, rfl⟩
      · exact hbefore hphase ⟨rfl, rfl⟩ ⟨rfl, rfl⟩
  | startRead hphase hopen => exact hbefore hphase ⟨rfl, rfl⟩ ⟨rfl, rfl⟩
  | endSource hphase hopen => exact hbefore hphase ⟨rfl, rfl⟩ (releases_afterAccumulator _ _)
  | fail hphase hopen => exact hbefore hphase ⟨rfl, rfl⟩ (releases_afterFailure _ _)
  | crash hphase hopen => exact hbefore hphase ⟨rfl, rfl⟩ ⟨rfl, rfl⟩
  | reject hphase hopen hfragment =>
      exact hbefore hphase ⟨rfl, rfl⟩ (releases_afterFailure _ _)
  | ignore hphase hopen hfragment => exact hbefore hphase ⟨rfl, rfl⟩ ⟨rfl, rfl⟩
  | push hphase hopen hfragment =>
      exact hbefore hphase ⟨rfl, rfl⟩ (releases_afterAccumulator _ _)
  | deliver hphase hopen hroom => exact hbefore hphase ⟨rfl, rfl⟩ ⟨rfl, rfl⟩
  | refuse hphase hgone => exact hbefore hphase ⟨rfl, rfl⟩ ⟨rfl, rfl⟩
  | @record f final hphase =>
      cases final with
      | false => exact hbefore hphase ⟨rfl, rfl⟩ ⟨rfl, rfl⟩
      | true => exact hbefore hphase ⟨rfl, rfl⟩ ⟨rfl, rfl⟩
  | release hphase =>
      rw [hphase] at hcloses hendings
      exact ⟨congrArg (· + 1) hcloses, hendings⟩
  | @report outcome hphase =>
      rw [hphase] at hcloses hendings
      obtain ⟨hreleases, hreports⟩ := releases_afterReport outcome (w.endingOf outcome)
      refine ⟨hcloses.trans hreleases.symm, ?_⟩
      rw [List.length_append, hendings, hreports]
      rfl
  | raise hphase hopen hroom =>
      rw [hphase] at hcloses hendings
      exact ⟨hcloses, hendings⟩
  | withhold hphase hgone =>
      rw [hphase] at hcloses hendings
      exact ⟨hcloses, hendings⟩
  | leave hphase =>
      rw [hphase] at hcloses hendings
      exact ⟨hcloses, hendings⟩

/-- A read that is started takes one step from the source, or is the last. -/
theorem Orderly.step (h : w.Orderly script) (hstep : Step w w') : w'.Orderly script := by
  obtain ⟨hcloses, hendings⟩ := releases_of_step hstep h.closes h.endings
  suffices hreads : w'.reads + w'.source.length ≤ script.length + 1 ∧
      (GoesOn w'.policy w'.phase → w'.reads + w'.source.length ≤ script.length) from
    ⟨hcloses, hendings, hreads.1, hreads.2⟩
  have hunread (hw' : GoesOn w'.policy w'.phase) := h.unread (goesOn_of_step hstep hw')
  cases hstep with
  | startRead hphase hopen =>
      have hleft : w.reads + w.source.length ≤ script.length := by
        refine h.unread ?_
        rw [hphase]
        trivial
      simp only
      cases hsource : w.source with
      | nil =>
          rw [hsource] at hleft
          refine ⟨?_, fun hgoesOn => absurd trivial hgoesOn⟩
          simpa using hleft
      | cons read rest =>
          rw [hsource, List.length_cons] at hleft
          rw [List.tail_cons]
          omega
  | _ => exact ⟨h.reads, hunread⟩

theorem Orderly.after (h : w.Orderly script) (ms : List Move) : (w.after ms).Orderly script := by
  refine holds_after_of_step (P := Orderly script) h ?_ ?_ ms
  · intro w w' h hstep
    exact h.step hstep
  · intro w channel h
    exact ⟨h.closes, h.endings, h.reads, h.unread⟩

/-- A source that was released was released once, when no read was under way. -/
theorem Orderly.of_closes_ne_zero (h : w.Orderly script) (hclosed : w.closes ≠ 0) :
    w.closes = 1 ∧ (∀ read, w.phase ≠ .awaiting read) ∧ ¬ GoesOn w.policy w.phase := by
  rw [h.closes] at hclosed ⊢
  exact of_releases_ne_zero hclosed

/-- Nothing is reported before the source is released. -/
theorem Orderly.closes_of_endings (h : w.Orderly script) (hreported : w.endings ≠ []) :
    w.closes = 1 := by
  have hreports : w.phase.reports ≠ 0 := by
    rw [← h.endings]
    exact fun hnil => hreported (List.eq_nil_of_length_eq_zero hnil)
  refine (h.of_closes_ne_zero ?_).1
  rw [h.closes]
  exact releases_ne_zero_of_reports hreports

theorem policy_after (w : Worker) (ms : List Move) : (w.after ms).policy = w.policy := by
  refine holds_after_of_step (P := fun w' => w'.policy = w.policy) rfl ?_ ?_ ms
  · intro w' w'' hpolicy hstep
    exact (policy_of_step hstep).trans hpolicy
  · intro w' channel hpolicy
    exact hpolicy

/-- **A source is read with discipline.**  No read is started once the consumer has cancelled, closed
or dropped the stream, none after a read that ends the run or after anything else that makes the
worker stop, and none after the source was released.  So there is at most one read more than the
source has steps.  The source is released once, when no read is under way, and before anything is
reported. -/
theorem source_disciplined (v : Vendor) (c : StreamConfig) (source : List SourceStep)
    (ms : List Move) :
    let w := (start v c source).after ms
    (∀ m ∈ [Move.cancel, .close, .drop], ∀ later, (w.after (m :: later)).reads = w.reads) ∧
    (∀ read, w.phase = .awaiting read → EndsRun c.malformedChunks read →
      ∀ later, (w.after later).reads = w.reads) ∧
    (∀ outcome, w.phase = .releasing outcome → ∀ later, (w.after later).reads = w.reads) ∧
    (w.closes ≠ 0 → w.closes = 1 ∧ (∀ read, w.phase ≠ .awaiting read) ∧
      ∀ later, (w.after later).reads = w.reads) ∧
    w.reads ≤ source.length + 1 ∧
    (w.endings ≠ [] → w.closes = 1) ∧
    (w.phase = .finished → w.closes = 1 ∧ w.endings.length = 1) := by
  intro w
  have horderly : w.Orderly source := (orderly_start v c source).after ms
  have hpolicy : w.policy = c.malformedChunks := (start v c source).policy_after ms
  -- Each of the events makes the worker not go on, or cancels the stream.
  have hstopped (hnot : ¬ GoesOn w.policy w.phase) (later : List Move) :
      (w.after later).reads = w.reads :=
    reads_after (fun h => hnot h.2) later
  refine ⟨?_, ?_, ?_, ?_, ?_, ?_, ?_⟩
  · intro m hm later
    exact w.reads_after_of_leaving hm later
  · intro read hphase hends later
    refine hstopped ?_ later
    rw [hphase, hpolicy]
    exact fun hgoesOn => hgoesOn hends
  · intro outcome hphase later
    refine hstopped ?_ later
    rw [hphase]
    exact id
  · intro hclosed
    obtain ⟨hone, hidle, hnot⟩ := horderly.of_closes_ne_zero hclosed
    exact ⟨hone, hidle, hstopped hnot⟩
  · exact Nat.le_of_add_right_le horderly.reads
  · exact horderly.closes_of_endings
  · intro hphase
    rw [horderly.closes, horderly.endings, hphase]
    exact ⟨rfl, rfl⟩

end Worker

end ChatRelay
