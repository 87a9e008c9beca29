import ChatRelay.Proofs.Stream.Collection

/-!
# Skipping malformed items

An item is malformed if the source or the vendor says so: it could not be decoded or understood,
which is told by the root of the error.  A worker that skips such items does what one that fails at
them does with a source from which they were erased (`skips_like_erased`), whatever the schedules
of the two runs and the room of their channels are.

The two sources have the same course (`Vendor.course_skip`), since an item that is skipped leaves
the accumulator as it is.  So all that is left is to see that a run under a fair schedule comes to
its course: it returns what the course says (`Collection.returns_iff`), and worker and consumer
settle at what follows from it (`Collection.exists_settled`).

## Main definitions

* `Error.IsMalformed`, `Vendor.IsMalformed` — an error, and a read, that is about one chunk only
* `Vendor.erased` — a source without its malformed items
* `Course.endings`, `Course.result` — what is reported of a course, and what its consumer ends with
* `Collection.Returns` — the reading of a stream ends under a schedule
* `Collection.StopsAtErrors` — every error that is not of a malformed item ends the reading
-/

namespace ChatRelay

/-- An error about one chunk that could not be decoded or understood, behind any names of
components. -/
inductive Error.IsMalformed : Error → Prop
  | malformedJson : IsMalformed .malformedJson
  | decoding (message : String) : IsMalformed (.decoding message)
  | missingField (name : String) (hint : Option String) : IsMalformed (.missingField name hint)
  | component (name operation : String) {source : Error} (h : IsMalformed source) :
      IsMalformed (.component name operation source)

theorem Error.isMalformedChunk_iff {e : Error} : e.isMalformedChunk = true ↔ e.IsMalformed := by
  constructor
  · intro h
    induction e with
    | malformedJson => exact .malformedJson
    | decoding message => exact .decoding message
    | missingField name hint => exact .missingField name hint
    | component name operation source ih => exact .component name operation (ih h)
    | _ => cases h
  · intro h
    induction h with
    | component name operation h ih => exact ih
    | _ => rfl

instance : DecidablePred Error.IsMalformed := fun _ =>
  decidable_of_iff _ Error.isMalformedChunk_iff

namespace Vendor

/-- The error of a read: one of the source, or one of the vendor that gets the value. -/
def failure? (v : Vendor) : SourceStep → Option Error
  | .failure e => some e
  | .value chunk =>
    match v.fragment chunk with
    | .error e => some e
    | .ok _ => none
  | .crash _ | .silence => none

/-- A read of a malformed item. -/
def IsMalformed (v : Vendor) (read : SourceStep) : Prop :=
  ∃ e ∈ v.failure? read, e.IsMalformed

instance (v : Vendor) : DecidablePred v.IsMalformed := fun read =>
  inferInstanceAs (Decidable (∃ e ∈ v.failure? read, e.IsMalformed))

/-- A source without its malformed items. -/
def erased (v : Vendor) (source : List SourceStep) : List SourceStep :=
  source.filter fun read => ¬ v.IsMalformed read

variable {v : Vendor} {policy : MalformedChunks} {read : SourceStep} {e : Error}

/-- A read fails where the source has an error or the vendor makes nothing of its value. -/
theorem failure?_eq_some_iff : v.failure? read = some e ↔
    read = .failure e ∨ ∃ chunk, read = .value chunk ∧ v.fragment chunk = .error e := by
  cases read with
  | failure e' => simp [failure?]
  | crash reason => simp [failure?]
  | silence => simp [failure?]
  | value chunk =>
      unfold failure?
      cases hfragment : v.fragment chunk <;> simp [hfragment]

theorem course_of_failure (h : v.failure? read = some e) (a : Accumulator)
    (rest : List SourceStep) :
    v.course policy a (read :: rest) = .unlessPassed policy e (v.course policy a rest) := by
  rcases failure?_eq_some_iff.mp h with rfl | ⟨chunk, rfl, hfragment⟩
  · rfl
  · simp only [course, hfragment]

/-- Whatever is not malformed ends the reading if it is an error. -/
theorem unlessPassed_of_not_isMalformed (h : ¬ e.IsMalformed) (rest : Course) :
    Course.unlessPassed policy e rest = ⟨[], some (.failed e)⟩ := by
  have hroot : e.isMalformedChunk = false := by
    rwa [← Error.isMalformedChunk_iff, Bool.not_eq_true] at h
  simp [Course.unlessPassed, hroot]

theorem unlessPassed_skip (h : e.IsMalformed) (rest : Course) :
    Course.unlessPassed .skip e rest = rest := by
  simp [Course.unlessPassed, Error.isMalformedChunk_iff.mpr h]

/-- What is not malformed is read under both policies alike. -/
theorem course_cons_congr {policy' : MalformedChunks} {rest rest' : List SourceStep}
    (hread : ¬ v.IsMalformed read)
    (hrest : ∀ a, v.course policy a rest = v.course policy' a rest') (a : Accumulator) :
    v.course policy a (read :: rest) = v.course policy' a (read :: rest') := by
  cases hfailure : v.failure? read with
  | some e =>
      have he : ¬ e.IsMalformed := fun he => hread ⟨e, hfailure, he⟩
      rw [course_of_failure hfailure, course_of_failure hfailure,
        unlessPassed_of_not_isMalformed he, unlessPassed_of_not_isMalformed he]
  | none =>
      cases read with
      | failure e => cases hfailure
      | crash reason => rfl
      | silence => rfl
      | value chunk =>
          unfold course
          cases hfragment : v.fragment chunk with
          | error e => simp [failure?, hfragment] at hfailure
          | ok fragment =>
              cases fragment with
              | none => exact hrest a
              | some f =>
                  rcases hpush : a.push f with ⟨out, a'⟩
                  cases out with
                  | error e => simp only [hpush]
                  | ok out => simp only [hpush, hrest a']

/-- **Skipping is erasing:** what a source comes to if malformed items are skipped is what it comes
to without them. -/
theorem course_skip (a : Accumulator) (source : List SourceStep) :
    v.course .skip a source = v.course .fail a (v.erased source) := by
  induction source generalizing a with
  | nil => rfl
  | cons read rest ih =>
      by_cases hread : v.IsMalformed read
      · have herased : v.erased (read :: rest) = v.erased rest :=
          List.filter_cons_of_neg (by simpa using hread)
        obtain ⟨e, hfailure, he⟩ := hread
        rw [herased, course_of_failure hfailure, unlessPassed_skip he]
        exact ih a
      · have hkept : v.erased (read :: rest) = read :: v.erased rest :=
          List.filter_cons_of_pos (by simpa using hread)
        rw [hkept]
        exact course_cons_congr hread ih a

end Vendor

namespace Course

/-- What is reported of a course. -/
def endings (v : Vendor) (plan : Course) : List Ending :=
  plan.outcome.toList.map (v.endingOf plan.outputs)

/-- What a consumer ends with who collects a course: the error that was reported, or what was
forwarded, merged. -/
def result (v : Vendor) (plan : Course) : Option (Result Message) :=
  plan.outcome.map fun outcome =>
    match v.endingOf plan.outputs outcome with
    | .error e => .error e
    | .ok _ => Message.ofItems (plan.outputs.map .ok)

end Course

namespace Worker

variable {w w' : Worker} {read : SourceStep} {e : Error}

/-- Where a read has failed, only the phase changes. -/
theorem take_work_of_failure (hphase : w.phase = .awaiting (some read))
    (hopen : w.channel.cancelled = false) (h : w.vendor.failure? read = some e) :
    w.take .work = w.enter (afterFailure w.policy e) := by
  rcases Vendor.failure?_eq_some_iff.mp h with rfl | ⟨chunk, rfl, hfragment⟩
  · rw [take, step_eq_some_iff.mpr (.fail hphase hopen), Option.getD_some]
  · rw [take, step_eq_some_iff.mpr (.reject hphase hopen hfragment), Option.getD_some]

/-- The source is released in one step. -/
theorem exists_releasing_of_step (h : Step w w') (hreleased : w'.phase.releases ≠ 0) :
    w.phase.releases ≠ 0 ∨ ∃ outcome, w.phase = .releasing outcome := by
  cases h with
  | @release outcome hphase => exact Or.inr ⟨outcome, hphase⟩
  | report hphase | raise hphase | withhold hphase | leave hphase =>
      rw [hphase]
      exact Or.inl one_ne_zero
  | endSource => exact absurd (releases_afterAccumulator _ _).1 hreleased
  | push => exact absurd (releases_afterAccumulator _ _).1 hreleased
  | fail => exact absurd (releases_afterFailure _ _).1 hreleased
  | reject => exact absurd (releases_afterFailure _ _).1 hreleased
  | @record f final =>
      cases final with
      | true => exact absurd rfl hreleased
      | false => exact absurd rfl hreleased
  | _ => exact absurd rfl hreleased

end Worker

namespace Collection

variable {k : Collection} {v : Vendor} {c : StreamConfig} {source : List SourceStep}
  {σ : ℕ → Turn}

/-- Under a schedule the reading ends: what was forwarded by then, and how it ended. -/
def Returns (k : Collection) (σ : ℕ → Turn) (forwarded : List Message) (outcome : Outcome) :
    Prop :=
  ∃ n, (k.upTo σ n).worker.phase = .releasing outcome ∧
    (k.upTo σ n).worker.forwarded = forwarded

/-! ### A run comes to its course -/

theorem phase_read (k : Collection) : k.read.worker.phase = k.worker.phase := by
  cases hresult : k.result with
  | some r => rw [read_of_result hresult]
  | none =>
      rcases read_cases hresult with ⟨f, -, h⟩ | ⟨e, -, h⟩ | ⟨-, h⟩ | ⟨-, h⟩ <;> rw [h] <;> rfl

/-- Who has released the source was about to release it. -/
theorem exists_releasing (hk : k.worker.phase.releases = 0) {n : ℕ}
    (h : (k.upTo σ n).worker.phase.releases ≠ 0) :
    ∃ i outcome, (k.upTo σ i).worker.phase = .releasing outcome := by
  induction n with
  | zero => exact absurd hk h
  | succ n ih =>
      rw [upTo_succ] at h
      have hbefore : (k.upTo σ n).worker.phase.releases ≠ 0 ∨
          ∃ outcome, (k.upTo σ n).worker.phase = .releasing outcome := by
        cases hturn : σ n with
        | cancel =>
            rw [hturn] at h
            exact Or.inl h
        | read =>
            rw [hturn] at h
            exact Or.inl ((k.upTo σ n).phase_read ▸ h)
        | work =>
            rw [hturn] at h
            change ((k.upTo σ n).worker.take .work).phase.releases ≠ 0 at h
            rcases (k.upTo σ n).worker.work_cases with ⟨-, htake⟩ | hstep
            · rw [htake] at h
              exact Or.inl h
            · exact Worker.exists_releasing_of_step hstep h
      rcases hbefore with hbefore | ⟨outcome, hphase⟩
      · exact ih hbefore
      · exact ⟨n, outcome, hphase⟩

/-- The turns of a schedule in which nobody cancels. -/
theorem cancel_not_mem (hkept : ∀ n, σ n ≠ .cancel) (n : ℕ) :
    .cancel ∉ (List.range n).map σ := by
  intro hmem
  obtain ⟨i, -, hi⟩ := List.mem_map.mp hmem
  exact hkept i hi

/-- Every state of a run has its ledger. -/
theorem exists_ledger (v : Vendor) (c : StreamConfig) (source : List SourceStep) (σ : ℕ → Turn)
    (n : ℕ) : ∃ reads accepted received, ((start v c source).upTo σ n).worker.Ledger
      (Worker.start v c source) reads accepted received := by
  obtain ⟨ms, hms⟩ := (start v c source).exists_after_eq ((List.range n).map σ)
  change ((start v c source).upTo σ n).worker = (Worker.start v c source).after ms at hms
  rw [hms]
  exact ⟨_, _, _, Worker.ledger_after v c source ms⟩

/-- Before the worker has reported, the consumer has no result. -/
theorem result_eq_none_of_reports (v : Vendor) (c : StreamConfig) (source : List SourceStep) {n : ℕ}
    (h : ((start v c source).upTo σ n).worker.phase.reports = 0) :
    ((start v c source).upTo σ n).result = none := by
  cases hresult : ((start v c source).upTo σ n).result with
  | none => rfl
  | some r =>
      have hreported : ∃ outcome, ((start v c source).upTo σ n).worker.endings =
          [((start v c source).upTo σ n).worker.endingOf outcome] := by
        obtain ⟨-, ⟨outcome, -, hendings, -⟩ | ⟨-, outcome, -, hendings, -⟩⟩ :=
          concluded v c source hresult
        · exact ⟨outcome, hendings⟩
        · exact ⟨outcome, hendings⟩
      obtain ⟨outcome, hendings⟩ := hreported
      obtain ⟨ms, hms⟩ := (start v c source).exists_after_eq ((List.range n).map σ)
      have hcount := ((Worker.orderly_start v c source).after ms).endings
      change ((start v c source).upTo σ n).worker = (Worker.start v c source).after ms at hms
      rw [← hms, hendings, h] at hcount
      cases hcount

/-- Before the worker has reported, the stream is abandoned only if somebody cancels. -/
theorem isAbandoned_of_reports (v : Vendor) (c : StreamConfig) (source : List SourceStep)
    (hkept : ∀ n, σ n ≠ .cancel) {n : ℕ}
    (h : ((start v c source).upTo σ n).worker.phase.reports = 0) :
    ((start v c source).upTo σ n).worker.channel.isAbandoned = false := by
  by_contra hgone
  rw [Bool.not_eq_false] at hgone
  exact cancel_not_mem hkept n
    (cancel_mem_of_isAbandoned v c source (result_eq_none_of_reports v c source h) hgone)

/-- What the reading returns is its course. -/
theorem whole_of_releasing (hkept : ∀ n, σ n ≠ .cancel) {n : ℕ} {outcome : Outcome}
    (hphase : ((start v c source).upTo σ n).worker.phase = .releasing outcome) :
    (Worker.start v c source).whole =
      ⟨((start v c source).upTo σ n).worker.forwarded, some outcome⟩ := by
  have hstays := isAbandoned_of_reports v c source hkept (n := n) (by rw [hphase]; rfl)
  obtain ⟨reads, accepted, received, hledger⟩ := exists_ledger v c source σ n
  have hbalances := hledger.balances
  simp only [Worker.Balances, hphase] at hbalances
  obtain ⟨⟨hplan, -⟩ | ⟨-, hgone, -⟩, -⟩ := hbalances
  · exact hplan
  · rw [hstays] at hgone
    cases hgone

/-- **A run returns what its course says,** under every fair schedule in which nobody cancels. -/
theorem returns_iff (hfair : IsFair σ) (hkept : ∀ n, σ n ≠ .cancel) {forwarded : List Message}
    {outcome : Outcome} : (start v c source).Returns σ forwarded outcome ↔
      (Worker.start v c source).whole = ⟨forwarded, some outcome⟩ := by
  constructor
  · rintro ⟨n, hphase, rfl⟩
    exact whole_of_releasing hkept hphase
  · intro hplan
    obtain ⟨n, hcomplete⟩ := exists_complete v c source hfair (Or.inl (by simp [hplan]))
    have hfinished := (hcomplete n le_rfl).2
    obtain ⟨i, outcome', hphase⟩ := exists_releasing (k := start v c source) (σ := σ) (n := n) rfl
      (by rw [hfinished]; exact one_ne_zero)
    have hreturned := whole_of_releasing hkept hphase
    rw [hplan] at hreturned
    cases hreturned
    exact ⟨i, hphase, rfl⟩

/-- Who has a result agrees with the course. -/
theorem Agrees.eq_result {plan : Course} {w : Worker} {r : Result Message} (h : Agrees plan w r) :
    w.forwarded = plan.outputs ∧ w.endings = plan.endings w.vendor ∧
      plan.result w.vendor = some r := by
  obtain ⟨outcome, rfl, hendings, hresult⟩ := h
  rw [Worker.endingOf_eq] at hendings hresult
  refine ⟨rfl, hendings, ?_⟩
  simp only [Course.result, Option.map_some]
  rcases hresult with ⟨e, he, rfl⟩ | ⟨⟨m, hm⟩, rfl⟩
  · rw [he]
  · rw [hm]

/-- **A run settles at its course,** under every fair schedule in which nobody cancels: the consumer
has received what was forwarded, and unless a read never returns, it has its result. -/
theorem exists_settled (v : Vendor) (c : StreamConfig) (source : List SourceStep)
    (hfair : IsFair σ) (hkept : ∀ n, σ n ≠ .cancel) : ∃ n, ∀ m ≥ n,
      ((start v c source).upTo σ m).worker.forwarded = (Worker.start v c source).whole.outputs ∧
      ((start v c source).upTo σ m).fragments = (Worker.start v c source).whole.outputs ∧
      ((start v c source).upTo σ m).worker.endings = (Worker.start v c source).whole.endings v ∧
      ((start v c source).upTo σ m).result = (Worker.start v c source).whole.result v := by
  obtain ⟨n, hrest, hwork, hread⟩ := (start v c source).exists_rest hfair
  refine ⟨n, fun m hm => ?_⟩
  rw [hrest m hm]
  have hvendor : ((start v c source).upTo σ n).worker.vendor = v := vendor_after v c source _
  cases hresult : ((start v c source).upTo σ n).result with
  | some r =>
      obtain ⟨hfragments, hagrees | ⟨hcancel, -⟩⟩ := concluded v c source hresult
      · obtain ⟨hforwarded, hendings, hends⟩ := hagrees.eq_result
        change ((start v c source).upTo σ n).worker.forwarded = _ at hforwarded
        change ((start v c source).upTo σ n).fragments = _ at hfragments
        rw [vendor_after] at hends hendings
        exact ⟨hforwarded, hfragments.trans hforwarded, hendings, hends.symm⟩
      · exact absurd hcancel (cancel_not_mem hkept n)
  | none =>
      -- Nobody is done, so the worker awaits a read that never returns.
      obtain ⟨hworker, hfragments⟩ := after_of_running hresult
      have hledger := Worker.ledger_after v c source (((List.range n).map σ).map Turn.move)
      change ((start v c source).upTo σ n).worker = (Worker.start v c source).after _ at hworker
      change ((start v c source).upTo σ n).fragments.map .ok =
        [] ++ (Worker.start v c source).received _ at hfragments
      rw [← hworker] at hledger
      have hsilent : ((start v c source).upTo σ n).worker.phase = .awaiting (some .silence) := by
        rcases isComplete_of_stuck hledger.room hledger.writer
          (fun r hresult => cancelled_of_result rfl hresult) hwork hread with hcomplete | hsilent
        · exact absurd hresult hcomplete.1
        · exact hsilent.1
      have hreader := Worker.readerOpen_after (move_ne_of_mem ((List.range n).map σ))
        (start v c source).worker
      change ((Worker.start v c source).after _).channel.readerOpen = true at hreader
      rw [← hworker] at hreader
      have haccepted := hledger.received_eq hreader
      rw [(waits_of_read hresult hread).1, List.append_nil] at haccepted
      rw [List.nil_append, haccepted] at hfragments
      obtain ⟨hplan, -, hforwarded, hendings⟩ :=
        (Worker.balances_of_isReading (Or.inr ⟨_, hsilent⟩)).mp hledger.balances
      have houtputs : ((start v c source).upTo σ n).worker.whole =
          ⟨((start v c source).upTo σ n).worker.forwarded, none⟩ := by
        simp [Worker.whole, Worker.outlook, hsilent, Vendor.course, Course.after]
      rw [hplan, houtputs]
      exact ⟨rfl, map_ok_injective (hfragments.trans hforwarded), hendings, rfl⟩

/-! ### Skipping and erasing -/

/-- Every error that is not of a malformed item ends the reading: one of the source, one of the
vendor, and one of the accumulator, be it for a fragment or at the end of the source. -/
structure StopsAtErrors (k : Collection) (σ : ℕ → Turn) : Prop where
  failure : ∀ n read e, (k.upTo σ n).worker.phase = .awaiting (some read) →
    k.worker.vendor.failure? read = some e → ¬ e.IsMalformed →
    k.Returns σ (k.upTo σ n).worker.forwarded (.failed e)
  push : ∀ n chunk f e, (k.upTo σ n).worker.phase = .awaiting (some (.value chunk)) →
    k.worker.vendor.fragment chunk = .ok (some f) →
    ((k.upTo σ n).worker.accumulator.push f).1 = .error e →
    k.Returns σ (k.upTo σ n).worker.forwarded (.failed e)
  finish : ∀ n e, (k.upTo σ n).worker.phase = .awaiting none →
    (k.upTo σ n).worker.accumulator.finish.1 = .error e →
    k.Returns σ (k.upTo σ n).worker.forwarded (.failed e)

/-- While a read is awaited, the course is what was forwarded, and then what the read comes to. -/
theorem whole_of_awaiting {n : ℕ} {read : Option SourceStep}
    (hphase : ((start v c source).upTo σ n).worker.phase = .awaiting read) :
    (Worker.start v c source).whole = ((start v c source).upTo σ n).worker.whole := by
  obtain ⟨reads, accepted, received, hledger⟩ := exists_ledger v c source σ n
  exact ((Worker.balances_of_isReading (Or.inr ⟨read, hphase⟩)).mp hledger.balances).1

/-- **What is not malformed ends the run,** under both policies. -/
theorem stopsAtErrors (v : Vendor) (c : StreamConfig) (source : List SourceStep)
    (hfair : IsFair σ) (hkept : ∀ n, σ n ≠ .cancel) : (start v c source).StopsAtErrors σ := by
  have hreturns {n : ℕ} {read : Option SourceStep} {e : Error}
      (hphase : ((start v c source).upTo σ n).worker.phase = .awaiting read)
      (houtlook : ((start v c source).upTo σ n).worker.outlook = ⟨[], some (.failed e)⟩) :
      (start v c source).Returns σ ((start v c source).upTo σ n).worker.forwarded
        (.failed e) := by
    rw [returns_iff hfair hkept, whole_of_awaiting hphase, Worker.whole, houtlook]
    simp [Course.after]
  have hvendor (n : ℕ) : ((start v c source).upTo σ n).worker.vendor = v :=
    vendor_after v c source _
  constructor
  · intro n read e hphase hfailure he
    refine hreturns hphase ?_
    rw [Worker.outlook, hphase]
    change v.failure? read = some e at hfailure
    simp only [hvendor]
    rw [Vendor.course_of_failure hfailure, Vendor.unlessPassed_of_not_isMalformed he]
  · intro n chunk f e hphase hfragment hpush
    refine hreturns hphase ?_
    rw [Worker.outlook, hphase]
    change v.fragment chunk = .ok (some f) at hfragment
    simp only [hvendor]
    unfold Vendor.course
    rw [hfragment]
    rcases hpushed : ((start v c source).upTo σ n).worker.accumulator.push f with ⟨out, a⟩
    rw [hpushed] at hpush
    cases hpush
    simp only [hpushed]
  · intro n e hphase hfinish
    refine hreturns hphase ?_
    rw [Worker.outlook, hphase]
    simp only [Vendor.course, hfinish]

/-- **Skipping malformed items is erasing them.**  Under the two policies, and whatever the
schedules and the room of the channels are, the reading of a source returns the same as that of the
source without its malformed items, and worker and consumer end up with the same: what was
forwarded and received, what was reported, and the result.  Any other error ends both runs, and a
malformed item that is skipped changes nothing but the phase of the worker, which reads on. -/
theorem skips_like_erased (v : Vendor) (source : List SourceStep) {c d : StreamConfig}
    (hskip : c.malformedChunks = .skip) (hfail : d.malformedChunks = .fail) {σ τ : ℕ → Turn}
    (hσ : IsFair σ) (hτ : IsFair τ) (hσkept : ∀ n, σ n ≠ .cancel) (hτkept : ∀ n, τ n ≠ .cancel) :
    (∀ forwarded outcome, (start v c source).Returns σ forwarded outcome ↔
      (start v d (v.erased source)).Returns τ forwarded outcome) ∧
    (∃ n, ∀ i ≥ n, ∀ j ≥ n,
      let k := (start v c source).upTo σ i
      let l := (start v d (v.erased source)).upTo τ j
      k.worker.forwarded = l.worker.forwarded ∧ k.fragments = l.fragments ∧
        k.worker.endings = l.worker.endings ∧ k.result = l.result) ∧
    (start v c source).StopsAtErrors σ ∧ (start v d source).StopsAtErrors τ ∧
    ∀ n read, ((start v c source).upTo σ n).worker.phase = .awaiting (some read) →
      v.IsMalformed read →
      ((start v c source).upTo σ n).worker.take .work =
        ((start v c source).upTo σ n).worker.enter .polling := by
  have hsame : (Worker.start v c source).whole = (Worker.start v d (v.erased source)).whole := by
    rw [Worker.whole_start, Worker.whole_start, hskip, hfail]
    exact Vendor.course_skip _ _
  refine ⟨?_, ?_, stopsAtErrors v c source hσ hσkept, stopsAtErrors v d source hτ hτkept, ?_⟩
  · intro forwarded outcome
    rw [returns_iff hσ hσkept, returns_iff hτ hτkept, hsame]
  · obtain ⟨n, hn⟩ := exists_settled v c source hσ hσkept
    obtain ⟨m, hm⟩ := exists_settled v d (v.erased source) hτ hτkept
    refine ⟨max n m, ?_⟩
    intro i hi j hj
    obtain ⟨hforwarded, hfragments, hendings, hresult⟩ := hn i ((le_max_left n m).trans hi)
    obtain ⟨hforwarded', hfragments', hendings', hresult'⟩ := hm j ((le_max_right n m).trans hj)
    rw [← hsame] at hforwarded' hfragments' hendings' hresult'
    exact ⟨hforwarded.trans hforwarded'.symm, hfragments.trans hfragments'.symm,
      hendings.trans hendings'.symm, hresult.trans hresult'.symm⟩
  · intro n read hphase hmalformed
    obtain ⟨e, hfailure, he⟩ := hmalformed
    have hstays := isAbandoned_of_reports v c source hσkept (n := n) (by rw [hphase]; rfl)
    have hopen := (Bool.or_eq_false_iff.mp hstays).1
    rw [← vendor_after v c source ((List.range n).map σ)] at hfailure
    have hpolicy : ((start v c source).upTo σ n).worker.policy = .skip := by
      obtain ⟨ms, hms⟩ := (start v c source).exists_after_eq ((List.range n).map σ)
      change ((start v c source).upTo σ n).worker = (Worker.start v c source).after ms at hms
      rw [hms, Worker.policy_after, ← hskip]
      rfl
    rw [Worker.take_work_of_failure hphase hopen hfailure, hpolicy]
    simp [Worker.afterFailure, Error.isMalformedChunk_iff.mpr he]

/-! ### Two schedules -/

/-- The worker has a turn, and then the consumer has some, one more than the pause. -/
def unhurried (pause n : ℕ) : Turn :=
  if n % (pause + 2) = 0 then .work else .read

theorem isFair_unhurried (pause : ℕ) : IsFair (unhurried pause) := by
  intro n
  have hle : n ≤ (pause + 2) * n := Nat.le_mul_of_pos_left n (by omega)
  refine ⟨⟨(pause + 2) * n, hle, ?_⟩, (pause + 2) * n + 1, by omega, ?_⟩
  · simp [unhurried]
  · simp [unhurried]

theorem unhurried_ne_cancel (pause n : ℕ) : unhurried pause n ≠ .cancel := by
  unfold unhurried
  split <;> simp

/-- An event with a text. -/
def saidHi : SourceStep :=
  .value (.ofMembers [("type", .text "content_block_delta"),
    ("delta", .ofMembers [("type", .text "text_delta"), ("text", .text "Hi")])])

/-- A line that cannot be decoded, an event, and an object that is none. -/
def broken : List SourceStep :=
  [.failure (.component "ClaudeDriver" "stream" (.decoding "not JSON")), saidHi,
    .value (.ofMembers [])]

/-- The text between two malformed items is forwarded, and the reading completes. -/
theorem skips_like_erased_broken :
    (Vendor.claude { http := default }).erased broken = [saidHi] ∧
      (start (.claude { http := default }) { malformedChunks := .skip } broken).Returns
        (unhurried 1) [.assistant "Hi"] .completed := by
  have herased : (Vendor.claude { http := default }).erased broken = [saidHi] := rfl
  refine ⟨herased, ?_⟩
  have hsame := (skips_like_erased (.claude { http := default }) broken
    (c := { malformedChunks := .skip }) (d := { malformedChunks := .fail, channelCapacity := 1 })
    rfl rfl (isFair_unhurried 1) (isFair_unhurried 0) (unhurried_ne_cancel 1)
    (unhurried_ne_cancel 0)).1
  rw [hsame, herased]
  exact ⟨11, rfl, rfl⟩

end Collection

end ChatRelay
