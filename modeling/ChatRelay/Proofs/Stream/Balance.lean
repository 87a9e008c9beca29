import ChatRelay.Proofs.Stream.Assembled
import ChatRelay.Proofs.Stream.Course
import ChatRelay.Proofs.Stream.Discipline

/-!
# The balance of a stream

What the accumulator passes on is told by the reads that have ended (`Vendor.emitted`).  A fragment
that it passes on is offered to the channel, counts as accepted when the channel takes it, and as
forwarded one step later.  `Worker.Balances` says for each phase of a worker which of these a
fragment has come to, and what was reported, and `balances_of_step` that every step keeps to it.

The consumer may be gone at any time.  Then what was passed on last may be lost, and a failure is
reported that the consumer is not told of; everything before it still balances.

## Main definitions

* `Vendor.absorb`, `Vendor.emitted` — what the accumulator of a stream does with reads
* `Worker.readEnded?`, `Worker.accepted?` — what a move shows of a stream
* `Worker.Balances` — what was passed on, accepted and forwarded, by phase
* `Worker.Faithful` — what follows of it in every phase
-/

namespace ChatRelay

namespace Vendor

/-- What an accumulator says to a read that has ended, and what it remembers.  Only the end of the
source and fragments reach it. -/
def absorb (v : Vendor) (a : Accumulator) :
    Option SourceStep → Result (Option Message) × Accumulator
  | none => a.finish
  | some (.value chunk) =>
    match v.fragment chunk with
    | .ok (some f) => a.push f
    | _ => (.ok none, a)
  | some _ => (.ok none, a)

/-- What an accumulator remembers after some reads. -/
def absorbAll (v : Vendor) (a : Accumulator) (reads : List (Option SourceStep)) : Accumulator :=
  reads.foldl (fun a read => (v.absorb a read).2) a

/-- What is passed on, if anything. -/
def output : Result (Option Message) → List Message
  | .ok out => out.toList
  | .error _ => []

/-- What an accumulator passes on over some reads. -/
def emitted (v : Vendor) (a : Accumulator) : List (Option SourceStep) → List Message
  | [] => []
  | read :: reads => output (v.absorb a read).1 ++ v.emitted (v.absorb a read).2 reads

variable (v : Vendor) (a : Accumulator)

theorem absorbAll_append (reads later : List (Option SourceStep)) :
    v.absorbAll a (reads ++ later) = v.absorbAll (v.absorbAll a reads) later :=
  List.foldl_append

theorem emitted_append (reads later : List (Option SourceStep)) :
    v.emitted a (reads ++ later) =
      v.emitted a reads ++ v.emitted (v.absorbAll a reads) later := by
  induction reads generalizing a with
  | nil => rfl
  | cons read reads ih =>
      rw [List.cons_append, emitted, emitted, ih, List.append_assoc]
      rfl

theorem emitted_singleton (read : Option SourceStep) :
    v.emitted a [read] = output (v.absorb a read).1 :=
  List.append_nil _

end Vendor

/-- The item that a consumer is told of an ending, if any. -/
def raised : Ending → List (Result Message)
  | .ok _ => []
  | .error e => [.error e]

namespace Worker

variable {w w' : Worker}

/-! ### What a move shows -/

/-- The read that ends in a move. -/
def readEnded? (w : Worker) : Move → Option (Option SourceStep)
  | .work =>
    match w.phase with
    | .awaiting read =>
      if w.channel.cancelled = true ∨ read = some .silence then none else some read
    | _ => none
  | _ => none

/-- The item that a worker has for its consumer. -/
def offered? (w : Worker) : Option (Result Message) :=
  match w.phase with
  | .offering f _ => some (.ok f)
  | .raising e => some (.error e)
  | _ => none

/-- The item that the channel accepts in a move. -/
def accepted? (w : Worker) : Move → Option (Result Message)
  | .work => w.offered?.filter fun item => (w.channel.offer item).1 = .accepted
  | _ => none

/-- A read ends where the worker awaits one that returns, and the consumer has not cancelled. -/
theorem readEnded?_eq_some_iff {read : Option SourceStep} : w.readEnded? .work = some read ↔
    w.phase = .awaiting read ∧ w.channel.cancelled = false ∧ read ≠ some .silence := by
  unfold readEnded?
  simp only
  split
  · next read' hphase =>
    rw [Option.ite_none_left_eq_some, hphase]
    constructor
    · rintro ⟨hgoes, hread⟩
      cases hread
      exact ⟨rfl, by simpa using not_or.mp hgoes⟩
    · rintro ⟨hread, hopen, hsilence⟩
      cases hread
      exact ⟨by simp [hopen, hsilence], rfl⟩
  · next hphase =>
    constructor
    · intro h
      cases h
    · intro h
      exact absurd h.1 (hphase read)

theorem eq_silence_of_readEnded? {read : Option SourceStep} (h : w.readEnded? .work = none)
    (hphase : w.phase = .awaiting read) (hopen : w.channel.cancelled = false) :
    read = some .silence := by
  by_contra hreturns
  rw [readEnded?_eq_some_iff.mpr ⟨hphase, hopen, hreturns⟩] at h
  cases h

/-- A read that ends is what the worker goes on with. -/
theorem eq_receiveRead_of_step {read : Option SourceStep} (hphase : w.phase = .awaiting read)
    (hopen : w.channel.cancelled = false) (h : Step w w') : w' = w.receiveRead read := by
  have hstep := step_eq_some_iff.mpr h
  simp only [step, hphase, hopen, Bool.false_eq_true, if_false] at hstep
  split at hstep
  · cases hstep
  · exact (Option.some.inj hstep).symm

theorem accepted?_of_offered {item : Result Message} (hoffered : w.offered? = some item)
    (hopen : w.channel.isAbandoned = false)
    (hroom : w.channel.queue.length < w.channel.capacity) : w.accepted? .work = some item := by
  simp [accepted?, hoffered, Channel.offer_of_room item hopen hroom]

theorem accepted?_eq_none (h : w.offered? = none ∨ w.channel.isAbandoned = true) :
    w.accepted? .work = none := by
  unfold accepted?
  simp only
  cases hoffered : w.offered? with
  | none => rfl
  | some item =>
      have hgone := h.resolve_left (by simp [hoffered])
      simp [Channel.offer_of_isAbandoned item hgone]

/-! ### What was passed on, accepted and forwarded -/

/-- The consumer is gone.  What the accumulator passed on last may have been lost. -/
def LeftBehind (plan : Course) (emitted : List Message) (w : Worker) : Prop :=
  w.channel.isAbandoned = true ∧ w.forwarded <+: emitted ∧ emitted <+: plan.outputs

/-- A worker is done with reading.  It has kept to the plan, or its consumer is gone. -/
def Stops (plan : Course) (emitted : List Message) (accepted : List (Result Message))
    (outcome : Outcome) (w : Worker) : Prop :=
  (plan = ⟨w.forwarded, some outcome⟩ ∧ emitted = w.forwarded ∨
    outcome = .cancelled ∧ w.LeftBehind plan emitted) ∧
    accepted = w.forwarded.map .ok ∧ w.endings = []

/-- A worker has reported, and told its consumer of a failure.  It has kept to the plan, or its
consumer is gone, and was not told. -/
def Leaves (plan : Course) (emitted : List Message) (accepted : List (Result Message))
    (w : Worker) : Prop :=
  ∃ outcome, w.endings = [w.endingOf outcome] ∧
    (plan = ⟨w.forwarded, some outcome⟩ ∧ emitted = w.forwarded ∧
        accepted = w.forwarded.map .ok ++ raised (w.endingOf outcome) ∨
      (plan = ⟨w.forwarded, some outcome⟩ ∨ outcome = .cancelled) ∧ w.LeftBehind plan emitted ∧
        accepted = w.forwarded.map .ok)

/-- What was passed on, accepted and forwarded, by phase, where `plan` is what the stream comes to
if nobody disturbs it. -/
def Balances (plan : Course) (emitted : List Message) (accepted : List (Result Message))
    (w : Worker) : Prop :=
  match w.phase with
  | .polling | .awaiting _ =>
    plan = w.whole ∧ emitted = w.forwarded ∧ accepted = w.forwarded.map .ok ∧ w.endings = []
  | .offering f _ =>
    plan = w.whole ∧ emitted = w.forwarded ++ [f] ∧ accepted = w.forwarded.map .ok ∧
      w.endings = []
  | .recording f _ =>
    plan = w.whole ∧ emitted = w.forwarded ++ [f] ∧ accepted = (w.forwarded ++ [f]).map .ok ∧
      w.endings = []
  | .releasing outcome | .reporting outcome => w.Stops plan emitted accepted outcome
  | .raising e =>
    ∃ outcome, plan = ⟨w.forwarded, some outcome⟩ ∧ emitted = w.forwarded ∧
      accepted = w.forwarded.map .ok ∧ w.endings = [w.endingOf outcome] ∧
      w.endingOf outcome = .error e
  | .leaving | .finished => w.Leaves plan emitted accepted

variable {plan : Course} {emitted : List Message} {accepted : List (Result Message)}

theorem balances_of_isReading (hphase : w.IsReading) : w.Balances plan emitted accepted ↔
    plan = w.whole ∧ emitted = w.forwarded ∧ accepted = w.forwarded.map .ok ∧
      w.endings = [] := by
  rcases hphase with hphase | ⟨read, hphase⟩ <;> simp [Balances, hphase]

theorem whole_enter_releasing (w : Worker) (outcome : Outcome) :
    (w.enter (.releasing outcome)).whole = ⟨w.forwarded, some outcome⟩ := by
  simp [whole, outlook, enter, Course.after]

theorem balances_enter_releasing {outcome : Outcome}
    (hplan : plan = (w.enter (.releasing outcome)).whole) (hemitted : emitted = w.forwarded)
    (haccepted : accepted = w.forwarded.map .ok) (hendings : w.endings = []) :
    (w.enter (.releasing outcome)).Balances plan emitted accepted := by
  rw [whole_enter_releasing] at hplan
  exact ⟨Or.inl ⟨hplan, hemitted⟩, haccepted, hendings⟩

theorem balances_enter_afterFailure {policy : MalformedChunks} {e : Error}
    (hplan : plan = (w.enter (afterFailure policy e)).whole) (hemitted : emitted = w.forwarded)
    (haccepted : accepted = w.forwarded.map .ok) (hendings : w.endings = []) :
    (w.enter (afterFailure policy e)).Balances plan emitted accepted := by
  unfold afterFailure at hplan ⊢
  split at hplan
  · next hpassed =>
    rw [if_pos hpassed]
    exact ⟨hplan, hemitted, haccepted, hendings⟩
  · next hfatal =>
    rw [if_neg hfatal]
    exact balances_enter_releasing hplan hemitted haccepted hendings

/-- What the accumulator says is what the worker offers next. -/
theorem balances_afterAccumulator {final : Bool} {out : Result (Option Message)}
    (hplan : plan = (w.enter (afterAccumulator final out)).whole)
    (haccepted : accepted = w.forwarded.map .ok) (hendings : w.endings = []) :
    (w.enter (afterAccumulator final out)).Balances plan (w.forwarded ++ Vendor.output out)
      accepted := by
  match out with
  | .error e => exact balances_enter_releasing hplan (List.append_nil _) haccepted hendings
  | .ok (some f) => exact ⟨hplan, rfl, haccepted, hendings⟩
  | .ok none =>
      cases final with
      | false => exact ⟨hplan, List.append_nil _, haccepted, hendings⟩
      | true => exact balances_enter_releasing hplan (List.append_nil _) haccepted hendings

/-- The end of a read keeps the balance: what the accumulator passes on is offered. -/
theorem balances_receiveRead {read : Option SourceStep} (hphase : w.phase = .awaiting read)
    (hread : read ≠ some .silence) (hw : w.Balances plan emitted accepted) :
    (w.receiveRead read).Balances plan
      (emitted ++ Vendor.output (w.vendor.absorb w.accumulator read).1) accepted := by
  obtain ⟨hplan, rfl, haccepted, hendings⟩ :=
    (balances_of_isReading (Or.inr ⟨read, hphase⟩)).mp hw
  rw [← whole_receiveRead hphase hread] at hplan
  match read with
  | none =>
      exact balances_afterAccumulator (w := { w with accumulator := w.accumulator.finish.2 })
        hplan haccepted hendings
  | some (.failure e) =>
      exact balances_enter_afterFailure hplan (List.append_nil _) haccepted hendings
  | some (.crash reason) =>
      exact balances_enter_releasing hplan (List.append_nil _) haccepted hendings
  | some .silence => exact absurd rfl hread
  | some (.value chunk) =>
      simp only [receiveRead, Vendor.absorb] at hplan ⊢
      cases hfragment : w.vendor.fragment chunk with
      | error e =>
          rw [hfragment] at hplan
          exact balances_enter_afterFailure hplan (List.append_nil _) haccepted hendings
      | ok fragment =>
          rw [hfragment] at hplan
          cases fragment with
          | none => exact ⟨hplan, List.append_nil _, haccepted, hendings⟩
          | some f =>
              exact balances_afterAccumulator
                (w := { w with accumulator := (w.accumulator.push f).2 }) hplan haccepted hendings

theorem forwarded_prefix_whole (w : Worker) : w.forwarded <+: w.whole.outputs :=
  List.prefix_append _ _

/-- A fragment that is offered is the next one of the plan. -/
theorem offered_prefix_whole {f : Message} {final : Bool}
    (hphase : w.phase = .offering f final ∨ w.phase = .recording f final) :
    w.forwarded ++ [f] <+: w.whole.outputs := by
  have houtlook : [f] <+: w.outlook.outputs := by
    unfold outlook
    cases final with
    | false => rcases hphase with hphase | hphase <;> rw [hphase] <;> exact List.prefix_append _ _
    | true => rcases hphase with hphase | hphase <;> rw [hphase]
  exact (List.prefix_append_right_inj _).mpr houtlook

/-- A fragment that is recorded counts as forwarded, and the plan stays as it is. -/
theorem whole_record {f : Message} {final : Bool} (hphase : w.phase = .recording f final) :
    { w with
      forwarded := w.forwarded ++ [f]
      phase := if final then .releasing .completed else .polling }.whole = w.whole := by
  unfold whole outlook
  rw [hphase]
  cases final with
  | false => exact Course.after_append _ _ _
  | true => simp [Course.after]

/-- A step that ends no read and offers nothing. -/
theorem balances_of_idle (hplan : plan.outcome ≠ some .cancelled) (h : Step w w')
    (hread : w.readEnded? .work = none) (hoffered : w.offered? = none)
    (hw : w.Balances plan emitted accepted) : w'.Balances plan emitted accepted := by
  cases h with
  | halt hphase hcancelled =>
      obtain ⟨rfl, rfl, haccepted, hendings⟩ := (balances_of_isReading hphase).mp hw
      have hgone : w.channel.isAbandoned = true := by simp [Channel.isAbandoned, hcancelled]
      exact ⟨Or.inr ⟨rfl, hgone, List.prefix_rfl, w.forwarded_prefix_whole⟩, haccepted, hendings⟩
  | startRead hphase hopen =>
      obtain ⟨rfl, hrest⟩ := (balances_of_isReading (Or.inl hphase)).mp hw
      exact ⟨(whole_startRead hphase).symm, hrest⟩
  | @record f final hphase =>
      simp only [Balances, hphase] at hw
      obtain ⟨rfl, hemitted, haccepted, hendings⟩ := hw
      rw [← whole_record hphase]
      cases final with
      | false => exact ⟨rfl, hemitted, haccepted, hendings⟩
      | true =>
          exact balances_enter_releasing (w := { w with forwarded := w.forwarded ++ [f] })
            rfl hemitted haccepted hendings
  | release hphase =>
      simp only [Balances, hphase] at hw
      exact hw
  | @report outcome hphase =>
      simp only [Balances, hphase] at hw
      obtain ⟨hkept, haccepted, hendings⟩ := hw
      have hone : w.endings ++ [w.endingOf outcome] = [w.endingOf outcome] := by
        rw [hendings, List.nil_append]
      rcases hkept with ⟨rfl, hemitted⟩ | ⟨rfl, hleft⟩
      · rcases afterReport_cases outcome (w.endingOf outcome) with
          ⟨hafter, rfl | ⟨m, hending⟩⟩ | ⟨e, hending, hafter⟩
        · exact absurd rfl hplan
        · rw [hafter]
          refine ⟨outcome, hone, Or.inl ⟨rfl, hemitted, ?_⟩⟩
          show accepted = w.forwarded.map .ok ++ raised (w.endingOf outcome)
          rw [haccepted, hending]
          exact (List.append_nil _).symm
        · rw [hafter]
          exact ⟨outcome, rfl, hemitted, haccepted, hone, hending⟩
      · exact ⟨.cancelled, hone, Or.inr ⟨Or.inr rfl, hleft, haccepted⟩⟩
  | leave hphase =>
      simp only [Balances, hphase] at hw
      exact hw
  | deliver | refuse | raise | withhold => simp [offered?, *] at hoffered
  -- The other steps end a read.
  | _ => cases eq_silence_of_readEnded? hread ‹_› ‹_›

/-- A step that offers an item: the channel accepts it, or the consumer is gone. -/
theorem balances_of_offered {item : Result Message} (h : Step w w')
    (hoffered : w.offered? = some item) (hw : w.Balances plan emitted accepted) :
    w'.Balances plan emitted (accepted ++ (w.accepted? .work).toList) := by
  cases h with
  | @deliver f final hphase hopen hroom =>
      rw [accepted?_of_offered hoffered hopen hroom, Option.toList_some]
      simp only [Balances, offered?, hphase] at hw hoffered
      obtain ⟨rfl, hemitted, rfl, hendings⟩ := hw
      cases hoffered
      refine ⟨?_, hemitted, ?_, hendings⟩
      · unfold whole outlook
        rw [hphase]
        cases final <;> rfl
      · rw [List.map_append]
        rfl
  | @refuse f final hphase hgone =>
      rw [accepted?_eq_none (Or.inr hgone), Option.toList_none, List.append_nil]
      simp only [Balances, hphase] at hw
      obtain ⟨rfl, rfl, haccepted, hendings⟩ := hw
      exact ⟨Or.inr ⟨rfl, hgone, List.prefix_append _ _, offered_prefix_whole (Or.inl hphase)⟩,
        haccepted, hendings⟩
  | @raise e hphase hopen hroom =>
      rw [accepted?_of_offered hoffered hopen hroom, Option.toList_some]
      simp only [Balances, offered?, hphase] at hw hoffered
      obtain ⟨outcome, rfl, hemitted, rfl, hendings, hending⟩ := hw
      cases hoffered
      refine ⟨outcome, hendings, Or.inl ⟨rfl, hemitted, ?_⟩⟩
      show w.forwarded.map .ok ++ [.error e] = w.forwarded.map .ok ++ raised (w.endingOf outcome)
      rw [hending]
      rfl
  | withhold hphase hgone =>
      rw [accepted?_eq_none (Or.inr hgone), Option.toList_none, List.append_nil]
      simp only [Balances, hphase] at hw
      obtain ⟨outcome, rfl, rfl, haccepted, hendings, -⟩ := hw
      exact ⟨outcome, hendings,
        Or.inr ⟨Or.inl rfl, ⟨hgone, List.prefix_rfl, List.prefix_rfl⟩, haccepted⟩⟩
  | halt hphase => rcases hphase with hphase | ⟨read, hphase⟩ <;> simp [offered?, hphase] at hoffered
  | _ => simp [offered?, *] at hoffered

/-- **A step keeps the balance.**  What the accumulator passes on in a step and what the channel
accepts is what the phase says. -/
theorem balances_of_step (hplan : plan.outcome ≠ some .cancelled) (h : Step w w')
    (hw : w.Balances plan emitted accepted) :
    w'.Balances plan (emitted ++ w.vendor.emitted w.accumulator (w.readEnded? .work).toList)
      (accepted ++ (w.accepted? .work).toList) := by
  cases hread : w.readEnded? .work with
  | some read =>
      obtain ⟨hphase, hopen, hreturns⟩ := readEnded?_eq_some_iff.mp hread
      have hidle : w.accepted? .work = none :=
        accepted?_eq_none (Or.inl (by simp [offered?, hphase]))
      rw [hidle, eq_receiveRead_of_step hphase hopen h]
      simp only [Option.toList_none, Option.toList_some, Vendor.emitted_singleton,
        List.append_nil]
      exact balances_receiveRead hphase hreturns hw
  | none =>
      simp only [Option.toList_none, Vendor.emitted, List.append_nil]
      cases hoffered : w.offered? with
      | some item => exact balances_of_offered h hoffered hw
      | none =>
          rw [accepted?_eq_none (Or.inl hoffered), Option.toList_none, List.append_nil]
          exact balances_of_idle hplan h hread hoffered hw

/-- The consumer touches the channel only, and does not come back. -/
theorem balances_onChannel {channel : Channel (Result Message)}
    (hgone : w.channel.isAbandoned = true → channel.isAbandoned = true)
    (hw : w.Balances plan emitted accepted) :
    { w with channel }.Balances plan emitted accepted := by
  have hleft (h : w.LeftBehind plan emitted) : { w with channel }.LeftBehind plan emitted :=
    ⟨hgone h.1, h.2⟩
  obtain ⟨vendor, policy, source, old, phase, accumulator, forwarded, reads, closes, endings⟩ := w
  cases phase with
  | releasing outcome => exact ⟨hw.1.imp_right fun h => ⟨h.1, hleft h.2⟩, hw.2⟩
  | reporting outcome => exact ⟨hw.1.imp_right fun h => ⟨h.1, hleft h.2⟩, hw.2⟩
  | leaving =>
      obtain ⟨outcome, hendings, hkept⟩ := hw
      exact ⟨outcome, hendings, hkept.imp_right fun h => ⟨h.1, hleft h.2.1, h.2.2⟩⟩
  | finished =>
      obtain ⟨outcome, hendings, hkept⟩ := hw
      exact ⟨outcome, hendings, hkept.imp_right fun h => ⟨h.1, hleft h.2.1, h.2.2⟩⟩
  | _ => exact hw

/-- What was forwarded is what the accumulator passed on, as far as it got, and that keeps to the
plan.  What was accepted is what was forwarded, unless a fragment is just about to be recorded, and
then at most one error, which is the one that was reported. -/
structure Faithful (plan : Course) (emitted : List Message) (accepted : List (Result Message))
    (w : Worker) : Prop where
  forwarded_prefix : w.forwarded <+: emitted
  emitted_prefix : emitted <+: plan.outputs
  exists_fragments : ∃ fragments : List Message, fragments <+: emitted ∧
    ((∀ f final, w.phase ≠ .recording f final) → fragments = w.forwarded) ∧
    (accepted = fragments.map .ok ∨
      ∃ e, accepted = fragments.map .ok ++ [.error e] ∧ w.endings = [.error e])

theorem faithful_of_forwarded (hforwarded : w.forwarded <+: emitted)
    (hemitted : emitted <+: plan.outputs)
    (haccepted : accepted = w.forwarded.map .ok ∨
      ∃ e, accepted = w.forwarded.map .ok ++ [.error e] ∧ w.endings = [.error e]) :
    w.Faithful plan emitted accepted :=
  ⟨hforwarded, hemitted, w.forwarded, hforwarded, fun _ => rfl, haccepted⟩

/-- **However far a worker got, it is faithful.** -/
theorem Balances.faithful (hw : w.Balances plan emitted accepted) :
    w.Faithful plan emitted accepted := by
  have hreading (hphase : w.IsReading) : w.Faithful plan emitted accepted := by
    obtain ⟨rfl, rfl, haccepted, -⟩ := (balances_of_isReading hphase).mp hw
    exact faithful_of_forwarded List.prefix_rfl w.forwarded_prefix_whole (Or.inl haccepted)
  have hstops {outcome : Outcome} (h : w.Stops plan emitted accepted outcome) :
      w.Faithful plan emitted accepted := by
    obtain ⟨⟨rfl, rfl⟩ | ⟨-, -, hforwarded, hemitted⟩, haccepted, -⟩ := h
    · exact faithful_of_forwarded List.prefix_rfl List.prefix_rfl (Or.inl haccepted)
    · exact faithful_of_forwarded hforwarded hemitted (Or.inl haccepted)
  have hleaves (h : w.Leaves plan emitted accepted) : w.Faithful plan emitted accepted := by
    obtain ⟨outcome, hendings, ⟨rfl, rfl, haccepted⟩ | ⟨-, ⟨-, hforwarded, hemitted⟩, haccepted⟩⟩ :=
      h
    · refine faithful_of_forwarded List.prefix_rfl List.prefix_rfl ?_
      cases hending : w.endingOf outcome with
      | ok m =>
          rw [hending] at haccepted
          exact Or.inl (haccepted.trans (List.append_nil _))
      | error e =>
          rw [hending] at haccepted hendings
          exact Or.inr ⟨e, haccepted, hendings⟩
    · exact faithful_of_forwarded hforwarded hemitted (Or.inl haccepted)
  cases hphase : w.phase with
  | polling => exact hreading (Or.inl hphase)
  | awaiting read => exact hreading (Or.inr ⟨read, hphase⟩)
  | offering f final =>
      simp only [Balances, hphase] at hw
      obtain ⟨rfl, rfl, haccepted, -⟩ := hw
      exact faithful_of_forwarded (List.prefix_append _ _) (offered_prefix_whole (Or.inl hphase))
        (Or.inl haccepted)
  | recording f final =>
      simp only [Balances, hphase] at hw
      obtain ⟨rfl, rfl, haccepted, -⟩ := hw
      refine ⟨List.prefix_append _ _, offered_prefix_whole (Or.inr hphase), _, List.prefix_rfl, ?_,
        Or.inl haccepted⟩
      intro hnot
      exact absurd hphase (hnot f final)
  | releasing outcome =>
      simp only [Balances, hphase] at hw
      exact hstops hw
  | reporting outcome =>
      simp only [Balances, hphase] at hw
      exact hstops hw
  | raising e =>
      simp only [Balances, hphase] at hw
      obtain ⟨outcome, rfl, rfl, haccepted, -⟩ := hw
      exact faithful_of_forwarded List.prefix_rfl List.prefix_rfl (Or.inl haccepted)
  | leaving =>
      simp only [Balances, hphase] at hw
      exact hleaves hw
  | finished =>
      simp only [Balances, hphase] at hw
      exact hleaves hw

/-- Where an error was accepted, the worker has kept to the plan, and reported that error. -/
theorem Balances.of_mem_accepted {e : Error} (hw : w.Balances plan emitted accepted)
    (he : .error e ∈ accepted) : ∃ outcome, plan = ⟨w.forwarded, some outcome⟩ ∧
      w.endings = [w.endingOf outcome] ∧ w.endingOf outcome = .error e ∧
      accepted = w.forwarded.map .ok ++ [.error e] ∧ w.phase.reports ≠ 0 := by
  have hfragments {fragments : List Message} (h : accepted = fragments.map .ok) : False := by
    rw [h] at he
    simp at he
  have hleaves (h : w.Leaves plan emitted accepted) :
      ∃ outcome, plan = ⟨w.forwarded, some outcome⟩ ∧ w.endings = [w.endingOf outcome] ∧
        w.endingOf outcome = .error e ∧ accepted = w.forwarded.map .ok ++ [.error e] := by
    obtain ⟨outcome, hendings, ⟨hplan, -, haccepted⟩ | ⟨-, -, haccepted⟩⟩ := h
    · have hraised : .error e ∈ raised (w.endingOf outcome) := by
        simpa [haccepted] using he
      cases hending : w.endingOf outcome with
      | ok m =>
          rw [hending] at hraised
          cases hraised
      | error e' =>
          rw [hending] at hraised haccepted
          cases List.mem_singleton.mp hraised
          exact ⟨outcome, hplan, hending ▸ hendings, hending, haccepted⟩
    · exact (hfragments haccepted).elim
  cases hphase : w.phase with
  | leaving =>
      simp only [Balances, hphase] at hw
      obtain ⟨outcome, hplan, hendings, hending, haccepted⟩ := hleaves hw
      exact ⟨outcome, hplan, hendings, hending, haccepted, one_ne_zero⟩
  | finished =>
      simp only [Balances, hphase] at hw
      obtain ⟨outcome, hplan, hendings, hending, haccepted⟩ := hleaves hw
      exact ⟨outcome, hplan, hendings, hending, haccepted, one_ne_zero⟩
  | polling => exact (hfragments ((balances_of_isReading (Or.inl hphase)).mp hw).2.2.1).elim
  | awaiting read =>
      exact (hfragments ((balances_of_isReading (Or.inr ⟨read, hphase⟩)).mp hw).2.2.1).elim
  | offering f final =>
      simp only [Balances, hphase] at hw
      exact (hfragments hw.2.2.1).elim
  | recording f final =>
      simp only [Balances, hphase] at hw
      exact (hfragments hw.2.2.1).elim
  | releasing outcome =>
      simp only [Balances, hphase] at hw
      exact (hfragments hw.2.1).elim
  | reporting outcome =>
      simp only [Balances, hphase] at hw
      exact (hfragments hw.2.1).elim
  | raising e' =>
      simp only [Balances, hphase] at hw
      obtain ⟨outcome, -, -, haccepted, -⟩ := hw
      exact (hfragments haccepted).elim

/-- What a finished worker has done. -/
theorem Balances.leaves (hw : w.Balances plan emitted accepted) (hphase : w.phase = .finished) :
    w.Leaves plan emitted accepted := by
  simp only [Balances, hphase] at hw
  exact hw

end Worker

end ChatRelay
