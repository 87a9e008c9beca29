import ChatRelay.Proofs.Stream.Balance

/-!
# What a stream delivers

Three things can be told of a stream move by move: the reads that have ended, the items that the
channel accepted, and the items that the consumer received.  `Worker.Ledger` says how they hang
together, and `ledger_after` that this holds however worker and consumer interleave: the accepted
items are those that were forwarded and then at most one error, which is the one that was reported,
and as long as the consumer is there it has received all of them but those that wait.

A fragment is accepted before it counts as forwarded, so between these two steps a fragment may be
received that was not forwarded yet.  At any other time what was accepted was forwarded.

## Main definitions

* `Worker.history` — what some moves show of a stream
* `Worker.readsEnded`, `Worker.accepted`, `Worker.received` — the three histories
* `Worker.Ledger` — how the histories of a stream hang together
-/

namespace ChatRelay

namespace Worker

variable {w w' : Worker}

/-! ### Histories -/

/-- What some moves show of a stream, one after the other. -/
def history {α : Type} (show? : Worker → Move → Option α) (w : Worker) : List Move → List α
  | [] => []
  | m :: ms => (show? w m).toList ++ history show? (w.take m) ms

/-- The item that the consumer gets in a move. -/
def received? (w : Worker) : Move → Option (Result Message)
  | .receive =>
    match w.channel.receive.1 with
    | .item item => some item
    | _ => none
  | _ => none

/-- The reads that have ended, `none` being the end of the source. -/
def readsEnded (w : Worker) (ms : List Move) : List (Option SourceStep) :=
  history readEnded? w ms

/-- The items that the channel has accepted. -/
def accepted (w : Worker) (ms : List Move) : List (Result Message) :=
  history accepted? w ms

/-- The items that the consumer has received. -/
def received (w : Worker) (ms : List Move) : List (Result Message) :=
  history received? w ms

theorem history_append {α : Type} (show? : Worker → Move → Option α) (w : Worker)
    (ms ns : List Move) :
    history show? w (ms ++ ns) = history show? w ms ++ history show? (w.after ms) ns := by
  induction ms generalizing w with
  | nil => rfl
  | cons m ms ih =>
      rw [List.cons_append, history, history, ih, List.append_assoc]
      rfl

theorem history_concat {α : Type} (show? : Worker → Move → Option α) (w : Worker)
    (ms : List Move) (m : Move) :
    history show? w (ms ++ [m]) = history show? w ms ++ (show? (w.after ms) m).toList := by
  rw [history_append, history, history, List.append_nil]

theorem received_concat (w : Worker) (ms : List Move) (m : Move) :
    w.received (ms ++ [m]) = w.received ms ++ ((w.after ms).received? m).toList :=
  history_concat received? w ms m

/-! ### The ledger -/

/-- The reads that have not ended, the end of the source included. -/
def readsAhead (w : Worker) : List (Option SourceStep) :=
  match w.phase with
  | .polling | .offering _ false | .recording _ false => w.source.map some ++ [none]
  | .awaiting none => [none]
  | .awaiting (some read) => some read :: (w.source.map some ++ [none])
  | _ => []

theorem accumulator_receiveRead (w : Worker) (read : Option SourceStep) :
    (w.receiveRead read).accumulator = (w.vendor.absorb w.accumulator read).2 := by
  match read with
  | none => rfl
  | some (.failure e) => rfl
  | some (.crash reason) => rfl
  | some .silence => rfl
  | some (.value chunk) =>
      simp only [receiveRead, Vendor.absorb]
      cases w.vendor.fragment chunk with
      | error e => rfl
      | ok fragment => cases fragment <;> rfl

/-- What the accumulator remembers is told by the reads that have ended. -/
theorem accumulator_of_step (h : Step w w') :
    w'.accumulator = w.vendor.absorbAll w.accumulator (w.readEnded? .work).toList := by
  cases hread : w.readEnded? .work with
  | some read =>
      obtain ⟨hphase, hopen, -⟩ := readEnded?_eq_some_iff.mp hread
      rw [eq_receiveRead_of_step hphase hopen h]
      exact w.accumulator_receiveRead read
  | none =>
      cases h with
      | endSource hphase hopen | push hphase hopen =>
          cases eq_silence_of_readEnded? hread hphase hopen
      | _ => rfl

theorem readsAhead_enter_afterFailure (w : Worker) (policy : MalformedChunks) (e : Error) :
    (w.enter (afterFailure policy e)).readsAhead <+: w.source.map some ++ [none] := by
  unfold afterFailure
  split
  · exact List.prefix_rfl
  · exact List.nil_prefix

theorem readsAhead_enter_afterAccumulator (w : Worker) (out : Result (Option Message)) :
    (w.enter (afterAccumulator false out)).readsAhead <+: w.source.map some ++ [none] := by
  rcases out with e | _ | f
  · exact List.nil_prefix
  · exact List.prefix_rfl
  · exact List.prefix_rfl

/-- **Reads end in the order of the source.** -/
theorem readsAhead_of_step (h : Step w w') :
    (w.readEnded? .work).toList ++ w'.readsAhead <+: w.readsAhead := by
  have hreads {read : SourceStep} (hphase : w.phase = .awaiting (some read)) :
      w.readsAhead = some read :: (w.source.map some ++ [none]) := by rw [readsAhead, hphase]
  cases hread : w.readEnded? .work with
  | some read =>
      obtain ⟨hphase, hopen, hreturns⟩ := readEnded?_eq_some_iff.mp hread
      rw [eq_receiveRead_of_step hphase hopen h, Option.toList_some]
      match read with
      | none =>
          have hlast : (w.receiveRead none).readsAhead = [] := by
            simp only [receiveRead]
            rcases w.accumulator.finish.1 with e | _ | f <;> rfl
          rw [hlast, readsAhead, hphase]
          exact List.prefix_rfl
      | some (.failure e) =>
          rw [hreads hphase]
          exact (List.prefix_cons_inj _).mpr (w.readsAhead_enter_afterFailure w.policy e)
      | some (.crash reason) =>
          rw [hreads hphase]
          exact (List.prefix_cons_inj _).mpr List.nil_prefix
      | some .silence => exact absurd rfl hreturns
      | some (.value chunk) =>
          rw [hreads hphase]
          refine (List.prefix_cons_inj _).mpr ?_
          simp only [receiveRead]
          cases w.vendor.fragment chunk with
          | error e => exact w.readsAhead_enter_afterFailure w.policy e
          | ok fragment =>
              cases fragment with
              | none => exact List.prefix_rfl
              | some f => exact readsAhead_enter_afterAccumulator _ (w.accumulator.push f).1
  | none =>
      rw [Option.toList_none, List.nil_append]
      cases h with
      | startRead hphase hopen =>
          have hhere : w.readsAhead = w.source.map some ++ [none] := by rw [readsAhead, hphase]
          rw [hhere]
          show readsAhead { w with
            reads := w.reads + 1, source := w.source.tail, phase := .awaiting w.source.head? } <+: _
          cases hsource : w.source with
          | nil => exact List.prefix_rfl
          | cons read rest => exact List.prefix_rfl
      -- The steps that end a read belong to the other case.
      | endSource hphase hopen | fail hphase hopen | reject hphase hopen | ignore hphase hopen
      | push hphase hopen => cases eq_silence_of_readEnded? hread hphase hopen
      | @deliver f final hphase hopen hroom =>
          unfold readsAhead
          rw [hphase]
          cases final <;> exact List.prefix_rfl
      | @record f final hphase =>
          unfold readsAhead
          rw [hphase]
          cases final <;> exact List.prefix_rfl
      | @report outcome hphase =>
          rcases afterReport_cases outcome (w.endingOf outcome) with
            ⟨hafter, -⟩ | ⟨e, -, hafter⟩ <;> rw [hafter] <;> exact List.nil_prefix
      | _ => exact List.nil_prefix

/-- A step puts into the channel what is accepted in it. -/
theorem channel_of_step (h : Step w w') :
    w'.channel.queue = w.channel.queue ++ (w.accepted? .work).toList ∧
      w'.channel.readerOpen = w.channel.readerOpen ∧
      w'.channel.capacity = w.channel.capacity := by
  have hidle (hoffered : w.offered? = none) :
      w.channel.queue = w.channel.queue ++ (w.accepted? .work).toList := by
    rw [accepted?_eq_none (Or.inl hoffered), Option.toList_none, List.append_nil]
  have hgone (hgone : w.channel.isAbandoned = true) :
      w.channel.queue = w.channel.queue ++ (w.accepted? .work).toList := by
    rw [accepted?_eq_none (Or.inr hgone), Option.toList_none, List.append_nil]
  cases h with
  | @deliver f final hphase hopen hroom =>
      have hoffered : w.offered? = some (.ok f) := by simp [offered?, hphase]
      rw [accepted?_of_offered hoffered hopen hroom]
      exact ⟨rfl, rfl, rfl⟩
  | @raise e hphase hopen hroom =>
      have hoffered : w.offered? = some (.error e) := by simp [offered?, hphase]
      rw [accepted?_of_offered hoffered hopen hroom]
      exact ⟨rfl, rfl, rfl⟩
  | refuse hphase hleft | withhold hphase hleft => exact ⟨hgone hleft, rfl, rfl⟩
  | halt hphase hcancelled =>
      refine ⟨hidle ?_, rfl, rfl⟩
      rcases hphase with hphase | ⟨read, hphase⟩ <;> simp [offered?, hphase]
  | _ => exact ⟨hidle (by simp [offered?, *]), rfl, rfl⟩

/-- The writer's end of the channel is gone just when the worker has finished. -/
theorem writerOpen_of_step (h : Step w w')
    (hw : w.channel.writerOpen = false ↔ w.phase = .finished) :
    w'.channel.writerOpen = false ↔ w'.phase = .finished := by
  have hopen : w.channel.writerOpen = true := by
    rw [← Bool.not_eq_false, hw]
    intro hphase
    have hstep := step_eq_some_iff.mpr h
    simp [step, hphase] at hstep
  have hstays {channel : Channel (Result Message)} {p : Phase}
      (hsame : channel.writerOpen = w.channel.writerOpen) (hphase : p.releases = 0 ∨ p ≠ .finished) :
      channel.writerOpen = false ↔ p = .finished := by
    refine iff_of_false (by simp [hsame, hopen]) ?_
    rintro rfl
    rcases hphase with hphase | hphase
    · cases hphase
    · exact hphase rfl
  cases h with
  | leave => exact iff_of_true rfl rfl
  | endSource => exact hstays rfl (Or.inl (releases_afterAccumulator _ _).1)
  | fail => exact hstays rfl (Or.inl (releases_afterFailure _ _).1)
  | reject => exact hstays rfl (Or.inl (releases_afterFailure _ _).1)
  | push => exact hstays rfl (Or.inl (releases_afterAccumulator _ _).1)
  | @record f final =>
      refine hstays rfl (Or.inl ?_)
      cases final <;> rfl
  | @report outcome =>
      refine hstays rfl (Or.inr ?_)
      rcases afterReport_cases outcome (w.endingOf outcome) with ⟨hafter, -⟩ | ⟨e, -, hafter⟩ <;>
        simp [hafter]
  | raise => exact hstays rfl (Or.inr (by simp))
  | withhold => exact hstays rfl (Or.inr (by simp [enter]))
  | release => exact hstays rfl (Or.inr (by simp))
  | _ => exact hstays rfl (Or.inl rfl)

/-- How the histories of a stream hang together.  The reads that have ended, and those to come, are
the reads of the source.  They tell what the accumulator remembers and what it has passed on.  As
long as the reader is there, it has received what was accepted but what waits in the channel. -/
structure Ledger (w origin : Worker) (reads : List (Option SourceStep))
    (accepted received : List (Result Message)) : Prop where
  vendor : w.vendor = origin.vendor
  accumulator : w.accumulator = origin.vendor.absorbAll origin.accumulator reads
  reads_prefix : reads ++ w.readsAhead <+: origin.readsAhead
  balances : w.Balances origin.whole (origin.vendor.emitted origin.accumulator reads) accepted
  received_prefix : received ++ w.channel.queue <+: accepted
  received_eq : w.channel.readerOpen = true → received ++ w.channel.queue = accepted
  room : 0 < w.channel.capacity
  writer : w.channel.writerOpen = false ↔ w.phase = .finished

variable {origin : Worker} {reads : List (Option SourceStep)}
  {accepted received : List (Result Message)}

theorem vendor_of_step (h : Step w w') : w'.vendor = w.vendor := by
  cases h <;> rfl

theorem Ledger.step (h : w.Ledger origin reads accepted received)
    (horigin : origin.whole.outcome ≠ some .cancelled) (hstep : Step w w') :
    w'.Ledger origin (reads ++ (w.readEnded? .work).toList)
      (accepted ++ (w.accepted? .work).toList) received := by
  obtain ⟨hqueue, hreader, hcapacity⟩ := channel_of_step hstep
  have hreceived : received ++ w'.channel.queue <+: accepted ++ (w.accepted? .work).toList ∧
      (w'.channel.readerOpen = true →
        received ++ w'.channel.queue = accepted ++ (w.accepted? .work).toList) := by
    rw [hqueue, hreader, ← List.append_assoc]
    cases hopen : w.channel.readerOpen with
    | true =>
        rw [h.received_eq hopen]
        exact ⟨List.prefix_rfl, fun _ => rfl⟩
    | false =>
        -- Without a reader nothing is accepted.
        have hgone : w.channel.isAbandoned = true := by simp [Channel.isAbandoned, hopen]
        rw [accepted?_eq_none (Or.inr hgone), Option.toList_none, List.append_nil, List.append_nil]
        exact ⟨h.received_prefix, Bool.noConfusion⟩
  refine ⟨?_, ?_, ?_, ?_, hreceived.1, hreceived.2, ?_, ?_⟩
  · rw [vendor_of_step hstep, h.vendor]
  · rw [accumulator_of_step hstep, h.vendor, h.accumulator, Vendor.absorbAll_append]
  · rw [List.append_assoc]
    exact ((List.prefix_append_right_inj _).mpr (readsAhead_of_step hstep)).trans h.reads_prefix
  · have hbalances := balances_of_step horigin hstep h.balances
    rwa [h.vendor, h.accumulator, ← Vendor.emitted_append] at hbalances
  · rw [hcapacity]
    exact h.room
  · exact writerOpen_of_step hstep h.writer

/-- Who reads takes the first item of those that wait, and who gives up the stream leaves them. -/
theorem channel_take (w : Worker) {m : Move} (hm : m ≠ .work) :
    (w.channel.isAbandoned = true → (w.take m).channel.isAbandoned = true) ∧
    (w.take m).channel.capacity = w.channel.capacity ∧
    (w.take m).channel.writerOpen = w.channel.writerOpen ∧
    ((w.take m).channel.readerOpen = w.channel.readerOpen ∧
        (w.received? m).toList ++ (w.take m).channel.queue = w.channel.queue ∨
      (w.take m).channel.readerOpen = false ∧ (w.take m).channel.queue = [] ∧
        w.received? m = none) := by
  cases m with
  | work => exact absurd rfl hm
  | receive =>
      cases hqueue : w.channel.queue with
      | cons item rest =>
          simp only [take, received?, Channel.receive_of_cons hqueue]
          exact ⟨id, trivial, trivial, Or.inl ⟨trivial, rfl⟩⟩
      | nil =>
          have hnone : w.received? .receive = none := by
            simp only [received?, Channel.receive_of_nil hqueue]
            cases w.channel.writerOpen <;> rfl
          rw [hnone]
          simp only [take, Channel.receive_of_nil hqueue]
          exact ⟨id, trivial, trivial, Or.inl ⟨trivial, hqueue⟩⟩
  | cancel => exact ⟨fun _ => rfl, rfl, rfl, Or.inl ⟨rfl, rfl⟩⟩
  | close => exact ⟨fun _ => rfl, rfl, rfl, Or.inr ⟨rfl, rfl, rfl⟩⟩
  | drop => exact ⟨fun _ => rfl, rfl, rfl, Or.inr ⟨rfl, rfl, rfl⟩⟩

theorem Ledger.consume (h : w.Ledger origin reads accepted received) {m : Move} (hm : m ≠ .work) :
    (w.take m).Ledger origin reads accepted (received ++ (w.received? m).toList) := by
  obtain ⟨hgone, hcapacity, hwriter, hqueue⟩ := w.channel_take hm
  obtain ⟨channel, htake⟩ := w.take_of_ne_work hm
  rw [htake] at hgone hcapacity hwriter hqueue ⊢
  refine ⟨h.vendor, h.accumulator, h.reads_prefix, balances_onChannel hgone h.balances, ?_, ?_,
    hcapacity.symm ▸ h.room, hwriter.symm ▸ h.writer⟩
  · rcases hqueue with ⟨-, hqueue⟩ | ⟨-, hqueue, hnone⟩
    · rw [List.append_assoc, hqueue]
      exact h.received_prefix
    · simp only at hqueue ⊢
      rw [hqueue, hnone, Option.toList_none, List.append_nil, List.append_nil]
      exact (List.prefix_append _ _).trans h.received_prefix
  · intro hopen
    rcases hqueue with ⟨hreader, hqueue⟩ | ⟨hclosed, -⟩
    · rw [List.append_assoc, hqueue, h.received_eq (hreader.symm.trans hopen)]
    · rw [hclosed] at hopen
      cases hopen

/-- A worker that has to wait, or is finished, shows nothing. -/
theorem shows_of_step_eq_none (h : w.step = none) :
    w.readEnded? .work = none ∧ w.accepted? .work = none := by
  have hstuck (w' : Worker) : w.step ≠ some w' := by
    rw [h]
    exact (Option.some_ne_none w').symm
  constructor
  · cases hread : w.readEnded? .work with
    | none => rfl
    | some read =>
        obtain ⟨hphase, hopen, hreturns⟩ := readEnded?_eq_some_iff.mp hread
        exact absurd (by simp [step, hphase, hopen, hreturns]) (hstuck (w.receiveRead read))
  · cases hoffered : w.offered? with
    | none => exact accepted?_eq_none (Or.inl hoffered)
    | some item =>
        -- Where an item is accepted, the worker takes a step.
        rcases hoffer : w.channel.offer item with ⟨offer, channel⟩
        cases offer with
        | accepted =>
            unfold offered? at hoffered
            split at hoffered
            · next f final hphase =>
              cases hoffered
              exact absurd (by simp [step, hphase, hoffer]; rfl) (hstuck _)
            · next e hphase =>
              cases hoffered
              exact absurd (by simp [step, hphase, hoffer]; rfl) (hstuck _)
            · cases hoffered
        | refused => simp [accepted?, hoffered, hoffer]
        | blocked => simp [accepted?, hoffered, hoffer]

theorem Ledger.take (h : w.Ledger origin reads accepted received)
    (horigin : origin.whole.outcome ≠ some .cancelled) (m : Move) :
    (w.take m).Ledger origin (reads ++ (w.readEnded? m).toList)
      (accepted ++ (w.accepted? m).toList) (received ++ (w.received? m).toList) := by
  have hnone (hm : m ≠ .work) : w.readEnded? m = none ∧ w.accepted? m = none := by
    cases m with
    | work => exact absurd rfl hm
    | _ => exact ⟨rfl, rfl⟩
  rcases w.take_cases m with ⟨rfl, hstuck, htake⟩ | ⟨rfl, hstep⟩ | ⟨hm, -⟩
  · obtain ⟨hread, haccepted⟩ := shows_of_step_eq_none hstuck
    have hreceived : w.received? .work = none := rfl
    simp only [htake, hread, haccepted, hreceived, Option.toList_none, List.append_nil]
    exact h
  · exact (List.append_nil received).symm ▸ h.step horigin hstep
  · simp only [hnone hm, Option.toList_none, List.append_nil]
    exact h.consume hm

/-- **The ledger of a stream is right,** however worker and consumer interleave. -/
theorem ledger_after (v : Vendor) (c : StreamConfig) (source : List SourceStep) (ms : List Move) :
    ((start v c source).after ms).Ledger (start v c source) ((start v c source).readsEnded ms)
      ((start v c source).accepted ms) ((start v c source).received ms) := by
  induction ms using List.reverseRecOn with
  | nil =>
      refine ⟨rfl, rfl, List.prefix_rfl, ⟨rfl, rfl, rfl, rfl⟩, List.prefix_rfl, fun _ => rfl, ?_,
        iff_of_false ?_ ?_⟩
      · show 0 < max c.channelCapacity 1
        omega
      · exact Bool.noConfusion
      · exact Phase.noConfusion
  | append_singleton ms m ih =>
      have horigin : (start v c source).whole.outcome ≠ some .cancelled := by
        rw [whole_start]
        intro h
        rcases Vendor.course_outcome _ _ h with h | ⟨e, h, -⟩ <;> cases h
      simp only [readsEnded, Worker.accepted, Worker.received, history_concat, after_append]
      exact ih.take horigin m

/-! ### What the ledger tells -/

/-- The consumer has received fragments, as far as it got, and then at most one error, which is the
one that was reported. -/
theorem Ledger.exists_fragments (h : w.Ledger origin reads accepted received) :
    ∃ fragments : List Message,
      fragments <+: origin.vendor.emitted origin.accumulator reads ∧
      (received = fragments.map .ok ∨
        ∃ e, received = fragments.map .ok ++ [.error e] ∧ w.endings = [.error e]) := by
  have hreceived : received <+: accepted := (List.prefix_append _ _).trans h.received_prefix
  obtain ⟨fragments, hfragments, -, haccepted | ⟨e, haccepted, hendings⟩⟩ :=
    h.balances.faithful.exists_fragments
  · rw [haccepted] at hreceived
    obtain ⟨got, hgot, hreceived⟩ := List.prefix_map_iff.mp hreceived
    exact ⟨got, hgot.trans hfragments, Or.inl hreceived⟩
  · rw [haccepted, List.prefix_concat_iff] at hreceived
    rcases hreceived with hreceived | hreceived
    · exact ⟨fragments, hfragments, Or.inr ⟨e, hreceived, hendings⟩⟩
    · obtain ⟨got, hgot, hreceived⟩ := List.prefix_map_iff.mp hreceived
      exact ⟨got, hgot.trans hfragments, Or.inl hreceived⟩

/-- **A consumer that stays to the end has received everything:** what the source comes to, and the
error that was reported, if any. -/
theorem Ledger.drained (h : w.Ledger origin reads accepted received)
    (hstays : w.channel.isAbandoned = false) (hended : w.channel.receive.1 = .ended) :
    ∃ outcome, origin.whole = ⟨origin.vendor.emitted origin.accumulator reads, some outcome⟩ ∧
      w.forwarded = origin.vendor.emitted origin.accumulator reads ∧
      received = w.forwarded.map .ok ++ raised (w.endingOf outcome) ∧
      w.endings = [w.endingOf outcome] := by
  obtain ⟨hqueue, hclosed⟩ := Channel.receive_eq_ended_iff.mp hended
  have hreader : w.channel.readerOpen = true := by
    simpa using And.right (Bool.or_eq_false_iff.mp hstays)
  have hall := h.received_eq hreader
  rw [hqueue, List.append_nil] at hall
  obtain ⟨outcome, hendings, ⟨hplan, hsame, haccepted⟩ | ⟨-, ⟨hgone, -⟩, -⟩⟩ :=
    h.balances.leaves (h.writer.mp hclosed)
  · rw [← hsame] at hplan
    exact ⟨outcome, hplan, hsame.symm, hall.trans haccepted, hendings⟩
  · rw [hstays] at hgone
    cases hgone

/-- After its report a worker forwards and reports nothing more. -/
theorem reported_of_step (h : Step w w') (hw : w.phase.reports ≠ 0) :
    w'.phase.reports ≠ 0 ∧ w'.forwarded = w.forwarded ∧ w'.endings = w.endings ∧
      w'.endingOf = w.endingOf := by
  have hnot {p : Phase} (hphase : w.phase = p) (hp : p.reports = 0) : False :=
    hw (hphase ▸ hp)
  cases h with
  | raise | withhold | leave => exact ⟨one_ne_zero, rfl, rfl, rfl⟩
  | halt hphase =>
      rcases hphase with hphase | ⟨read, hphase⟩
      · exact (hnot hphase rfl).elim
      · exact (hnot hphase rfl).elim
  | _ => exact (hnot ‹_› rfl).elim

theorem reported_after (hw : w.phase.reports ≠ 0) (ms : List Move) :
    (w.after ms).forwarded = w.forwarded ∧ (w.after ms).endings = w.endings ∧
      (w.after ms).endingOf = w.endingOf := by
  refine (holds_after_of_step (P := fun w' => w'.phase.reports ≠ 0 ∧ w'.forwarded = w.forwarded ∧
    w'.endings = w.endings ∧ w'.endingOf = w.endingOf) ⟨hw, rfl, rfl, rfl⟩ ?_ ?_ ms).2
  · rintro w' w'' ⟨hreports, hforwarded, hendings, hending⟩ hstep
    obtain ⟨hreports', hforwarded', hendings', hending'⟩ := reported_of_step hstep hreports
    exact ⟨hreports', hforwarded'.trans hforwarded, hendings'.trans hendings,
      hending'.trans hending⟩
  · intro w' channel h
    exact h

/-! ### Consumers that stay, and consumers that are gone -/

theorem cancelled_after_of_cancelled (hw : w.channel.cancelled = true) (ms : List Move) :
    (w.after ms).channel.cancelled = true := by
  refine holds_after (P := fun w => w.channel.cancelled = true) hw ?_
  intro w hw m _
  cases m with
  | receive => exact w.cancelled_receive.trans hw
  | cancel => rfl
  | close => rfl
  | drop => rfl
  | work => exact w.cancelled_work.trans hw

theorem readerOpen_take (w : Worker) {m : Move} (hclose : m ≠ .close) (hdrop : m ≠ .drop) :
    (w.take m).channel.readerOpen = w.channel.readerOpen := by
  cases m with
  | close => exact absurd rfl hclose
  | drop => exact absurd rfl hdrop
  | cancel => rfl
  | receive =>
      show w.channel.receive.2.readerOpen = w.channel.readerOpen
      unfold Channel.receive
      split <;> rfl
  | work =>
      rcases w.work_cases with ⟨-, htake⟩ | hstep
      · rw [htake]
      · exact (channel_of_step hstep).2.1

theorem readerOpen_after {ms : List Move} (hms : ∀ m ∈ ms, m ≠ .close ∧ m ≠ .drop) (w : Worker) :
    (w.after ms).channel.readerOpen = w.channel.readerOpen := by
  refine holds_after (P := fun w' => w'.channel.readerOpen = w.channel.readerOpen) rfl ?_
  intro w' hopen m hm
  exact (w'.readerOpen_take (hms m hm).1 (hms m hm).2).trans hopen

theorem cancelled_after {ms : List Move} (hms : ∀ m ∈ ms, m = .work ∨ m = .receive) (w : Worker) :
    (w.after ms).channel.cancelled = w.channel.cancelled := by
  refine holds_after (P := fun w' => w'.channel.cancelled = w.channel.cancelled) rfl ?_
  intro w' hsame m hm
  rcases hms m hm with rfl | rfl
  · exact w'.cancelled_work.trans hsame
  · exact w'.cancelled_receive.trans hsame

/-- A consumer that only reads does not abandon the stream. -/
theorem isAbandoned_after {ms : List Move} (hms : ∀ m ∈ ms, m = .work ∨ m = .receive)
    (w : Worker) : (w.after ms).channel.isAbandoned = w.channel.isAbandoned := by
  have hends : ∀ m ∈ ms, m ≠ .close ∧ m ≠ .drop := by
    intro m hm
    rcases hms m hm with rfl | rfl <;> simp
  rw [Channel.isAbandoned, Channel.isAbandoned, readerOpen_after hends, cancelled_after hms]

/-- **Why a worker waits:** it has finished, or a read never returns, or the channel is full. -/
theorem stuck_cases (h : w.step = none) : w.phase = .finished ∨
    (w.phase = .awaiting (some .silence) ∧ w.channel.cancelled = false) ∨
    (w.channel.isAbandoned = false ∧ w.channel.capacity ≤ w.channel.queue.length) := by
  have hstuck {w' : Worker} (hstep : Step w w') : False := by
    rw [step_eq_some_iff.mpr hstep] at h
    cases h
  have hreading (hphase : w.IsReading) : w.channel.cancelled = false := by
    by_contra hcancelled
    exact hstuck (.halt hphase (by simpa using hcancelled))
  have hfull (hgone : w.channel.isAbandoned = true → False)
      (hroom : w.channel.isAbandoned = false → w.channel.queue.length < w.channel.capacity → False) :
      w.channel.isAbandoned = false ∧ w.channel.capacity ≤ w.channel.queue.length := by
    have hopen : w.channel.isAbandoned = false := by simpa using hgone
    exact ⟨hopen, Nat.le_of_not_lt (hroom hopen)⟩
  cases hphase : w.phase with
  | finished => exact Or.inl rfl
  | polling => exact (hstuck (.startRead hphase (hreading (Or.inl hphase)))).elim
  | awaiting read =>
      have hopen := hreading (Or.inr ⟨read, hphase⟩)
      by_cases hread : read = some .silence
      · exact Or.inr (Or.inl ⟨by rw [hread], hopen⟩)
      · simp [step, hphase, hopen, hread] at h
  | offering f final =>
      exact Or.inr (Or.inr (hfull (fun hgone => hstuck (.refuse hphase hgone))
        (fun hopen hroom => hstuck (.deliver hphase hopen hroom))))
  | recording f final => exact (hstuck (.record hphase)).elim
  | releasing outcome => exact (hstuck (.release hphase)).elim
  | reporting outcome => exact (hstuck (.report hphase)).elim
  | raising e =>
      exact Or.inr (Or.inr (hfull (fun hgone => hstuck (.withhold hphase hgone))
        (fun hopen hroom => hstuck (.raise hphase hopen hroom))))
  | leaving => exact (hstuck (.leave hphase)).elim

end Worker

end ChatRelay
