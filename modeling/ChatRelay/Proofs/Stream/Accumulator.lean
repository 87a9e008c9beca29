import ChatRelay.Proofs.Message.Grouping
import ChatRelay.Stream.Accumulator

/-!
# What an accumulator passes on

An accumulator repairs each fragment and holds back those without content.  Holding back does not
depend on repairing, nor repairing on what waits, so the two are told apart here: the repaired
fragments are cut into `batches`, each of which is concatenated and passed on (`passOn_eq`).  As
concatenation does not depend on grouping, the messages that are passed on come to the same as the
repaired fragments (`concat_passOn`).

## Main definitions

* `Accumulator.passOn` — what is passed on of a stream of fragments that ends
* `Accumulator.repaired` — the fragments as they are repaired, and the one that closes calls
* `Accumulator.batches` — consecutive fragments, each batch ending with the first that has content
-/

namespace ChatRelay

namespace Accumulator

/-- What is passed on of a stream that holds some fragments and then ends. -/
def passOn (a : Accumulator) : List Message → Result (List Message)
  | [] => a.finish.1.map Option.toList
  | f :: fs => do
    let out ← (a.push f).1
    let rest ← (a.push f).2.passOn fs
    return out.toList ++ rest

/-- The fragment that closes calls at the end of a stream, if there are any to close. -/
def closing (a : Accumulator) : List Message :=
  if a.closeCalls.2.isEmpty then [] else [{ Message.assistant "" with toolCalls := a.closeCalls.2 }]

/-- The fragments of a stream as they are repaired, and the one that closes calls at its end. -/
def repaired (a : Accumulator) : List Message → List Message
  | [] => a.closing
  | f :: fs => (a.repair f).2 :: (a.repair f).1.repaired fs

/-- Consecutive fragments after some that wait; a batch ends with the first that has content. -/
def batches (waiting : List Message) : List Message → List (List Message)
  | [] => if waiting.isEmpty then [] else [waiting]
  | f :: fs =>
    if f.isEmptyFragment then batches (waiting ++ [f]) fs else (waiting ++ [f]) :: batches [] fs

/-! ### What waits has no part in the repair -/

/-- The same accumulator with other fragments waiting. -/
def withPending (a : Accumulator) (waiting : List Message) : Accumulator :=
  { a with pending := waiting }

@[simp] theorem withPending_pending (a : Accumulator) (waiting : List Message) :
    (a.withPending waiting).pending = waiting := rfl

theorem trackCalls_withPending (a : Accumulator) (waiting : List Message) (cs : List ToolCall) :
    (a.withPending waiting).trackCalls cs =
      ((a.trackCalls cs).1.withPending waiting, (a.trackCalls cs).2) := by
  induction cs generalizing a with
  | nil => rfl
  | cons c cs ih =>
      have hstep : (a.withPending waiting).trackCall c =
          ((a.trackCall c).1.withPending waiting, (a.trackCall c).2) := rfl
      simp [trackCalls, hstep, ih]

theorem closeCalls_withPending (a : Accumulator) (waiting : List Message) :
    (a.withPending waiting).closeCalls =
      (a.closeCalls.1.withPending waiting, a.closeCalls.2) := by
  obtain ⟨last, started, arguments, emptyArguments, pending⟩ := a
  cases emptyArguments <;> rfl

theorem repair_withPending (a : Accumulator) (waiting : List Message) (f : Message) :
    (a.withPending waiting).repair f =
      ((a.repair f).1.withPending waiting, (a.repair f).2) := by
  have htrack (last : Option UInt32) (cs : List ToolCall) :
      ({ a.withPending waiting with lastIndex := last } : Accumulator).trackCalls cs =
        (({ a with lastIndex := last } : Accumulator).trackCalls cs).map
          (·.withPending waiting) id :=
    trackCalls_withPending { a with lastIndex := last } waiting cs
  unfold repair
  simp only [htrack, Prod.map, id, closeCalls_withPending]
  split <;> rfl

theorem repaired_withPending (a : Accumulator) (waiting : List Message) (fs : List Message) :
    (a.withPending waiting).repaired fs = a.repaired fs := by
  induction fs generalizing a with
  | nil => simp [repaired, closing, closeCalls_withPending]
  | cons f fs ih => simp [repaired, repair_withPending, ih]

/-- The repair of a fragment leaves those that wait alone. -/
theorem repair_pending (a : Accumulator) (f : Message) : (a.repair f).1.pending = a.pending := by
  have h := congrArg (fun p => p.1.pending) (repair_withPending a a.pending f)
  exact h

/-! ### Batches -/

/-- Batches hold all fragments, each once and in order. -/
theorem batches_flatten (waiting fs : List Message) :
    (batches waiting fs).flatten = waiting ++ fs := by
  induction fs generalizing waiting with
  | nil =>
      unfold batches
      split <;> simp_all
  | cons f fs ih =>
      unfold batches
      split
      · rw [ih, List.append_assoc, List.singleton_append]
      · rw [List.flatten_cons, ih, List.append_assoc, List.nil_append, List.singleton_append]

theorem ne_nil_of_mem_batches {waiting fs : List Message} :
    ∀ batch ∈ batches waiting fs, batch ≠ [] := by
  induction fs generalizing waiting with
  | nil =>
      intro batch h
      unfold batches at h
      split at h <;> simp_all
  | cons f fs ih =>
      intro batch h
      unfold batches at h
      split at h
      · exact ih batch h
      · rcases List.mem_cons.mp h with rfl | h
        · simp
        · exact ih batch h

theorem push_eq (a : Accumulator) (f : Message) :
    a.push f =
      if (a.repair f).2.isEmptyFragment then
        (.ok none, (a.repair f).1.withPending (a.pending ++ [(a.repair f).2]))
      else
        ((Message.concat (a.pending ++ [(a.repair f).2])).map some,
          (a.repair f).1.withPending []) := by
  have hpending := repair_pending a f
  unfold push
  cases hrepair : a.repair f with
  | mk b g =>
      rw [hrepair] at hpending
      simp only at hpending ⊢
      split
      · simp [withPending, hpending]
      · split
        · next hnil =>
          rw [hpending] at hnil
          rw [List.isEmpty_iff.mp hnil]
          have hb : b.withPending [] = b := by
            rw [List.isEmpty_iff] at hnil
            rw [← hnil, ← hpending]
            rfl
          simp [hb, Except.map]
        · simp [withPending, hpending]

theorem finish_eq (a : Accumulator) :
    a.finish.1 =
      if (a.pending ++ a.closing).isEmpty then .ok none
      else (Message.concat (a.pending ++ a.closing)).map some := by
  have hpending : a.closeCalls.1.pending = a.pending := by
    have h := congrArg (fun p => p.1.pending) (closeCalls_withPending a a.pending)
    exact h
  unfold finish closing
  simp only [hpending]
  split <;> split <;> simp_all

/-- The end of a stream makes one batch of all that waits, and none if nothing does. -/
theorem batches_closing (waiting : List Message) (a : Accumulator) :
    batches waiting a.closing =
      if (waiting ++ a.closing).isEmpty then [] else [waiting ++ a.closing] := by
  by_cases h : a.closeCalls.2 = []
  · have hclosing : a.closing = [] := by simp [closing, h]
    rw [hclosing, List.append_nil]
    rfl
  · simp [closing, batches, Message.isEmptyFragment, h]

/-- **Each batch of repaired fragments is concatenated and passed on.** -/
theorem passOn_eq (a : Accumulator) (fs : List Message) :
    a.passOn fs = (batches a.pending (a.repaired fs)).mapM Message.concat := by
  -- What waits is the batch under way: a fragment without content joins it, another ends it.
  induction fs generalizing a with
  | nil =>
      rw [passOn, finish_eq, repaired, batches_closing]
      split
      · rfl
      · cases h : Message.concat (a.pending ++ a.closing) <;>
          simp [h, Except.map, bind, Except.bind, pure, Except.pure]
  | cons f fs ih =>
      rw [passOn, push_eq, repaired, batches]
      split
      · rw [ih, withPending_pending, repaired_withPending]
        cases h : List.mapM Message.concat _ <;> simp [bind, Except.bind, pure, Except.pure]
      · rw [ih, withPending_pending, repaired_withPending, List.mapM_cons]
        cases h : Message.concat (a.pending ++ [(a.repair f).2]) <;>
          simp [Except.map, bind, Except.bind]

/-- Neither the repair nor the closing of calls has a part in what is reported. -/
theorem filterMap_usage?_repaired (a : Accumulator) (fs : List Message) :
    (a.repaired fs).filterMap Message.usage? = fs.filterMap Message.usage? := by
  induction fs generalizing a with
  | nil =>
      unfold repaired closing
      split <;> rfl
  | cons f fs ih =>
      have husage : (a.repair f).2.usage? = f.usage? := by
        unfold repair
        simp only
        split <;> rfl
      rw [repaired, List.filterMap_cons, husage, ih, ← List.filterMap_cons]

/-- **What is passed on comes to the same as the repaired fragments,** if nothing was waiting: for all
but the total of the counts in any case, and for that too where no sum of counts wraps around. -/
theorem concat_passOn {a : Accumulator} (hpending : a.pending = []) (fs : List Message) :
    ((∃ out m, a.passOn fs = .ok out ∧ Message.concat out = .ok m) ↔
      ∃ m, Message.concat (a.repaired fs) = .ok m) ∧
    ∀ out m m', a.passOn fs = .ok out → Message.concat out = .ok m →
      Message.concat (a.repaired fs) = .ok m' →
        Message.AgreesWhen (TokenUsage.SumsFit (fs.filterMap Message.usage?)) m m' := by
  have hflatten : (batches [] (a.repaired fs)).flatten = a.repaired fs := batches_flatten ..
  rw [← filterMap_usage?_repaired a fs, passOn_eq, hpending]
  by_cases h : batches [] (a.repaired fs) = []
  · -- Nothing is passed on then, and nothing was there.
    rw [h] at hflatten ⊢
    rw [← hflatten]
    constructor
    · constructor
      · rintro ⟨_, m, hout, hm⟩
        cases hout
        exact ⟨m, hm⟩
      · rintro ⟨m, hm⟩
        exact ⟨[], m, rfl, hm⟩
    · intro out m m' hout hm hm'
      cases hout
      cases hm
  · have hgroups := Message.concat_flatten h ne_nil_of_mem_batches
    rwa [hflatten] at hgroups

/-- Something is passed on if anything was waiting or came. -/
theorem passOn_eq_nil_iff {a : Accumulator} {fs out : List Message}
    (h : a.passOn fs = .ok out) : out = [] ↔ a.pending = [] ∧ a.repaired fs = [] := by
  rw [passOn_eq, Result.mapM_eq_ok_iff_forall₂] at h
  have hbatches : batches a.pending (a.repaired fs) = [] ↔
      a.pending = [] ∧ a.repaired fs = [] := by
    rw [← List.append_eq_nil_iff, ← batches_flatten, List.flatten_eq_nil_iff]
    constructor
    · simp_all
    · intro hall
      refine List.eq_nil_iff_forall_not_mem.mpr fun batch hbatch => ?_
      exact ne_nil_of_mem_batches batch hbatch (hall batch hbatch)
  rw [← hbatches]
  constructor
  · rintro rfl
    exact List.forall₂_nil_right_iff.mp h
  · intro hnil
    rw [hnil] at h
    exact List.forall₂_nil_left_iff.mp h

/-- A stream without fragments and without calls to close passes nothing on. -/
theorem passOn_of_repaired_eq_nil {a : Accumulator} {fs : List Message} (hpending : a.pending = [])
    (hrepaired : a.repaired fs = []) : a.passOn fs = .ok [] := by
  rw [passOn_eq, hpending, hrepaired]
  rfl

end Accumulator

end ChatRelay
