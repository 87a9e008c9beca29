import ChatRelay.Proofs.Stream.Delivery

/-!
# Collecting a stream

A consumer collects a stream: it takes one item after the other, stops at the first error, and
merges the fragments when the stream is at its end.  Worker and consumer take turns in any order,
and somebody who holds a handle may cancel in between.

Every turn either changes nothing or brings the collecting closer to its end
(`take_eq_or_potential_lt`), and where neither the worker nor the consumer can change anything, all
is done, or a read never returns (`isComplete_of_stuck`).  So under every schedule that keeps giving
turns to both of them the collecting completes (`exists_complete`).

What the consumer ends with is what the handlers were told, unless the stream was cancelled
(`concluded`).  The collecting of a session is one of these schedules
(`Session.exists_collect`).

## Main definitions

* `Collection.Turn`, `Collection` — who has a turn, and where the collecting stands
* `Collection.take`, `Collection.after`, `Collection.upTo` — a turn, some turns, a schedule
* `Collection.potential` — what is still to be done at most
* `IsFair` — a schedule that keeps giving turns to worker and consumer
-/

namespace ChatRelay

/-- A stream and the consumer who collects it. -/
structure Collection where
  worker : Worker
  fragments : List Message := []
  result : Option (Result Message) := none

namespace Collection

/-- Who has a turn. -/
inductive Turn where
  | work
  /-- The consumer takes an item, unless there is none yet. -/
  | read
  /-- Somebody with a handle cancels. -/
  | cancel
deriving DecidableEq, Repr

/-- The move of a stream in such a turn, while the consumer has no result. -/
def Turn.move : Turn → Move
  | .work => .work
  | .read => .receive
  | .cancel => .cancel

/-- The consumer has its result, and drops its end. -/
def conclude (k : Collection) (r : Result Message) : Collection :=
  { k with worker := k.worker.take .drop, result := some r }

/-- The consumer takes an item, unless it has its result. -/
def read (k : Collection) : Collection :=
  match k.result with
  | some _ => k
  | none =>
    match k.worker.channel.receive.1 with
    | .item (.ok f) =>
      { k with worker := k.worker.take .receive, fragments := k.fragments ++ [f] }
    | .item (.error e) => { k with worker := k.worker.take .receive }.conclude (.error e)
    | .ended => k.conclude (Message.ofItems (k.fragments.map .ok))
    | .blocked => k

/-- What a turn leaves. -/
def take (k : Collection) : Turn → Collection
  | .work => { k with worker := k.worker.take .work }
  | .read => k.read
  | .cancel => { k with worker := k.worker.take .cancel }

/-- What some turns leave. -/
def after (k : Collection) (ts : List Turn) : Collection :=
  ts.foldl take k

/-- What the first turns of a schedule leave. -/
def upTo (k : Collection) (σ : ℕ → Turn) (n : ℕ) : Collection :=
  k.after ((List.range n).map σ)

/-- The consumer has its result, and the worker has finished. -/
def IsComplete (k : Collection) : Prop :=
  k.result ≠ none ∧ k.worker.phase = .finished

variable {k : Collection}

theorem after_append (k : Collection) (ts us : List Turn) :
    k.after (ts ++ us) = (k.after ts).after us :=
  List.foldl_append

theorem after_concat (k : Collection) (ts : List Turn) (t : Turn) :
    k.after (ts ++ [t]) = (k.after ts).take t := by
  rw [after_append]
  rfl

theorem upTo_succ (k : Collection) (σ : ℕ → Turn) (n : ℕ) :
    k.upTo σ (n + 1) = (k.upTo σ n).take (σ n) := by
  rw [upTo, List.range_succ, List.map_append]
  exact k.after_concat _ _

theorem exists_upTo_eq (k : Collection) (σ : ℕ → Turn) {n m : ℕ} (h : n ≤ m) :
    ∃ ts, k.upTo σ m = (k.upTo σ n).after ts := by
  induction m, h using Nat.le_induction with
  | base => exact ⟨[], rfl⟩
  | succ m hm ih =>
      obtain ⟨ts, hts⟩ := ih
      exact ⟨ts ++ [σ m], by rw [upTo_succ, hts, after_concat]⟩

/-! ### One turn -/

theorem read_of_result {r : Result Message} (h : k.result = some r) : k.read = k := by
  rw [read, h]

/-- What the consumer does in its turn. -/
theorem read_cases (h : k.result = none) :
    (∃ f, k.worker.channel.receive.1 = .item (.ok f) ∧
      k.read = { k with worker := k.worker.take .receive, fragments := k.fragments ++ [f] }) ∨
    (∃ e, k.worker.channel.receive.1 = .item (.error e) ∧
      k.read = { k with worker := k.worker.take .receive }.conclude (.error e)) ∨
    (k.worker.channel.receive.1 = .ended ∧
      k.read = k.conclude (Message.ofItems (k.fragments.map .ok))) ∨
    k.worker.channel.receive.1 = .blocked ∧ k.read = k := by
  unfold read
  rw [h]
  simp only
  split
  · next f hitem => exact Or.inl ⟨f, hitem, rfl⟩
  · next e hitem => exact Or.inr (Or.inl ⟨e, hitem, rfl⟩)
  · next hended => exact Or.inr (Or.inr (Or.inl ⟨hended, rfl⟩))
  · next hblocked => exact Or.inr (Or.inr (Or.inr ⟨hblocked, rfl⟩))

/-- How the consumer comes to its result. -/
theorem read_concludes {r : Result Message} (h : k.result = none) (hread : k.read.result = some r) :
    (∃ e, k.worker.channel.receive.1 = .item (.error e) ∧ r = .error e ∧
      k.read = { k with worker := k.worker.take .receive }.conclude (.error e)) ∨
    (k.worker.channel.receive.1 = .ended ∧ r = Message.ofItems (k.fragments.map .ok) ∧
      k.read = k.conclude r) := by
  rcases read_cases h with ⟨f, -, hcase⟩ | ⟨e, hitem, hcase⟩ | ⟨hended, hcase⟩ | ⟨-, hcase⟩
  · rw [hcase] at hread
    change k.result = some r at hread
    rw [h] at hread
    cases hread
  · rw [hcase] at hread
    cases hread
    exact Or.inl ⟨e, hitem, rfl, hcase⟩
  · rw [hcase] at hread
    cases hread
    exact Or.inr ⟨hended, rfl, hcase⟩
  · rw [hcase, h] at hread
    cases hread

/-- A turn is some moves of the stream. -/
theorem exists_take_eq (k : Collection) (t : Turn) :
    ∃ ms, (k.take t).worker = k.worker.after ms := by
  cases t with
  | work => exact ⟨[.work], rfl⟩
  | cancel => exact ⟨[.cancel], rfl⟩
  | read =>
      show ∃ ms, k.read.worker = k.worker.after ms
      cases hresult : k.result with
      | some r =>
          rw [read_of_result hresult]
          exact ⟨[], rfl⟩
      | none =>
          rcases read_cases hresult with ⟨f, -, h⟩ | ⟨e, -, h⟩ | ⟨-, h⟩ | ⟨-, h⟩ <;> rw [h]
          · exact ⟨[.receive], rfl⟩
          · exact ⟨[.receive, .drop], rfl⟩
          · exact ⟨[.drop], rfl⟩
          · exact ⟨[], rfl⟩

theorem exists_after_eq (k : Collection) (ts : List Turn) :
    ∃ ms, (k.after ts).worker = k.worker.after ms := by
  induction ts generalizing k with
  | nil => exact ⟨[], rfl⟩
  | cons t ts ih =>
      obtain ⟨ms, hms⟩ := k.exists_take_eq t
      obtain ⟨ns, hns⟩ := ih (k.take t)
      refine ⟨ms ++ ns, ?_⟩
      rw [Worker.after_append, ← hms]
      exact hns

/-! ### Progress -/

/-- What is still to be done at most.  A step of the worker may put an item into the channel, so it
counts twice. -/
def potential (k : Collection) : ℕ :=
  2 * k.worker.measure + k.worker.channel.queue.length +
    k.result.isNone.toNat + (!k.worker.channel.cancelled).toNat

theorem potential_work_lt (h : k.worker.Step (k.worker.take .work)) :
    (k.take .work).potential < k.potential := by
  obtain ⟨hqueue, -⟩ := Worker.channel_of_step h
  have hmeasure := Worker.measure_lt_of_step (Worker.step_eq_some_iff.mpr h)
  have hitem : ((k.worker.accepted? .work).toList).length ≤ 1 := by
    cases k.worker.accepted? .work <;> simp
  simp only [potential, take, Worker.cancelled_of_step h, hqueue, List.length_append]
  omega

theorem potential_conclude_lt (h : k.result = none) (r : Result Message) :
    (k.conclude r).potential < k.potential := by
  have hbefore : 2 * k.worker.measure + 1 ≤ k.potential := by
    simp only [potential, h, Option.isNone_none, Bool.toNat_true]
    omega
  have hafter : (k.conclude r).potential = 2 * k.worker.measure := rfl
  omega

/-- Who takes an item leaves one less. -/
theorem potential_receive_lt {item : Result Message}
    (hitem : k.worker.channel.receive.1 = .item item) (fragments : List Message) :
    ({ k with worker := k.worker.take .receive, fragments } : Collection).potential <
      k.potential := by
  obtain ⟨rest, hqueue⟩ := Channel.receive_eq_item_iff.mp hitem
  have hmeasure : (k.worker.take .receive).measure = k.worker.measure := rfl
  have hrest : (k.worker.take .receive).channel.queue = rest := by
    rw [Worker.take, Channel.receive_of_cons hqueue]
  simp only [potential, hmeasure, hrest, hqueue, k.worker.cancelled_receive, List.length_cons]
  omega

/-- **Every turn changes nothing or brings the end closer.** -/
theorem take_eq_or_potential_lt (k : Collection) (t : Turn) :
    k.take t = k ∨ (k.take t).potential < k.potential := by
  cases t with
  | work =>
      rcases k.worker.work_cases with ⟨-, htake⟩ | hstep
      · left
        show { k with worker := k.worker.take .work } = k
        rw [htake]
      · exact Or.inr (potential_work_lt hstep)
  | cancel =>
      cases hcancelled : k.worker.channel.cancelled with
      | true =>
          left
          show { k with worker := { k.worker with channel := k.worker.channel.cancel } } = k
          have hsame : k.worker.channel.cancel = k.worker.channel := by
            rw [Channel.cancel, ← hcancelled]
          rw [hsame]
      | false =>
          right
          have hmeasure : (k.worker.take .cancel).measure = k.worker.measure := rfl
          have hqueue : (k.worker.take .cancel).channel.queue = k.worker.channel.queue := rfl
          have hnow : (k.worker.take .cancel).channel.cancelled = true := rfl
          simp only [potential, take, hmeasure, hqueue, hnow, hcancelled, Bool.not_true,
            Bool.not_false, Bool.toNat_true, Bool.toNat_false]
          omega
  | read =>
      cases hresult : k.result with
      | some r => exact Or.inl (read_of_result hresult)
      | none =>
          rcases read_cases hresult with ⟨f, hitem, h⟩ | ⟨e, hitem, h⟩ | ⟨hended, h⟩ | ⟨-, h⟩
          · right
            show k.read.potential < k.potential
            rw [h]
            exact potential_receive_lt hitem _
          · right
            show k.read.potential < k.potential
            rw [h]
            exact (potential_conclude_lt (k := { k with worker := k.worker.take .receive })
              hresult _).trans (potential_receive_lt hitem k.fragments)
          · right
            show k.read.potential < k.potential
            rw [h]
            exact potential_conclude_lt hresult _
          · exact Or.inl h

/-! ### Schedules -/

/-- The worker and the consumer have a turn again and again. -/
def IsFair (σ : ℕ → Turn) : Prop :=
  ∀ n, (∃ m ≥ n, σ m = .work) ∧ ∃ m ≥ n, σ m = .read

/-- **A schedule comes to rest,** and if it is fair, then where neither worker nor consumer can do
anything. -/
theorem exists_rest (k : Collection) {σ : ℕ → Turn} (hfair : IsFair σ) :
    ∃ n, (∀ m ≥ n, k.upTo σ m = k.upTo σ n) ∧ (k.upTo σ n).take .work = k.upTo σ n ∧
      (k.upTo σ n).take .read = k.upTo σ n := by
  -- Where the potential is least, no turn changes anything any more.
  let n := Function.argmin fun n => (k.upTo σ n).potential
  have hleast (m : ℕ) : (k.upTo σ n).potential ≤ (k.upTo σ m).potential :=
    Function.argmin_le (fun n => (k.upTo σ n).potential) m
  have hrest : ∀ m ≥ n, k.upTo σ m = k.upTo σ n := by
    intro m hm
    induction m, hm using Nat.le_induction with
    | base => rfl
    | succ m hm ih =>
        rcases (k.upTo σ m).take_eq_or_potential_lt (σ m) with hsame | hlt
        · rw [upTo_succ, hsame, ih]
        · have hle := hleast (m + 1)
          rw [← upTo_succ, ih] at hlt
          omega
  have hturn {t : Turn} (ht : ∃ m ≥ n, σ m = t) : (k.upTo σ n).take t = k.upTo σ n := by
    obtain ⟨m, hm, rfl⟩ := ht
    rw [← hrest m hm, ← upTo_succ, hrest (m + 1) (Nat.le_succ_of_le hm)]
    exact (hrest m hm).symm
  exact ⟨n, hrest, hturn (hfair n).1, hturn (hfair n).2⟩

/-! ### While the consumer has no result -/

/-- A result stays. -/
theorem result_take {r : Result Message} (h : k.result = some r) (t : Turn) :
    (k.take t).result = some r := by
  cases t with
  | work => exact h
  | cancel => exact h
  | read =>
      show k.read.result = some r
      rw [read_of_result h, h]

theorem result_of_take {t : Turn} (h : (k.take t).result = none) : k.result = none := by
  cases hresult : k.result with
  | none => rfl
  | some r =>
      rw [result_take hresult t] at h
      cases h

/-- As long as the consumer has no result, each turn is a move of the stream, and the consumer keeps
what it receives. -/
theorem take_of_running {t : Turn} (h : (k.take t).result = none) :
    (k.take t).worker = k.worker.take t.move ∧
    (k.take t).fragments.map .ok =
      k.fragments.map .ok ++ (k.worker.received? t.move).toList := by
  cases t with
  | work => exact ⟨rfl, (List.append_nil _).symm⟩
  | cancel => exact ⟨rfl, (List.append_nil _).symm⟩
  | read =>
      have hresult := result_of_take h
      change k.read.result = none at h
      show k.read.worker = k.worker.take .receive ∧ k.read.fragments.map .ok =
        k.fragments.map .ok ++ (k.worker.received? .receive).toList
      rcases read_cases hresult with ⟨f, hitem, hread⟩ | ⟨e, -, hread⟩ | ⟨-, hread⟩ |
        ⟨hblocked, hread⟩
      · rw [hread, Worker.received?, hitem]
        exact ⟨rfl, List.map_append⟩
      · rw [hread] at h
        cases h
      · rw [hread] at h
        cases h
      · -- Nothing is there to be received.
        obtain ⟨hqueue, hopen⟩ := Channel.receive_eq_blocked_iff.mp hblocked
        rw [hread, Worker.received?, Worker.take, Channel.receive_of_nil hqueue, hopen]
        exact ⟨rfl, (List.append_nil _).symm⟩

/-- A consumer that collects keeps its end until it has its result. -/
theorem move_ne_of_mem (ts : List Turn) :
    ∀ m ∈ ts.map Turn.move, m ≠ .close ∧ m ≠ .drop := by
  intro m hm
  obtain ⟨t, -, rfl⟩ := List.mem_map.mp hm
  cases t <;> simp [Turn.move]

/-- What the turns of a running collection leave. -/
theorem after_of_running {ts : List Turn} (h : (k.after ts).result = none) :
    (k.after ts).worker = k.worker.after (ts.map Turn.move) ∧
    (k.after ts).fragments.map .ok =
      k.fragments.map .ok ++ k.worker.received (ts.map Turn.move) := by
  induction ts using List.reverseRecOn with
  | nil => exact ⟨rfl, (List.append_nil _).symm⟩
  | append_singleton ts t ih =>
      rw [after_concat] at h ⊢
      obtain ⟨hworker, hfragments⟩ := ih (result_of_take h)
      obtain ⟨hworker', hfragments'⟩ := take_of_running h
      have hmoves : (ts ++ [t]).map Turn.move = ts.map Turn.move ++ [t.move] := List.map_append
      rw [hmoves, Worker.received_concat, Worker.after_append, hworker', hfragments', hworker,
        hfragments, List.append_assoc]
      exact ⟨rfl, rfl⟩

/-- A result comes in a turn of the consumer. -/
theorem exists_read_of_result {ts : List Turn} {r : Result Message} (hk : k.result = none)
    (h : (k.after ts).result = some r) : ∃ before later, ts = before ++ .read :: later ∧
      (k.after before).result = none ∧ (k.after before).read.result = some r := by
  induction ts using List.reverseRecOn with
  | nil =>
      have hnone : (k.after []).result = none := hk
      rw [hnone] at h
      cases h
  | append_singleton ts t ih =>
      cases hresult : (k.after ts).result with
      | none =>
          rw [after_concat] at h
          cases t with
          | read => exact ⟨ts, [], rfl, hresult, h⟩
          | work =>
              change (k.after ts).result = some r at h
              rw [hresult] at h
              cases h
          | cancel =>
              change (k.after ts).result = some r at h
              rw [hresult] at h
              cases h
      | some r' =>
          obtain rfl : r' = r := by
            rw [after_concat, result_take hresult t] at h
            exact Option.some.inj h
          obtain ⟨before, later, rfl, hbefore⟩ := ih hresult
          exact ⟨before, later ++ [t], by simp, hbefore⟩

/-! ### Completion -/

/-- A collection of a stream that has just been opened. -/
def start (v : Vendor) (c : StreamConfig) (source : List SourceStep) : Collection where
  worker := .start v c source

theorem cancelled_after_of_cancelled (h : k.worker.channel.cancelled = true) (ts : List Turn) :
    (k.after ts).worker.channel.cancelled = true := by
  obtain ⟨ms, hms⟩ := k.exists_after_eq ts
  rw [hms]
  exact Worker.cancelled_after_of_cancelled h ms

/-- Who has a result has left, so the stream is cancelled. -/
theorem cancelled_of_result {ts : List Turn} {r : Result Message} (hk : k.result = none)
    (h : (k.after ts).result = some r) : (k.after ts).worker.channel.cancelled = true := by
  obtain ⟨before, later, rfl, hrunning, hread⟩ := exists_read_of_result hk h
  rw [after_append]
  refine cancelled_after_of_cancelled (k := (k.after before).read) ?_ later
  rcases read_concludes hrunning hread with ⟨e, -, -, h⟩ | ⟨-, -, h⟩ <;> rw [h] <;> rfl

/-- A consumer that waits finds an empty channel whose writer is still there. -/
theorem waits_of_read (hresult : k.result = none) (hread : k.take .read = k) :
    k.worker.channel.queue = [] ∧ k.worker.channel.writerOpen = true := by
  change k.read = k at hread
  rcases read_cases hresult with ⟨f, hitem, h⟩ | ⟨e, -, h⟩ | ⟨-, h⟩ | ⟨hblocked, -⟩
  · have hlt := potential_receive_lt hitem (k.fragments ++ [f])
    rw [← h, hread] at hlt
    exact absurd hlt (lt_irrefl _)
  · rw [hread] at h
    rw [h] at hresult
    cases hresult
  · rw [hread] at h
    rw [h] at hresult
    cases hresult
  · exact Channel.receive_eq_blocked_iff.mp hblocked

/-- **Where neither the worker nor the consumer can do anything, all is done,** or a read never
returns and nobody has cancelled. -/
theorem isComplete_of_stuck (hroom : 0 < k.worker.channel.capacity)
    (hwriter : k.worker.channel.writerOpen = false ↔ k.worker.phase = .finished)
    (hleft : ∀ r, k.result = some r → k.worker.channel.cancelled = true)
    (hwork : k.take .work = k) (hread : k.take .read = k) :
    k.IsComplete ∨
      k.worker.phase = .awaiting (some .silence) ∧ k.worker.channel.cancelled = false := by
  have hwait : k.worker.step = none := by
    rcases k.worker.work_cases with ⟨hwait, -⟩ | hstep
    · exact hwait
    · exact absurd (congrArg potential hwork) (potential_work_lt hstep).ne
  rcases Worker.stuck_cases hwait with hfinished | hsilent | ⟨hopen, hfull⟩
  · left
    refine ⟨fun hresult => ?_, hfinished⟩
    have hgone := hwriter.mpr hfinished
    rw [(waits_of_read hresult hread).2] at hgone
    cases hgone
  · exact Or.inr hsilent
  · exfalso
    cases hresult : k.result with
    | none =>
        rw [(waits_of_read hresult hread).1] at hfull
        exact absurd hroom (Nat.not_lt.mpr hfull)
    | some r => simp [Channel.isAbandoned, hleft r hresult] at hopen

variable (v : Vendor) (c : StreamConfig) (source : List SourceStep)

/-- **Collecting completes under every fair schedule,** unless a read never returns and nobody
cancels. -/
theorem exists_complete {σ : ℕ → Turn} (hfair : IsFair σ)
    (hends : (Worker.start v c source).whole.outcome ≠ none ∨ ∃ n, σ n = .cancel) :
    ∃ n, ∀ m ≥ n, ((start v c source).upTo σ m).IsComplete := by
  obtain ⟨n, hrest, hwork, hread⟩ := (start v c source).exists_rest hfair
  suffices hcomplete : ((start v c source).upTo σ n).IsComplete by
    refine ⟨n, fun m hm => ?_⟩
    rw [hrest m hm]
    exact hcomplete
  obtain ⟨ms, hms⟩ := (start v c source).exists_after_eq ((List.range n).map σ)
  have hledger := Worker.ledger_after v c source ms
  change ((start v c source).upTo σ n).worker = (Worker.start v c source).after ms at hms
  rw [← hms] at hledger
  rcases isComplete_of_stuck hledger.room hledger.writer
    (fun r hresult => cancelled_of_result rfl hresult) hwork hread with
    hcomplete | ⟨hsilent, hopen⟩
  · exact hcomplete
  · exfalso
    rcases hends with hends | ⟨j, hj⟩
    · have hplan := ((Worker.balances_of_isReading (Or.inr ⟨_, hsilent⟩)).mp hledger.balances).1
      rw [hplan, Worker.whole_outcome_of_silence hsilent] at hends
      exact hends rfl
    · -- The cancellation is seen where the schedule has come to rest.
      have hcancelled : ((start v c source).upTo σ (j + 1)).worker.channel.cancelled = true := by
        rw [upTo_succ, hj]
        rfl
      obtain ⟨ts, hts⟩ := (start v c source).exists_upTo_eq σ (le_max_right n (j + 1))
      have hlater := cancelled_after_of_cancelled hcancelled ts
      rw [← hts, hrest _ (le_max_left n (j + 1)), hopen] at hlater
      cases hlater

/-! ### Results -/

/-- The consumer ends with what was reported: it gets the error, or merges what was forwarded. -/
def Agrees (plan : Course) (w : Worker) (r : Result Message) : Prop :=
  ∃ outcome, plan = ⟨w.forwarded, some outcome⟩ ∧ w.endings = [w.endingOf outcome] ∧
    ((∃ e, w.endingOf outcome = .error e ∧ r = .error e) ∨
      (∃ m, w.endingOf outcome = .ok m) ∧ r = Message.ofItems (w.forwarded.map .ok))

/-- Somebody cancelled, and the consumer merges what was forwarded by then. -/
def IsCut (plan : Course) (w : Worker) (r : Result Message) : Prop :=
  ∃ outcome, (plan = ⟨w.forwarded, some outcome⟩ ∨ outcome = .cancelled) ∧
    w.endings = [w.endingOf outcome] ∧ w.forwarded <+: plan.outputs ∧
    r = Message.ofItems (w.forwarded.map .ok)

/-- The message of fragments among which there is no error. -/
theorem ofItems_map_ok (fragments : List Message) :
    Message.ofItems (fragments.map .ok) =
      if fragments.isEmpty then
        .error (.runtime "stream ended without any fragment" { source := some "message_stream" })
      else Message.concat fragments := by
  have hall : (fragments.map .ok).mapM id = (.ok fragments : Result (List Message)) := by
    induction fragments with
    | nil => rfl
    | cons f fragments ih =>
        rw [List.map_cons, List.mapM_cons, ih]
        rfl
  rw [Message.ofItems, hall]
  rfl

/-- Unless nothing was forwarded, the consumer ends with what was reported. -/
theorem Agrees.endings_eq {plan : Course} {w : Worker} {r : Result Message} (h : Agrees plan w r)
    (hsome : ¬ (w.forwarded = [] ∧ plan.outcome = some .completed)) : w.endings = [r] := by
  obtain ⟨outcome, rfl, hendings, ⟨e, hending, rfl⟩ | ⟨⟨m, hending⟩, rfl⟩⟩ := h
  · rw [hendings, hending]
  · have hreported := hending
    rw [Worker.endingOf_eq] at hreported
    obtain ⟨rfl, hcollected⟩ := Vendor.endingOf_eq_ok_iff.mp hreported
    have hne : ¬ w.forwarded.isEmpty = true := by
      intro hempty
      exact hsome ⟨List.isEmpty_iff.mp hempty, rfl⟩
    rw [Vendor.collected, if_neg hne] at hcollected
    rw [hendings, hending, ofItems_map_ok, if_neg hne, hcollected]

/-- Where nothing was forwarded, a good end was reported, but the consumer has no message. -/
theorem Agrees.of_nothing {plan : Course} {w : Worker} {r : Result Message} (h : Agrees plan w r)
    (hnothing : w.forwarded = []) (hcompleted : plan.outcome = some .completed) :
    w.endings = [.ok (.assistant "")] ∧
      r = .error (.runtime "stream ended without any fragment"
        { source := some "message_stream" }) := by
  obtain ⟨outcome, rfl, hendings, hresult⟩ := h
  cases hcompleted
  have hending : w.endingOf .completed = .ok (.assistant "") := by
    rw [Worker.endingOf_eq, hnothing]
    rfl
  rw [hending] at hendings hresult
  refine ⟨hendings, ?_⟩
  rcases hresult with ⟨e, he, -⟩ | ⟨-, hresult⟩
  · cases he
  · rw [hresult, hnothing]
    rfl

/-- An error that was reported has its cause in the source or in a single step. -/
theorem Agrees.exists_cause {w : Worker} {policy : MalformedChunks} {a : Accumulator}
    {source : List SourceStep} {r : Result Message} {e : Error}
    (h : Agrees (w.vendor.course policy a source) w r) (he : w.endings = [.error e]) :
    ∃ cause, e = cause.withComponent w.vendor.typeName "stream" ∧
      (.failure cause ∈ source ∨ cause.IsPlain) := by
  obtain ⟨outcome, hplan, hendings, -⟩ := h
  have hending : w.endingOf outcome = .error e := by
    rw [hendings] at he
    exact List.head_eq_of_cons_eq he
  rw [Worker.endingOf_eq] at hending
  exact Vendor.exists_cause (congrArg Course.outcome hplan) hending

/-- Fragments before an error are told by the list. -/
theorem eq_of_append_error {fs gs : List Message} {e e' : Error} {rest : List (Result Message)}
    (h : fs.map .ok ++ .error e :: rest = gs.map .ok ++ [.error e']) : fs = gs ∧ e = e' := by
  induction fs generalizing gs with
  | nil =>
      cases gs with
      | nil => simpa using And.left (List.cons.inj h)
      | cons g gs => cases (List.cons.inj h).1
  | cons f fs ih =>
      cases gs with
      | nil => cases (List.cons.inj h).1
      | cons g gs =>
          obtain ⟨hhead, htail⟩ := List.cons.inj h
          obtain ⟨rfl, he⟩ := ih htail
          cases hhead
          exact ⟨rfl, he⟩

theorem map_ok_injective : Function.Injective (List.map (Except.ok : Message → Result Message)) :=
  List.map_injective_iff.mpr fun _ _ h => Except.ok.inj h

theorem vendor_after (ts : List Turn) : ((start v c source).after ts).worker.vendor = v := by
  obtain ⟨ms, hms⟩ := (start v c source).exists_after_eq ts
  rw [hms]
  exact (Worker.ledger_after v c source ms).vendor

/-- While nobody cancels, the stream is not abandoned before the consumer has its result. -/
theorem cancel_mem_of_isAbandoned {ts : List Turn}
    (hrunning : ((start v c source).after ts).result = none)
    (hgone : ((start v c source).after ts).worker.channel.isAbandoned = true) : .cancel ∈ ts := by
  by_contra hkept
  have hstays : ∀ m ∈ ts.map Turn.move, m = .work ∨ m = .receive := by
    intro m hm
    obtain ⟨t, ht, rfl⟩ := List.mem_map.mp hm
    cases t with
    | work => exact Or.inl rfl
    | read => exact Or.inr rfl
    | cancel => exact absurd ht hkept
  rw [(after_of_running hrunning).1, Worker.isAbandoned_after hstays] at hgone
  cases hgone

/-- What the consumer ends with, where its result comes. -/
theorem concluded_at {ts : List Turn} {r : Result Message}
    (hrunning : ((start v c source).after ts).result = none)
    (hread : ((start v c source).after ts).read.result = some r) :
    ((start v c source).after ts).worker.phase.reports ≠ 0 ∧
      ((start v c source).after ts).fragments =
        ((start v c source).after ts).worker.forwarded ∧
      (Agrees (Worker.start v c source).whole ((start v c source).after ts).worker r ∨
        .cancel ∈ ts ∧
          IsCut (Worker.start v c source).whole ((start v c source).after ts).worker r) := by
  have hgone := cancel_mem_of_isAbandoned v c source hrunning
  obtain ⟨hworker, hfragments⟩ := after_of_running hrunning
  have hledger := Worker.ledger_after v c source (ts.map Turn.move)
  have hreader := Worker.readerOpen_after (move_ne_of_mem ts) (start v c source).worker
  change _ = (Worker.start v c source).after _ at hworker
  change _ = [] ++ (Worker.start v c source).received _ at hfragments
  rw [← hworker] at hledger
  have haccepted := hledger.received_eq (by rw [hworker]; exact hreader)
  rw [← List.nil_append (Worker.received _ _), ← hfragments] at haccepted
  have hbalances := hledger.balances
  rw [← haccepted] at hbalances
  generalize (start v c source).after ts = k at *
  rcases read_concludes hrunning hread with ⟨e, hitem, rfl, -⟩ | ⟨hended, rfl, -⟩
  · obtain ⟨rest, hqueue⟩ := Channel.receive_eq_item_iff.mp hitem
    rw [hqueue] at hbalances
    obtain ⟨outcome, hplan, hendings, hending, haccepted, hreports⟩ :=
      hbalances.of_mem_accepted (e := e) (by simp)
    exact ⟨hreports, (eq_of_append_error haccepted).1,
      Or.inl ⟨outcome, hplan, hendings, Or.inl ⟨e, hending, rfl⟩⟩⟩
  · obtain ⟨hqueue, hclosed⟩ := Channel.receive_eq_ended_iff.mp hended
    have hfinished := hledger.writer.mp hclosed
    rw [hqueue, List.append_nil] at hbalances
    have hreports : k.worker.phase.reports ≠ 0 := by
      rw [hfinished]
      exact one_ne_zero
    obtain ⟨outcome, hendings, ⟨hplan, -, haccepted⟩ | ⟨hplan, hleft, haccepted⟩⟩ :=
      hbalances.leaves hfinished
    · cases hending : k.worker.endingOf outcome with
      | ok m =>
          rw [hending] at haccepted
          have hall : k.fragments = k.worker.forwarded :=
            map_ok_injective (haccepted.trans (List.append_nil _))
          exact ⟨hreports, hall, Or.inl ⟨outcome, hplan, hendings,
            Or.inr ⟨⟨m, hending⟩, by rw [hall]⟩⟩⟩
      | error e =>
          have hmem : (.error e : Result Message) ∈ k.fragments.map .ok := by
            rw [haccepted, hending]
            exact List.mem_append_right _ (List.mem_singleton_self _)
          simp at hmem
    · have hall : k.fragments = k.worker.forwarded := map_ok_injective haccepted
      exact ⟨hreports, hall, Or.inr ⟨hgone hleft.1, outcome, hplan, hendings,
        hleft.2.1.trans hleft.2.2, by rw [hall]⟩⟩

/-- Who has a result takes no item any more. -/
theorem fragments_after_of_result {r : Result Message} (h : k.result = some r) (ts : List Turn) :
    (k.after ts).fragments = k.fragments := by
  induction ts generalizing k with
  | nil => rfl
  | cons t ts ih =>
      refine (ih (k := k.take t) (result_take h t)).trans ?_
      cases t with
      | work => rfl
      | cancel => rfl
      | read =>
          show k.read.fragments = k.fragments
          rw [read_of_result h]

/-- **What the consumer ends with is what was reported,** unless somebody cancelled; then it may be
what was forwarded by then. -/
theorem concluded {ts : List Turn} {r : Result Message}
    (h : ((start v c source).after ts).result = some r) :
    ((start v c source).after ts).fragments = ((start v c source).after ts).worker.forwarded ∧
      (Agrees (Worker.start v c source).whole ((start v c source).after ts).worker r ∨
        .cancel ∈ ts ∧
          IsCut (Worker.start v c source).whole ((start v c source).after ts).worker r) := by
  obtain ⟨before, later, rfl, hrunning, hread⟩ := exists_read_of_result rfl h
  obtain ⟨hreports, hall, hresult⟩ := concluded_at v c source hrunning hread
  -- What the consumer and the worker do after the result changes nothing of what it is made of.
  have hlater : (start v c source).after (before ++ .read :: later) =
      ((start v c source).after before).read.after later := after_append _ _ _
  generalize (start v c source).after before = k at *
  have hfragments : (k.read.after later).fragments = k.fragments := by
    rw [fragments_after_of_result hread later]
    rcases read_concludes hrunning hread with ⟨e, -, -, h⟩ | ⟨-, -, h⟩ <;> rw [h] <;> rfl
  obtain ⟨ms, hms⟩ := k.exists_after_eq (.read :: later)
  change (k.read.after later).worker = _ at hms
  obtain ⟨hforwarded, hendings, hending⟩ := Worker.reported_after hreports ms
  rw [hlater, hfragments, hms]
  unfold Agrees IsCut at hresult ⊢
  rw [hforwarded, hendings, hending]
  exact ⟨hall, hresult.imp_right fun h => ⟨List.mem_append_left _ h.1, h.2⟩⟩

end Collection

/-! ### The collecting of a session -/

namespace Session

open Collection

/-- The worker does all that it can in some turns of its own. -/
theorem exists_after_runFor (n : ℕ) (k : Collection) :
    ∃ m, k.after (List.replicate m .work) = { k with worker := Worker.runFor n k.worker } := by
  induction n generalizing k with
  | zero => exact ⟨0, rfl⟩
  | succ n ih =>
      unfold Worker.runFor
      split
      · exact ⟨0, rfl⟩
      · next w hstep =>
        obtain ⟨m, hm⟩ := ih (k.take .work)
        have htake : k.take .work = { k with worker := w } := by
          simp [Collection.take, Worker.take, hstep]
        refine ⟨m + 1, ?_⟩
        rw [htake] at hm
        rw [List.replicate_succ]
        show (k.take .work).after (List.replicate m .work) = _
        rw [htake, hm]

/-- The worker has its turns first, if there is nothing to be read; then the channel is read. -/
theorem exists_next (worker : Worker) (fragments : List Message) (usedUp : Bool) :
    ∃ m w channel,
      Collection.after { worker, fragments } (List.replicate m .work) = { worker := w, fragments } ∧
      ((∃ item, w.channel.receive = (.item item, channel) ∧
          next ⟨worker, usedUp⟩ = (.item item, ⟨{ w with channel }, usedUp⟩)) ∨
        (w.channel.receive = (.ended, channel) ∧ next ⟨worker, usedUp⟩ = (.ended, ⟨w, usedUp⟩)) ∨
        (w.channel.receive = (.blocked, channel) ∧
          next ⟨worker, usedUp⟩ = (.blocked, ⟨w, usedUp⟩))) := by
  obtain ⟨m, w, hafter, hsettled⟩ : ∃ m w,
      Collection.after { worker, fragments } (List.replicate m .work) = { worker := w, fragments } ∧
      (if worker.channel.queue.isEmpty then settle ⟨worker, usedUp⟩ else ⟨worker, usedUp⟩) =
        ⟨w, usedUp⟩ := by
    cases worker.channel.queue.isEmpty with
    | true =>
        obtain ⟨m, hm⟩ := exists_after_runFor worker.measure { worker, fragments }
        exact ⟨m, _, hm, rfl⟩
    | false => exact ⟨0, worker, rfl, rfl⟩
  refine ⟨m, w, w.channel.receive.2, hafter, ?_⟩
  unfold next
  simp only [hsettled]
  rcases w.channel.receive with ⟨item | _ | _, channel⟩
  · exact Or.inl ⟨item, rfl, rfl⟩
  · exact Or.inr (Or.inl ⟨rfl, rfl⟩)
  · exact Or.inr (Or.inr ⟨rfl, rfl⟩)

/-- **What a session collects is collected under a schedule of its own,** in which nobody
cancels. -/
theorem exists_collect {n : ℕ} {worker : Worker} {fragments : List Message} {usedUp : Bool}
    {r : Result Message} {s : Session}
    (h : collectFrom n (fragments.map .ok) ⟨worker, usedUp⟩ = (.item r, s)) :
    ∃ ts, .cancel ∉ ts ∧ (Collection.after { worker, fragments } ts).result = some r ∧
      (Collection.after { worker, fragments } ts).worker =
        (s.onChannel Channel.drop).worker := by
  induction n generalizing worker fragments with
  | zero => cases h
  | succ n ih =>
      obtain ⟨m, w, channel, hafter, hnext⟩ := exists_next worker fragments usedUp
      -- After the worker's turns comes the read, and then what the hypothesis gives.
      have hturns (ts : List Collection.Turn) :
          Collection.after { worker, fragments } (List.replicate m .work ++ .read :: ts) =
            (Collection.read { worker := w, fragments }).after ts := by
        rw [Collection.after_append, hafter]
        rfl
      have hkept {ts : List Collection.Turn} (hts : .cancel ∉ ts) :
          .cancel ∉ List.replicate m Collection.Turn.work ++ .read :: ts := by
        simp [hts]
      rw [collectFrom] at h
      rcases hnext with ⟨e | f, hreceive, hnext⟩ | ⟨hreceive, hnext⟩ | ⟨hreceive, hnext⟩ <;>
        rw [hnext] at h <;>
        simp only [Collection.read, Worker.take, hreceive] at hturns
      case inl.ok =>
        have hrest : collectFrom n ((fragments ++ [f]).map .ok) ⟨{ w with channel }, usedUp⟩ =
            (.item r, s) := by
          rw [List.map_append]
          exact h
        obtain ⟨ts, hts, hresult, hworker⟩ := ih hrest
        refine ⟨_, hkept hts, ?_, ?_⟩
        · rw [hturns]
          exact hresult
        · rw [hturns]
          exact hworker
      case inl.error =>
        cases h
        refine ⟨_, hkept List.not_mem_nil, ?_, ?_⟩ <;> rw [hturns] <;> rfl
      case inr.inl =>
        cases h
        refine ⟨_, hkept List.not_mem_nil, ?_, ?_⟩ <;> rw [hturns] <;> rfl
      case inr.inr => cases h

end Session

end ChatRelay
