import ChatRelay.Proofs.Stream.Steps
import ChatRelay.Stream.Session

/-!
# Worker and consumer, move by move

A worker and its consumer move in any order.  A move of the worker is a step, unless it has to wait;
the consumer reads an item, cancels, closes its end or drops it.  Every list of moves is one way in
which the two tasks interleave, and what holds after every list of moves holds of the stream
whatever its consumer does.

A consumer that lets the worker do all that it can before it goes on is one of these
(`Session.reaches_run`).

## Main definitions

* `Move`, `Worker.take`, `Worker.after` — a move, and what some moves leave
* `Worker.Reaches` — some moves lead from one worker to another
* `Worker.Halts`, `Worker.IsRefused`, `Worker.EndsSource` — what the next step of a worker will be
-/

namespace ChatRelay

/-- A move of a worker or of its consumer. -/
inductive Move where
  /-- The worker takes a step, unless it has to wait. -/
  | work
  /-- The consumer reads an item.  One that has given up its end finds none. -/
  | receive
  /-- The consumer cancels, and keeps its end. -/
  | cancel
  | close
  | drop
deriving DecidableEq, Repr

namespace Worker

/-- What a move leaves. -/
def take (w : Worker) : Move → Worker
  | .work => w.step.getD w
  | .receive => { w with channel := w.channel.receive.2 }
  | .cancel => { w with channel := w.channel.cancel }
  | .close | .drop => { w with channel := w.channel.drop }

/-- What some moves leave. -/
def after (w : Worker) (ms : List Move) : Worker :=
  ms.foldl take w

@[simp] theorem after_nil (w : Worker) : w.after [] = w := rfl

@[simp] theorem after_cons (w : Worker) (m : Move) (ms : List Move) :
    w.after (m :: ms) = (w.take m).after ms := rfl

theorem after_append (w : Worker) (ms ns : List Move) :
    w.after (ms ++ ns) = (w.after ms).after ns :=
  List.foldl_append

/-- The consumer touches nothing but the channel. -/
theorem take_of_ne_work (w : Worker) {m : Move} (hm : m ≠ .work) :
    ∃ channel, w.take m = { w with channel } := by
  cases m with
  | work => exact absurd rfl hm
  | receive => exact ⟨_, rfl⟩
  | cancel => exact ⟨_, rfl⟩
  | close => exact ⟨_, rfl⟩
  | drop => exact ⟨_, rfl⟩

/-- A worker takes a step, unless it has to wait. -/
theorem work_cases (w : Worker) :
    (w.step = none ∧ w.take .work = w) ∨ Step w (w.take .work) := by
  cases hstep : w.step with
  | none => exact Or.inl ⟨rfl, by rw [take, hstep, Option.getD_none]⟩
  | some w' =>
      right
      rw [take, hstep, Option.getD_some]
      exact step_eq_some_iff.mp hstep

/-- A move is a step of the worker, unless it has to wait, or it touches the channel only. -/
theorem take_cases (w : Worker) (m : Move) :
    (m = .work ∧ w.step = none ∧ w.take m = w) ∨ (m = .work ∧ Step w (w.take m)) ∨
      (m ≠ .work ∧ ∃ channel, w.take m = { w with channel }) := by
  by_cases hm : m = .work
  · subst hm
    rcases w.work_cases with hstuck | hstep
    · exact Or.inl ⟨rfl, hstuck⟩
    · exact Or.inr (Or.inl ⟨rfl, hstep⟩)
  · exact Or.inr (Or.inr ⟨hm, w.take_of_ne_work hm⟩)

/-- A move keeps what the steps keep, if the channel does not matter for it. -/
theorem holds_take {P : Worker → Prop} {w : Worker} (hw : P w) (hstep : ∀ w', Step w w' → P w')
    (hchannel : ∀ channel, P { w with channel }) (m : Move) : P (w.take m) := by
  rcases w.take_cases m with ⟨-, -, htake⟩ | ⟨-, hwork⟩ | ⟨-, channel, htake⟩
  · rw [htake]
    exact hw
  · exact hstep _ hwork
  · rw [htake]
    exact hchannel channel

/-- **What every move keeps holds after all of them.** -/
theorem holds_after {P : Worker → Prop} {w : Worker} {ms : List Move} (hw : P w)
    (hkeep : ∀ w, P w → ∀ m ∈ ms, P (w.take m)) : P (w.after ms) :=
  List.foldlRecOn ms take hw hkeep

/-- What the steps keep holds however worker and consumer go on, if the channel does not matter for
it. -/
theorem holds_after_of_step {P : Worker → Prop} {w : Worker} (hw : P w)
    (hstep : ∀ w w', P w → Step w w' → P w') (hchannel : ∀ w channel, P w → P { w with channel })
    (ms : List Move) : P (w.after ms) := by
  refine holds_after hw ?_
  intro w hw m _
  exact holds_take hw (fun w' => hstep w w' hw) (fun channel => hchannel w channel hw) m

theorem endings_prefix_of_step {w w' : Worker} (h : Step w w') : w.endings <+: w'.endings := by
  cases h with
  | report => exact List.prefix_append _ _
  | _ => exact List.prefix_rfl

/-- What was reported is not taken back. -/
theorem endings_prefix_after (w : Worker) (ms : List Move) :
    w.endings <+: (w.after ms).endings := by
  refine holds_after_of_step (P := fun w' => w.endings <+: w'.endings) List.prefix_rfl ?_ ?_ ms
  · intro w' w'' hprior hstep
    exact hprior.trans (endings_prefix_of_step hstep)
  · intro w' channel hprior
    exact hprior

/-! ### What the next step will be -/

/-- The next step gives up reading, as the consumer has cancelled. -/
def Halts (w : Worker) : Prop :=
  w.IsReading ∧ w.channel.cancelled = true

/-- The next step finds that the consumer does not take a fragment any more. -/
def IsRefused (w : Worker) : Prop :=
  (∃ f final, w.phase = .offering f final) ∧ w.channel.isAbandoned = true

/-- The next step reaches the end of the source. -/
def EndsSource (w : Worker) : Prop :=
  w.phase = .awaiting none ∧ w.channel.cancelled = false

/-- A worker that has to wait, or is finished, does nothing of the kind. -/
theorem not_of_step_eq_none {w : Worker} (h : w.step = none) :
    ¬ w.Halts ∧ ¬ w.IsRefused ∧ ¬ w.EndsSource := by
  have hstuck (w' : Worker) : ¬ Step w w' := by
    rw [← step_eq_some_iff, h]
    exact Option.some_ne_none w' ∘ Eq.symm
  refine ⟨?_, ?_, ?_⟩
  · rintro ⟨hphase, hcancelled⟩
    exact hstuck _ (.halt hphase hcancelled)
  · rintro ⟨⟨f, final, hphase⟩, hgone⟩
    exact hstuck _ (.refuse hphase hgone)
  · rintro ⟨hphase, hopen⟩
    exact hstuck _ (.endSource hphase hopen)

/-! ### The moves of a session -/

/-- Some moves lead from one worker to another. -/
def Reaches (w w' : Worker) : Prop :=
  ∃ ms, w.after ms = w'

theorem Reaches.refl (w : Worker) : w.Reaches w :=
  ⟨[], rfl⟩

theorem Reaches.trans {u v w : Worker} (h : u.Reaches v) (h' : v.Reaches w) : u.Reaches w := by
  obtain ⟨ms, rfl⟩ := h
  obtain ⟨ns, rfl⟩ := h'
  exact ⟨ms ++ ns, after_append u ms ns⟩

theorem Reaches.take (w : Worker) (m : Move) : w.Reaches (w.take m) :=
  ⟨[m], rfl⟩

theorem reaches_runFor (n : Nat) (w : Worker) : w.Reaches (runFor n w) := by
  induction n generalizing w with
  | zero => exact .refl w
  | succ n ih =>
      unfold runFor
      split
      · exact .refl w
      · next w' hstep =>
        have htake : w.take .work = w' := by simp [Worker.take, hstep]
        exact (htake ▸ Reaches.take w .work).trans (ih w')

end Worker

namespace Session

open Worker

theorem reaches_settle (s : Session) : s.worker.Reaches s.settle.worker :=
  reaches_runFor _ _

theorem reaches_next (s : Session) : s.worker.Reaches s.next.2.worker := by
  have hfirst : s.worker.Reaches
      (if s.worker.channel.queue.isEmpty then s.settle else s).worker := by
    split
    · exact s.reaches_settle
    · exact .refl _
  unfold next
  simp only
  generalize (if s.worker.channel.queue.isEmpty then s.settle else s) = s' at hfirst ⊢
  split
  · next r channel hreceive =>
    have htake : s'.worker.take .receive = (s'.onChannel fun _ => channel).worker := by
      simp [Worker.take, onChannel, hreceive]
    exact hfirst.trans (htake ▸ Reaches.take s'.worker .receive)
  · exact hfirst
  · exact hfirst

theorem reaches_readUpTo (n : Nat) (s : Session) : s.worker.Reaches (readUpTo n s).2.worker := by
  induction n generalizing s with
  | zero => exact .refl _
  | succ n ih =>
      have hnext := s.reaches_next
      unfold readUpTo
      split
      · next s' h =>
        rw [h] at hnext
        exact hnext.trans (ih s')
      · next h =>
        rw [h] at hnext
        exact hnext

theorem reaches_collectFrom (n : Nat) (items : List (Result Message)) (s : Session) :
    s.worker.Reaches (collectFrom n items s).2.worker := by
  induction n generalizing items s with
  | zero => exact .refl _
  | succ n ih =>
      have hnext := s.reaches_next
      unfold collectFrom
      split
      · next s' h =>
        rw [h] at hnext
        exact hnext.trans (ih _ s')
      all_goals
        next h =>
        rw [h] at hnext
        exact hnext

theorem reaches_perform (s : Session) (a : Action) : s.worker.Reaches (s.perform a).2.worker := by
  cases a with
  | read n => exact reaches_readUpTo n s
  | drain => exact reaches_readUpTo s.remaining s
  | collect => exact (reaches_collectFrom s.remaining [] s).trans (.take _ .drop)
  | cancel => exact .take _ .cancel
  | close => exact .take _ .close
  | drop => exact .take _ .drop

theorem reaches_act (s : Session) (a : Action) : s.worker.Reaches (s.act a).2.worker := by
  have hperform : s.worker.Reaches (if s.usedUp then ([], s) else s.perform a).2.worker := by
    split
    · exact .refl _
    · exact s.reaches_perform a
  exact hperform.trans (reaches_settle _)

theorem reaches_actAll (s : Session) (actions : List Action) :
    s.worker.Reaches (s.actAll actions).2.worker := by
  induction actions generalizing s with
  | nil => exact .refl _
  | cons a actions ih => exact (s.reaches_act a).trans (ih _)

theorem reaches_abandon (s : Session) : s.worker.Reaches s.abandon.worker :=
  (Reaches.take s.worker .drop).trans (s.onChannel Channel.drop).reaches_settle

/-- **What a session comes to is reached move by move.** -/
theorem reaches_run (w : Worker) (actions : List Action) :
    w.Reaches (Session.run w actions).2.worker :=
  (reaches_settle ⟨w, false⟩).trans (reaches_actAll _ actions)

end Session

end ChatRelay
