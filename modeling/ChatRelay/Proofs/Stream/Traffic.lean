import ChatRelay.Proofs.Stream.Steps
import ChatRelay.Stream.Traffic

/-!
# Sends that wait, and a consumer that cancels

What a channel promises whatever its two ends do: items arrive in the order in which their sends
returned true, the item of a send that returned false or was given up never arrives, and nothing is
accepted any more once the consumer has cancelled. An invariant of the single operations, a ledger
of what has become of every send, carries it through histories.

## Main definitions

* `Channel.Balances` — a channel holds what it has accepted and nobody has received
* `Traffic.Ledger` — every send has come to one end, or waits
* `Traffic.Safe` — what a channel promises after some operations

## Main results

* `Traffic.look_eq` — all that a look at the channel can do
* `Traffic.Ledger.step`, `Traffic.ledger_after` — one operation, and every history, keeps the ledger
* `Traffic.step_ends` — what cancels, and what does not
* `Traffic.safe_after` — a channel is safe after every history
* `Traffic.exists_shown_of_performAll` — a history in which no send waits is one of the channel
  alone
-/

namespace ChatRelay

variable {α : Type}

namespace TrafficEvent

@[simp] theorem seen_nil (sign : SendSign) : seen sign ([] : List (TrafficEvent α)) = [] := rfl

@[simp] theorem seen_of_cons (sign s : SendSign) (send : Nat × α) (es : List (TrafficEvent α)) :
    seen sign (.of s send :: es) = if s = sign then send :: seen sign es else seen sign es := by
  by_cases h : s = sign <;> simp [seen, send?, h]

@[simp] theorem seen_ended_cons (sign : SendSign) (es : List (TrafficEvent α)) :
    seen sign (.ended :: es) = seen sign es := rfl

@[simp] theorem seen_append (sign : SendSign) (es es' : List (TrafficEvent α)) :
    seen sign (es ++ es') = seen sign es ++ seen sign es' :=
  List.filterMap_append ..

@[simp] theorem seen_map_of (sign s : SendSign) (sends : List (Nat × α)) :
    seen sign (sends.map (.of s)) = if s = sign then sends else [] := by
  induction sends with
  | nil => simp
  | cons send sends ih => by_cases h : s = sign <;> simp_all

end TrafficEvent

open TrafficEvent

namespace TrafficOp

/-- The reader goes. -/
def leaves : TrafficOp α → Bool
  | .close | .drop => true
  | _ => false

/-- Somebody cancels. -/
def cancels : TrafficOp α → Bool
  | .cancel => true
  | _ => false

end TrafficOp

namespace Channel

variable {c : Channel α}

/-- A send that nobody is ahead of is offered as any item is. -/
theorem offerBehind_zero (c : Channel α) (a : α) : c.offerBehind 0 a = c.offer a := rfl

/-! ### What a channel holds -/

/-- A channel holds what it has accepted and nobody has received, as long as there is a reader. A
reader that is gone has cancelled. -/
structure Balances (c : Channel α) (accepted received : List α) : Prop where
  rest : ∃ rest, accepted = received ++ rest ∧ rest.length ≤ c.capacity ∧
    (c.readerOpen = true → rest = c.queue)
  gone : c.readerOpen = false → c.cancelled = true

variable {accepted received : List α}

theorem balances_ofCapacity (capacity : Nat) : (ofCapacity capacity : Channel α).Balances [] [] :=
  ⟨⟨[], rfl, Nat.zero_le _, fun _ => rfl⟩, fun h => by cases h⟩

theorem Balances.eq_of_readerOpen (h : c.Balances accepted received) (hopen : c.readerOpen = true) :
    accepted = received ++ c.queue ∧ c.queue.length ≤ c.capacity := by
  obtain ⟨rest, heq, hroom, hrest⟩ := h.rest
  obtain rfl := hrest hopen
  exact ⟨heq, hroom⟩

theorem isAbandoned_eq_false_iff :
    c.isAbandoned = false ↔ c.cancelled = false ∧ c.readerOpen = true := by
  simp [isAbandoned]

/-- A send is refused just when there was a cancellation. -/
theorem Balances.isAbandoned_eq (h : c.Balances accepted received) :
    c.isAbandoned = c.cancelled := by
  have := h.gone
  cases hopen : c.readerOpen <;> simp_all [isAbandoned]

theorem Balances.enqueue (h : c.Balances accepted received) (hopen : c.isAbandoned = false)
    (hroom : c.queue.length < c.capacity) (a : α) :
    (c.enqueue a).Balances (accepted ++ [a]) received := by
  obtain ⟨heq, -⟩ := h.eq_of_readerOpen (isAbandoned_eq_false_iff.mp hopen).2
  refine ⟨⟨c.queue ++ [a], by rw [heq, List.append_assoc], ?_, fun _ => rfl⟩, h.gone⟩
  simpa [Channel.enqueue] using hroom

theorem Balances.receive (h : c.Balances accepted received) (hopen : c.readerOpen = true)
    {a : α} {rest : List α} (hqueue : c.queue = a :: rest) :
    ({ c with queue := rest } : Channel α).Balances accepted (received ++ [a]) := by
  obtain ⟨heq, hroom⟩ := h.eq_of_readerOpen hopen
  rw [hqueue] at heq hroom
  exact ⟨⟨rest, by simp [heq], Nat.le_of_succ_le hroom, fun _ => rfl⟩, h.gone⟩

theorem Balances.cancel (h : c.Balances accepted received) : c.cancel.Balances accepted received :=
  ⟨h.rest, fun _ => rfl⟩

/-- What the reader leaves in the channel is never received. -/
theorem Balances.drop (h : c.Balances accepted received) : c.drop.Balances accepted received := by
  obtain ⟨rest, heq, hroom, -⟩ := h.rest
  exact ⟨⟨rest, heq, hroom, fun hopen => by cases hopen⟩, fun _ => rfl⟩

theorem Balances.dropWriter (h : c.Balances accepted received) :
    c.dropWriter.Balances accepted received :=
  ⟨h.rest, h.gone⟩

end Channel

namespace Traffic

variable {t : Traffic α}

@[simp] theorem join_channel (t : Traffic α) (item : α) : (t.join item).channel = t.channel := rfl

@[simp] theorem join_waiting (t : Traffic α) (item : α) :
    (t.join item).waiting = t.waiting ++ [(t.begun, item)] := rfl

@[simp] theorem join_begun (t : Traffic α) (item : α) : (t.join item).begun = t.begun + 1 := rfl

@[simp] theorem leave_channel (t : Traffic α) (place : Nat) : (t.leave place).channel = t.channel :=
  rfl

@[simp] theorem leave_begun (t : Traffic α) (place : Nat) : (t.leave place).begun = t.begun := rfl

/-! ### Single operations -/

/-- **All that a look can do.**  A send is refused after a cancellation, it is accepted if there is
a place beside those that are kept for the sends ahead of it, and it waits otherwise. -/
theorem look_eq {place : Nat} {send : Nat × α} (hsend : t.waiting[place]? = some send) :
    t.look place =
      if t.channel.isAbandoned then ([.of .refused send], t.leave place)
      else if t.channel.queue.length + place < t.channel.capacity then
        ([.of .accepted send], { t.leave place with channel := t.channel.enqueue send })
      else ([], t) := by
  simp only [look, hsend, Channel.offerBehind]
  by_cases hgone : t.channel.isAbandoned = true
  · simp [hgone]
  · by_cases hroom : t.channel.queue.length + place < t.channel.capacity
    · simp [hgone, hroom, Channel.enqueue]
    · simp [hgone, hroom]

theorem look_cases (t : Traffic α) (place : Nat) : t.look place = ([], t) ∨
    ∃ send, t.waiting[place]? = some send ∧
      ((t.channel.isAbandoned = true ∧ t.look place = ([.of .refused send], t.leave place)) ∨
        (t.channel.isAbandoned = false ∧ t.channel.queue.length < t.channel.capacity ∧
          t.look place = ([.of .accepted send],
            { t.leave place with channel := t.channel.enqueue send }))) := by
  cases hsend : t.waiting[place]? with
  | none => exact Or.inl (by simp only [look, hsend])
  | some send =>
      rw [look_eq hsend]
      by_cases hgone : t.channel.isAbandoned = true
      · exact Or.inr ⟨send, rfl, Or.inl ⟨hgone, if_pos hgone⟩⟩
      · by_cases hroom : t.channel.queue.length + place < t.channel.capacity
        · refine Or.inr ⟨send, rfl, Or.inr ⟨by simpa using hgone, by omega, ?_⟩⟩
          rw [if_neg hgone, if_pos hroom]
        · exact Or.inl (by rw [if_neg hgone, if_neg hroom])

theorem receive_cases (t : Traffic α) :
    (∃ send rest, t.channel.queue = send :: rest ∧
      t.receive = ([.of .received send], { t with channel := { t.channel with queue := rest } })) ∨
    (t.channel.queue = [] ∧ t.receive = (if t.channel.writerOpen then [] else [.ended], t)) := by
  cases hqueue : t.channel.queue with
  | nil =>
      right
      rw [receive, Channel.receive_of_nil hqueue]
      cases t.channel.writerOpen <;> simp
  | cons send rest =>
      left
      refine ⟨send, rest, rfl, ?_⟩
      rw [receive, Channel.receive_of_cons hqueue]

/-- A send that comes to an end moves from those that wait to those that came to that end. -/
theorem perm_of_leave {place : Nat} {send : Nat × α} (h : t.waiting[place]? = some send)
    (front back : List (Nat × α)) :
    (front ++ send :: (back ++ (t.leave place).waiting)).Perm (front ++ (back ++ t.waiting)) := by
  have hperm : (send :: (t.leave place).waiting).Perm t.waiting := by
    obtain ⟨hlt, rfl⟩ := List.getElem?_eq_some_iff.mp h
    exact List.getElem_cons_eraseIdx_perm hlt
  exact (List.perm_middle.symm.trans (hperm.append_left back)).append_left front

/-! ### The ledger -/

/-- What has become of the sends of a channel. -/
structure Ledger (t : Traffic α) (es : List (TrafficEvent α)) : Prop where
  balances : t.channel.Balances (seen .accepted es) (seen .received es)
  /-- Every send comes to one end, or waits. -/
  ends : (seen .accepted es ++ (seen .refused es ++ (seen .abandoned es ++ t.waiting))).Perm
    (seen .began es)
  numbers : (seen .began es).map Prod.fst = List.range t.begun

theorem ledger_ofCapacity (capacity : Nat) : Ledger (ofCapacity capacity : Traffic α) [] :=
  ⟨Channel.balances_ofCapacity capacity, List.Perm.refl _, rfl⟩

variable {es : List (TrafficEvent α)}

theorem Ledger.join (h : Ledger t es) (item : α) :
    Ledger (t.join item) (es ++ [.of .began (t.begun, item)]) where
  balances := by simpa using h.balances
  ends := by simpa [List.append_assoc] using h.ends.append_right [(t.begun, item)]
  numbers := by simp [h.numbers, List.range_succ]

theorem Ledger.look (h : Ledger t es) (place : Nat) :
    Ledger (t.look place).2 (es ++ (t.look place).1) := by
  rcases t.look_cases place with heq | ⟨send, hsend, ⟨hgone, heq⟩ | ⟨hopen, hroom, heq⟩⟩
  · rw [heq, List.append_nil]
    exact h
  · rw [heq]
    have hmoved := perm_of_leave hsend (seen .accepted es ++ seen .refused es) (seen .abandoned es)
    refine ⟨by simpa using h.balances, ?_, by simpa using h.numbers⟩
    simpa [List.append_assoc] using hmoved.trans (by simpa using h.ends)
  · rw [heq]
    have hmoved := perm_of_leave hsend (seen .accepted es) (seen .refused es ++ seen .abandoned es)
    refine ⟨by simpa using h.balances.enqueue hopen hroom send, ?_, by simpa using h.numbers⟩
    simpa [List.append_assoc] using hmoved.trans (by simpa using h.ends)

theorem Ledger.abandon (h : Ledger t es) (place : Nat) :
    Ledger (t.abandon place).2 (es ++ (t.abandon place).1) := by
  cases hsend : t.waiting[place]? with
  | none => simpa [Traffic.abandon, hsend] using h
  | some send =>
      have hmoved := perm_of_leave hsend
        (seen .accepted es ++ (seen .refused es ++ seen .abandoned es)) []
      simp only [Traffic.abandon, hsend]
      refine ⟨by simpa using h.balances, ?_, by simpa using h.numbers⟩
      simpa [List.append_assoc] using hmoved.trans (by simpa using h.ends)

theorem Ledger.receive (h : Ledger t es) (hopen : t.channel.readerOpen = true) :
    Ledger t.receive.2 (es ++ t.receive.1) := by
  rcases t.receive_cases with ⟨send, rest, hqueue, heq⟩ | ⟨hqueue, heq⟩
  · rw [heq]
    exact ⟨by simpa using h.balances.receive hopen hqueue, by simpa using h.ends,
      by simpa using h.numbers⟩
  · rw [heq]
    cases t.channel.writerOpen with
    | true => simpa using h
    | false => exact ⟨by simpa using h.balances, by simpa using h.ends, by simpa using h.numbers⟩

/-- **One operation keeps the ledger.** -/
theorem Ledger.step (h : Ledger t es) (op : TrafficOp α) :
    Ledger (t.step op).2 (es ++ (t.step op).1) := by
  have hnothing : Ledger t (es ++ []) := by rwa [List.append_nil]
  cases op with
  | send item =>
      simp only [Traffic.step]
      split
      · simpa [List.append_assoc] using (h.join item).look t.waiting.length
      · exact hnothing
  | look place => exact h.look place
  | abandon place => exact h.abandon place
  | receive =>
      simp only [Traffic.step]
      split
      · next hopen => exact h.receive hopen
      · exact hnothing
  | cancel =>
      exact ⟨by simpa [Traffic.step] using h.balances.cancel, hnothing.ends, hnothing.numbers⟩
  | close | drop =>
      simp only [Traffic.step]
      split
      · exact ⟨by simpa using h.balances.drop, hnothing.ends, hnothing.numbers⟩
      · exact hnothing
  | dropWriter =>
      simp only [Traffic.step]
      split
      · refine ⟨by simpa using h.balances.dropWriter, ?_, by simpa using h.numbers⟩
        simpa [List.append_assoc] using h.ends
      · exact hnothing

/-! ### Histories -/

theorem after_concat (t : Traffic α) (ops : List (TrafficOp α)) (op : TrafficOp α) :
    t.after (ops ++ [op]) = ((t.after ops).step op).2 :=
  List.foldl_concat ..

theorem events_append (t : Traffic α) (ops ops' : List (TrafficOp α)) :
    t.events (ops ++ ops') = t.events ops ++ (t.after ops).events ops' := by
  induction ops generalizing t with
  | nil => rfl
  | cons op ops ih =>
      rw [List.cons_append, events, events, ih, List.append_assoc]
      rfl

@[simp] theorem events_singleton (t : Traffic α) (op : TrafficOp α) :
    t.events [op] = (t.step op).1 :=
  List.append_nil _

theorem events_concat (t : Traffic α) (ops : List (TrafficOp α)) (op : TrafficOp α) :
    t.events (ops ++ [op]) = t.events ops ++ ((t.after ops).step op).1 := by
  rw [events_append, events_singleton]

/-- **Every history keeps the ledger.** -/
theorem ledger_after (capacity : Nat) (ops : List (TrafficOp α)) :
    Ledger ((ofCapacity capacity).after ops) ((ofCapacity capacity).events ops) := by
  induction ops using List.reverseRecOn with
  | nil => exact ledger_ofCapacity capacity
  | append_singleton ops op ih =>
      rw [after_concat, events_concat]
      exact ih.step op

/-! ### Room and ends -/

/-- What sends and receipts leave alone. -/
def Keeps (t t' : Traffic α) : Prop :=
  t'.channel.capacity = t.channel.capacity ∧ t'.channel.readerOpen = t.channel.readerOpen ∧
    t'.channel.cancelled = t.channel.cancelled

theorem keeps_look (t : Traffic α) (place : Nat) : Keeps t (t.look place).2 := by
  rcases t.look_cases place with heq | ⟨send, -, ⟨-, heq⟩ | ⟨-, -, heq⟩⟩ <;> rw [heq] <;>
    exact ⟨rfl, rfl, rfl⟩

theorem keeps_receive (t : Traffic α) : Keeps t t.receive.2 := by
  rcases t.receive_cases with ⟨send, rest, -, heq⟩ | ⟨-, heq⟩ <;> rw [heq] <;>
    exact ⟨rfl, rfl, rfl⟩

theorem keeps_abandon (t : Traffic α) (place : Nat) : Keeps t (t.abandon place).2 := by
  unfold abandon
  split <;> exact ⟨rfl, rfl, rfl⟩

/-- **What an operation does to the ends of a channel.**  A cancellation and the going of the reader
cancel, and nothing else does. -/
theorem step_ends (t : Traffic α) (op : TrafficOp α) :
    (t.step op).2.channel.capacity = t.channel.capacity ∧
      (t.step op).2.channel.readerOpen = (t.channel.readerOpen && !op.leaves) ∧
      (t.step op).2.channel.cancelled =
        (t.channel.cancelled || op.cancels || (t.channel.readerOpen && op.leaves)) := by
  have hkeeps {t' : Traffic α} (h : Keeps t t') (hleaves : op.leaves = false)
      (hcancels : op.cancels = false) : t'.channel.capacity = t.channel.capacity ∧
        t'.channel.readerOpen = (t.channel.readerOpen && !op.leaves) ∧
        t'.channel.cancelled =
          (t.channel.cancelled || op.cancels || (t.channel.readerOpen && op.leaves)) := by
    simpa [hleaves, hcancels, Keeps] using h
  cases op with
  | send item =>
      refine hkeeps ?_ rfl rfl
      simp only [step]
      split
      · exact (t.join item).keeps_look _
      · exact ⟨rfl, rfl, rfl⟩
  | look place => exact hkeeps (t.keeps_look place) rfl rfl
  | abandon place => exact hkeeps (t.keeps_abandon place) rfl rfl
  | receive =>
      refine hkeeps ?_ rfl rfl
      simp only [step]
      split
      · exact t.keeps_receive
      · exact ⟨rfl, rfl, rfl⟩
  | cancel => simp [step, Channel.cancel, TrafficOp.leaves, TrafficOp.cancels]
  | close | drop =>
      cases hopen : t.channel.readerOpen <;>
        simp [step, hopen, Channel.drop, TrafficOp.leaves, TrafficOp.cancels]
  | dropWriter =>
      refine hkeeps ?_ rfl rfl
      simp only [step]
      split <;> exact ⟨rfl, rfl, rfl⟩

/-- **A cancellation is permanent,** and it is owed to somebody who cancelled or to the reader's
going. -/
theorem ends_after (capacity : Nat) (ops : List (TrafficOp α)) :
    ((ofCapacity capacity).after ops).channel.capacity = max capacity 1 ∧
      ((ofCapacity capacity).after ops).channel.cancelled =
        (ops.any TrafficOp.cancels || !((ofCapacity capacity).after ops).channel.readerOpen) := by
  induction ops using List.reverseRecOn with
  | nil => exact ⟨rfl, rfl⟩
  | append_singleton ops op ih =>
      obtain ⟨hcapacity, hcancelled⟩ := ih
      obtain ⟨hroom, hreader, hcancel⟩ := ((ofCapacity capacity).after ops).step_ends op
      rw [after_concat]
      refine ⟨hroom.trans hcapacity, ?_⟩
      rw [hreader, hcancel, hcancelled, List.any_append]
      cases ((ofCapacity capacity).after ops).channel.readerOpen <;> simp [Bool.or_assoc]

/-! ### After a cancellation -/

/-- **After a cancellation nothing is accepted,** however much room there is. -/
theorem not_accepts_of_cancelled (h : t.channel.cancelled = true) (ops : List (TrafficOp α)) :
    (t.after ops).channel.cancelled = true ∧ seen .accepted (t.events ops) = [] := by
  have hlook {t : Traffic α} (h : t.channel.cancelled = true) (place : Nat) :
      seen .accepted (t.look place).1 = [] := by
    rcases t.look_cases place with heq | ⟨send, -, ⟨-, heq⟩ | ⟨hopen, -, -⟩⟩
    · rw [heq, seen_nil]
    · simp [heq]
    · simp [Channel.isAbandoned, h] at hopen
  induction ops generalizing t with
  | nil => exact ⟨h, rfl⟩
  | cons op ops ih =>
      have hstep : (t.step op).2.channel.cancelled = true := by simp [(t.step_ends op).2.2, h]
      have hseen : seen .accepted (t.step op).1 = [] := by
        cases op with
        | send item =>
            simp only [step]
            split
            · simpa using hlook (t := t.join item) h t.waiting.length
            · rfl
        | look place => exact hlook h place
        | abandon place =>
            simp only [step, abandon]
            split <;> simp
        | receive =>
            simp only [step]
            split
            · rcases t.receive_cases with ⟨send, rest, -, heq⟩ | ⟨-, heq⟩ <;> rw [heq]
              · simp
              · cases t.channel.writerOpen <;> simp
            · rfl
        | cancel => rfl
        | close | drop | dropWriter =>
            simp only [step]
            split <;> simp
      rw [events, seen_append, hseen, (ih hstep).2]
      exact ⟨(ih hstep).1, rfl⟩

/-! ### The next operation -/

theorem events_look {place : Nat} {send : Nat × α} (hsend : t.waiting[place]? = some send) :
    t.events [.look place] =
      if t.channel.isAbandoned then [.of .refused send]
      else if t.channel.queue.length + place < t.channel.capacity then [.of .accepted send]
      else [] := by
  rw [events_singleton, step, look_eq hsend]
  split
  · rfl
  · split <;> rfl

theorem events_send (hopen : t.channel.writerOpen = true) (item : α) :
    t.events [.send item] = .of .began (t.begun, item) ::
      if t.channel.isAbandoned then [.of .refused (t.begun, item)]
      else if t.channel.queue.length + t.waiting.length < t.channel.capacity then
        [.of .accepted (t.begun, item)]
      else [] := by
  have hsend : (t.join item).waiting[t.waiting.length]? = some (t.begun, item) := by simp
  have hlook := events_look hsend
  rw [events_singleton] at hlook
  rw [events_singleton, step, if_pos hopen]
  exact congrArg _ hlook

theorem ended_mem_receive_iff : .ended ∈ t.events [.receive] ↔
    t.channel.readerOpen = true ∧ t.channel.writerOpen = false ∧ t.channel.queue = [] := by
  rw [events_singleton]
  simp only [step]
  by_cases hopen : t.channel.readerOpen = true
  · rw [if_pos hopen]
    rcases t.receive_cases with ⟨send, rest, hqueue, heq⟩ | ⟨hqueue, heq⟩
    · simp [heq, hqueue]
    · cases hwriter : t.channel.writerOpen <;> simp [heq, hqueue, hopen, hwriter]
  · simp [hopen]

/-- A reader that goes on gets what the channel holds, in order. -/
theorem received_of_receive (hopen : t.channel.readerOpen = true) (n : Nat) :
    seen .received (t.events (List.replicate n .receive)) = t.channel.queue.take n := by
  induction n generalizing t with
  | zero => rfl
  | succ n ih =>
      rw [List.replicate_succ, events, seen_append]
      have hstep : t.step .receive = t.receive := if_pos hopen
      rw [hstep, ih (t.keeps_receive.2.1.trans hopen)]
      rcases t.receive_cases with ⟨send, rest, hqueue, heq⟩ | ⟨hqueue, heq⟩
      · simp [heq, hqueue]
      · rw [heq, hqueue]
        cases t.channel.writerOpen <;> simp

/-! ### Safety -/

/-- The sends that were accepted and whose items nobody has received. -/
def unreceived (es : List (TrafficEvent α)) : List (Nat × α) :=
  (seen .accepted es).drop (seen .received es).length

/-- What a channel promises after some operations that have left `t` and shown `es`. -/
structure Safe (capacity : Nat) (ops : List (TrafficOp α)) (t : Traffic α)
    (es : List (TrafficEvent α)) : Prop where
  /-- Items are received in the order in which their sends returned true. -/
  order : seen .received es <+: seen .accepted es
  room : (unreceived es).length ≤ max 1 capacity
  /-- Every send comes to one end, or waits. -/
  ends : (seen .accepted es ++ (seen .refused es ++ (seen .abandoned es ++ t.waiting))).Perm
    (seen .began es)
  numbers : (seen .began es).map Prod.fst = List.range t.begun
  /-- The item of a send that returned false or was given up is never received. -/
  lost : ∀ send, send ∈ seen .refused es ∨ send ∈ seen .abandoned es →
    ∀ received ∈ seen .received es, received.1 ≠ send.1
  cancelled : t.channel.cancelled = true ↔ .cancel ∈ ops ∨ t.channel.readerOpen = false
  /-- A cancellation is permanent, and no send returns true after it. -/
  permanent : t.channel.cancelled = true → ∀ later,
    (t.after later).channel.cancelled = true ∧ seen .accepted (t.events later) = []
  /-- A send returns false at once after a cancellation, though there be room.  Otherwise it returns
  true if there is room, also for those that wait longer. -/
  sends : t.channel.writerOpen = true → ∀ item, t.events [.send item] =
    .of .began (t.begun, item) ::
      if t.channel.cancelled then [.of .refused (t.begun, item)]
      else if (unreceived es).length + t.waiting.length < max 1 capacity then
        [.of .accepted (t.begun, item)]
      else []
  /-- So does a send that waits, when it looks again. -/
  looks : ∀ place send, t.waiting[place]? = some send → t.events [.look place] =
    if t.channel.cancelled then [.of .refused send]
    else if (unreceived es).length + place < max 1 capacity then [.of .accepted send]
    else []
  /-- A reader gets all that was accepted, cancelled or not. -/
  drains : t.channel.readerOpen = true →
    ∀ n, seen .received (t.events (List.replicate n .receive)) = (unreceived es).take n
  ended : .ended ∈ t.events [.receive] ↔ t.channel.readerOpen = true ∧
    t.channel.writerOpen = false ∧ seen .received es = seen .accepted es

theorem Ledger.unreceived_eq (h : Ledger t es) (hopen : t.channel.readerOpen = true) :
    unreceived es = t.channel.queue := by
  rw [unreceived, (h.balances.eq_of_readerOpen hopen).1, List.drop_left]

/-- The numbers of sends that came to different ends differ. -/
theorem Ledger.number_ne (h : Ledger t es) {send accepted : Nat × α}
    (hsend : send ∈ seen .refused es ∨ send ∈ seen .abandoned es)
    (haccepted : accepted ∈ seen .accepted es) : accepted.1 ≠ send.1 := by
  have hnodup : ((seen .accepted es ++
      (seen .refused es ++ (seen .abandoned es ++ t.waiting))).map Prod.fst).Nodup := by
    rw [(h.ends.map Prod.fst).nodup_iff, h.numbers]
    exact List.nodup_range
  rw [List.map_append, List.nodup_append] at hnodup
  refine hnodup.2.2 _ (List.mem_map_of_mem haccepted) _ (List.mem_map_of_mem ?_)
  rcases hsend with hsend | hsend <;> simp [hsend]

/-- **A channel is safe,** whatever its ends do and in whatever order: sends, also such as wait,
look again and are given up, receipts, cancellations, and the going of either end. -/
theorem safe_after (capacity : Nat) (ops : List (TrafficOp α)) :
    Safe capacity ops ((ofCapacity capacity).after ops) ((ofCapacity capacity).events ops) := by
  have hledger := ledger_after capacity ops
  obtain ⟨hcapacity, hcancelled⟩ := ends_after capacity ops
  generalize (ofCapacity capacity).after ops = t at *
  generalize (ofCapacity capacity).events ops = es at *
  obtain ⟨rest, hrest, hroom, -⟩ := hledger.balances.rest
  have hunreceived : unreceived es = rest := by rw [unreceived, hrest, List.drop_left]
  -- As long as nothing is cancelled there is a reader, and the channel holds what is not received.
  have hqueue (hopen : t.channel.cancelled = false) : t.channel.queue = unreceived es := by
    refine (hledger.unreceived_eq ?_).symm
    by_contra hgone
    rw [hledger.balances.gone (by simpa using hgone)] at hopen
    cases hopen
  have hroom' (place : Nat) : t.channel.cancelled = false →
      (t.channel.queue.length + place < t.channel.capacity ↔
        (unreceived es).length + place < max 1 capacity) := by
    intro hopen
    rw [hqueue hopen, hcapacity, Nat.max_comm]
  refine {
    order := ⟨rest, hrest.symm⟩
    room := by rw [hunreceived, Nat.max_comm, ← hcapacity]; exact hroom
    ends := hledger.ends
    numbers := hledger.numbers
    lost := fun send hsend received hreceived =>
      hledger.number_ne hsend (by simp [hrest, hreceived])
    cancelled := ?_
    permanent := not_accepts_of_cancelled
    sends := fun hopen item => ?_
    looks := fun place send hsend => ?_
    drains := fun hopen n => by rw [received_of_receive hopen, hledger.unreceived_eq hopen]
    ended := ?_ }
  · have hcancel : ops.any TrafficOp.cancels = true ↔ .cancel ∈ ops := by
      rw [List.any_eq_true]
      constructor
      · rintro ⟨op, hop, hcancels⟩
        cases op with
        | cancel => exact hop
        | _ => cases hcancels
      · exact fun hop => ⟨.cancel, hop, rfl⟩
    rw [hcancelled, Bool.or_eq_true, hcancel, Bool.not_eq_true']
  · rw [events_send hopen, hledger.balances.isAbandoned_eq]
    cases hc : t.channel.cancelled with
    | true => rfl
    | false => simp only [hroom' _ hc]
  · rw [events_look hsend, hledger.balances.isAbandoned_eq]
    cases hc : t.channel.cancelled with
    | true => rfl
    | false => simp only [hroom' _ hc]
  · rw [ended_mem_receive_iff]
    refine and_congr_right fun hopen => and_congr_right fun _ => ?_
    rw [(hledger.balances.eq_of_readerOpen hopen).1]
    simp

/-- A send that waits for room returns false when the consumer cancels. -/
example : (ofCapacity 1 : Traffic Nat).events [.send 5, .send 6, .cancel, .look 0] =
    [.of .began (0, 5), .of .accepted (0, 5), .of .began (1, 6), .of .refused (1, 6)] := by decide

end Traffic

/-! ### Channels without numbers -/

/-- An operation on a channel as traffic, where a send that finds no room is given up at once. -/
def ChannelOp.asTraffic : ChannelOp → List (TrafficOp (Result Message))
  | .send item => [.send item, .abandon 0]
  | .receive => [.receive]
  | .cancel => [.cancel]
  | .close => [.close]
  | .drop => [.drop]
  | .dropWriter => [.dropWriter]
  | .lookForCancel | .collect => []

/-- What can be seen when an operation has an outcome. -/
inductive ChannelOutcome.Shows : ChannelOutcome → List (TrafficEvent (Result Message)) → Prop
  | accepted (send) : Shows (.sent true) [.of .began send, .of .accepted send]
  | refused (send) : Shows (.sent false) [.of .began send, .of .refused send]
  /-- A send that finds no room is given up. -/
  | abandoned (send) : Shows .blocked [.of .began send, .of .abandoned send]
  | received (send) : Shows (.received send.2) [.of .received send]
  | ended : Shows .ended [.ended]
  | blocked : Shows .blocked []
  | saw (cancelled) : Shows (.saw cancelled) []
  | done : Shows .done []
  | gone : Shows .gone []

namespace Traffic

/-- The channel without the numbers of sends. -/
def bare (t : Traffic α) : Channel α where
  capacity := t.channel.capacity
  queue := t.channel.queue.map Prod.snd
  cancelled := t.channel.cancelled
  readerOpen := t.channel.readerOpen
  writerOpen := t.channel.writerOpen

/-- Some operations come to what an operation on the channel without numbers comes to, and no send
waits after them. -/
structure Performs (t : Traffic (Result Message)) (ops : List (TrafficOp (Result Message)))
    (p : ChannelOutcome × Channel (Result Message)) : Prop where
  channel : (t.after ops).bare = p.2
  waiting : (t.after ops).waiting = []
  outcome : p.1.Shows (t.events ops)

variable {t : Traffic (Result Message)}

/-- A send that is alone is offered as any item is, and given up if there is no room. -/
theorem performs_send (hwaiting : t.waiting = []) (hopen : t.channel.writerOpen = true)
    (item : Result Message) :
    t.Performs [.send item, .abandon 0] (t.bare.performWriter (.send item)) := by
  have hstep : t.step (.send item) = (.of .began (t.begun, item) :: ((t.join item).look 0).1,
      ((t.join item).look 0).2) := by simp [step, hopen, hwaiting]
  have hsend : (t.join item).waiting[0]? = some (t.begun, item) := by simp [hwaiting]
  have hleave : ((t.join item).leave 0).waiting = [] := by simp [leave, hwaiting]
  have hlook := look_eq hsend
  have hafter : t.after [.send item, .abandon 0] = (((t.join item).look 0).2.abandon 0).2 := by
    rw [after, List.foldl_cons, hstep]
    rfl
  have hevents : t.events [.send item, .abandon 0] = .of .began (t.begun, item) ::
      (((t.join item).look 0).1 ++ (((t.join item).look 0).2.abandon 0).1) := by
    rw [events, hstep]
    simp [events, step]
  -- Nobody is left to be given up once the send has returned.
  have hnobody (h : ((t.join item).look 0).2.waiting = []) :
      ((t.join item).look 0).2.abandon 0 = ([], ((t.join item).look 0).2) := by
    simp [abandon, h]
  by_cases hgone : t.channel.isAbandoned = true
  · have hoffer : t.bare.offer item = (.refused, t.bare) := Channel.offer_of_isAbandoned item hgone
    rw [join_channel, if_pos hgone] at hlook
    rw [hnobody (by rw [hlook]; exact hleave), hlook] at hafter hevents
    rw [Channel.performWriter, hoffer]
    exact ⟨by rw [hafter]; rfl, by rw [hafter, hleave], hevents ▸ .refused _⟩
  · have hhere : ¬t.bare.isAbandoned = true := hgone
    by_cases hroom : t.channel.queue.length + 0 < t.channel.capacity
    · have hoffer : t.bare.offer item = (.accepted, t.bare.enqueue item) :=
        Channel.offer_of_room item (Bool.eq_false_iff.mpr hhere) (by simpa [bare] using hroom)
      rw [join_channel, if_neg hgone, if_pos hroom] at hlook
      rw [hnobody (by rw [hlook]; exact hleave), hlook] at hafter hevents
      rw [Channel.performWriter, hoffer]
      refine ⟨?_, by rw [hafter]; exact hleave, hevents ▸ .accepted _⟩
      rw [hafter]
      simp [bare, Channel.enqueue]
    · have hoffer : t.bare.offer item = (.blocked, t.bare) := by
        rw [Channel.offer, if_neg hhere, if_neg (by simpa [bare] using hroom)]
      rw [join_channel, if_neg hgone, if_neg hroom] at hlook
      have habandon : (t.join item).abandon 0 =
          ([.of .abandoned (t.begun, item)], (t.join item).leave 0) := by
        simp only [abandon, hsend]
      rw [hlook, habandon] at hafter hevents
      rw [Channel.performWriter, hoffer]
      exact ⟨by rw [hafter]; rfl, by rw [hafter, hleave], hevents ▸ .abandoned _⟩

theorem performs_receive (hwaiting : t.waiting = []) (hopen : t.channel.readerOpen = true) :
    t.Performs [.receive] (t.bare.performReader .receive) := by
  have hstep : t.step .receive = t.receive := if_pos hopen
  have hafter : t.after [.receive] = t.receive.2 := congrArg Prod.snd hstep
  have hevents : t.events [.receive] = t.receive.1 := by rw [events_singleton, hstep]
  rcases t.receive_cases with ⟨send, rest, hqueue, heq⟩ | ⟨hqueue, heq⟩
  · have hbare : t.bare.queue = send.2 :: rest.map Prod.snd := by simp [bare, hqueue]
    rw [heq] at hafter hevents
    rw [Channel.performReader, Channel.receive_of_cons hbare]
    exact ⟨by rw [hafter]; rfl, by rw [hafter]; exact hwaiting, hevents ▸ .received send⟩
  · have hbare : t.bare.queue = [] := by simp [bare, hqueue]
    rw [heq] at hafter hevents
    rw [Channel.performReader, Channel.receive_of_nil hbare]
    have hsame : (t.after [.receive]).bare = t.bare := congrArg bare hafter
    refine ⟨?_, by rw [hafter, hwaiting], ?_⟩
    · rw [hsame]
      cases t.bare.writerOpen <;> rfl
    · rw [hevents, show t.channel.writerOpen = t.bare.writerOpen from rfl]
      cases t.bare.writerOpen with
      | true => exact .blocked
      | false => exact .ended

/-- Operations that do nothing come to an outcome that shows nothing. -/
theorem performs_nothing (hwaiting : t.waiting = []) {ops : List (TrafficOp (Result Message))}
    (hafter : t.after ops = t) (hevents : t.events ops = []) {outcome : ChannelOutcome}
    (houtcome : outcome.Shows []) : t.Performs ops (outcome, t.bare) := by
  refine ⟨by rw [hafter], by rw [hafter, hwaiting], ?_⟩
  rw [hevents]
  exact houtcome

/-- Without a writer nothing is sent. -/
theorem performs_send_gone (hwaiting : t.waiting = []) (hopen : t.channel.writerOpen = false)
    (item : Result Message) : t.Performs [.send item, .abandon 0] (.gone, t.bare) := by
  have hsend : t.step (.send item) = ([], t) := by simp [step, hopen]
  have habandon : t.step (.abandon 0) = ([], t) := by simp [step, abandon, hwaiting]
  refine performs_nothing hwaiting ?_ ?_ .gone
  · simp [after, hsend, habandon]
  · simp [events, hsend, habandon]

/-- One operation that does nothing. -/
theorem performs_one_nothing (hwaiting : t.waiting = []) {op : TrafficOp (Result Message)}
    (hstep : t.step op = ([], t)) {outcome : ChannelOutcome} (houtcome : outcome.Shows []) :
    t.Performs [op] (outcome, t.bare) := by
  refine performs_nothing hwaiting ?_ ?_ houtcome
  · simp [after, hstep]
  · simp [hstep]

/-- **Operations on a channel are traffic** in which no send waits. -/
theorem performs_asTraffic (hwaiting : t.waiting = []) {op : ChannelOp} (hop : op ≠ .collect) :
    t.Performs op.asTraffic (t.bare.perform op) := by
  have hwriter : t.bare.writerOpen = t.channel.writerOpen := rfl
  have hreader : t.bare.readerOpen = t.channel.readerOpen := rfl
  cases op with
  | send item =>
      simp only [Channel.perform, ChannelOp.asTraffic, hwriter]
      split
      · next hopen => exact performs_send hwaiting hopen item
      · next hopen => exact performs_send_gone hwaiting (Bool.eq_false_iff.mpr hopen) item
  | receive =>
      simp only [Channel.perform, ChannelOp.asTraffic, hreader]
      split
      · next hopen => exact performs_receive hwaiting hopen
      · next hopen => exact performs_one_nothing hwaiting (by simp [step, hopen]) .gone
  | collect => exact absurd rfl hop
  | lookForCancel =>
      simp only [Channel.perform]
      split
      · exact ⟨rfl, hwaiting, .saw _⟩
      · exact ⟨rfl, hwaiting, .gone⟩
  | cancel => exact ⟨rfl, hwaiting, .done⟩
  | close | drop =>
      simp only [Channel.perform, ChannelOp.asTraffic, hreader]
      split
      · next hopen =>
        refine ⟨?_, ?_, ?_⟩ <;>
          simp [after, step, hopen, hwaiting, Channel.performReader, Channel.drop, bare,
            ChannelOutcome.Shows.done]
      · next hopen => exact performs_one_nothing hwaiting (by simp [step, hopen]) .gone
  | dropWriter =>
      simp only [Channel.perform, ChannelOp.asTraffic, hwriter]
      split
      · next hopen =>
        refine ⟨?_, ?_, ?_⟩ <;>
          simp [after, step, hopen, hwaiting, Channel.performWriter, Channel.dropWriter, bare,
            ChannelOutcome.Shows.done]
      · next hopen => exact performs_one_nothing hwaiting (by simp [step, hopen]) .gone

/-- **So are whole histories.**  What a history of the channel without numbers comes to can be seen
of the traffic, one operation after the other. -/
theorem exists_shown_of_performAll (hwaiting : t.waiting = []) {ops : List ChannelOp}
    (hops : .collect ∉ ops) : ∃ shown,
      List.Forall₂ (fun p es => p.1.Shows es) (t.bare.performAll ops) shown ∧
        t.events (ops.flatMap ChannelOp.asTraffic) = shown.flatten := by
  induction ops generalizing t with
  | nil => exact ⟨[], .nil, rfl⟩
  | cons op ops ih =>
      obtain ⟨hop, hops⟩ := not_or.mp (List.mem_cons.not.mp hops)
      have hstep := performs_asTraffic hwaiting (Ne.symm hop)
      obtain ⟨shown, hshown, hevents⟩ := ih hstep.waiting hops
      rw [hstep.channel] at hshown
      refine ⟨t.events op.asTraffic :: shown, .cons hstep.outcome hshown, ?_⟩
      rw [List.flatMap_cons, events_append, hevents, List.flatten_cons]

end Traffic

end ChatRelay
