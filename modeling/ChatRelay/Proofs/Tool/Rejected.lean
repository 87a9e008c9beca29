import ChatRelay.Proofs.Message.Joined

/-!
# Fragments that are rejected

An assembler can be used further after a conflict.  A conflict in the ids is found before anything
is merged, but one in the names is found after the ids: a rejected fragment leaves its id behind if
the call of its index has none so far, and nothing else (`put_of_not_agrees`).

So an assembler that goes on after conflicts comes to what the accepted fragments alone come to,
with one difference: a call that none of them gives an id bears the first id of those that were
rejected for its index (`Assembler.rejected_leave_ids`).  The proof pushes fragment by fragment into
an assembler that is told of all of them and one that is told of the accepted ones only
(`Assembler.exists_marks`).

## Main definitions

* `ToolCall.marked` — a call with the id that others state for its index
* `Assembler.pushEach` — all fragments, conflicts or not
* `Assembler.accepted`, `Assembler.rejected` — what became of each fragment
* `Assembler.Marks` — what the rejected fragments have left behind
-/

namespace ChatRelay

open ToolCall

/-- The first id that some fragments state for an index. -/
def ToolCall.statedId (index : Option UInt32) (fragments : List ToolCall) : String :=
  firstText ((fragments.filter fun f => f.index = index).map id)

/-- A call, with the first id that some fragments state for its index if it has none. -/
def ToolCall.marked (fragments : List ToolCall) (call : ToolCall) : ToolCall :=
  { call with id := pick call.id (statedId call.index fragments) }

theorem firstText_append (texts texts' : List String) :
    firstText (texts ++ texts') = pick (firstText texts) (firstText texts') := by
  induction texts with
  | nil => simp [firstText, pick]
  | cons text texts ih => rw [List.cons_append, ← pick_firstText, ih, ← pick_firstText, pick_assoc]

theorem firstText_eq_empty_iff {texts : List String} :
    firstText texts = "" ↔ ∀ text ∈ texts, text = "" := by
  induction texts with
  | nil => simp [firstText]
  | cons text texts ih =>
      rw [← pick_firstText, List.forall_mem_cons, ← ih]
      by_cases h : text = "" <;> simp [pick, h]

namespace ToolCall

theorem pick_eq_left_iff {a b : String} : pick a b = a ↔ a ≠ "" ∨ b = "" := by
  by_cases h : a = "" <;> simp [pick, h]

theorem statedId_concat (index : Option UInt32) (fragments : List ToolCall) (f : ToolCall) :
    statedId index (fragments ++ [f]) =
      pick (statedId index fragments) (if f.index = index then f.id else "") := by
  rw [statedId, List.filter_append, List.map_append, firstText_append]
  by_cases h : f.index = index
  · simp [statedId, h]
  · rw [List.filter_cons_of_neg (by simpa using h), if_neg h]
    rfl

theorem statedId_eq_empty_iff {index : Option UInt32} {fragments : List ToolCall} :
    statedId index fragments = "" ↔ ∀ f ∈ fragments, f.index = index → f.id = "" := by
  rw [statedId, firstText_eq_empty_iff, List.forall_mem_map]
  simp only [List.mem_filter, decide_eq_true_eq, and_imp]

@[simp] theorem marked_index (fragments : List ToolCall) (call : ToolCall) :
    (marked fragments call).index = call.index := rfl

theorem marked_eq_self_iff {fragments : List ToolCall} {call : ToolCall} :
    marked fragments call = call ↔ call.id ≠ "" ∨ statedId call.index fragments = "" := by
  rw [← pick_eq_left_iff]
  cases call
  simp [marked]

theorem marked_nil (call : ToolCall) : marked [] call = call :=
  marked_eq_self_iff.mpr (Or.inr rfl)

/-- A further mark counts under its own index, and after the marks that are there. -/
theorem marked_concat (fragments : List ToolCall) (f call : ToolCall) :
    marked (fragments ++ [f]) call = marked [f] (marked fragments call) := by
  have hsingle : statedId call.index [f] = if f.index = call.index then f.id else "" := by
    rw [← List.nil_append [f], statedId_concat]
    rfl
  simp only [marked, statedId_concat, hsingle, pick_assoc]

/-- A fragment that agrees with the marked call agrees with the call, and the mark stays. -/
theorem Agrees.of_marked {fragments : List ToolCall} {call c : ToolCall}
    (h : (marked fragments call).Agrees c) :
    call.Agrees c ∧ (marked fragments call).join c = marked fragments (call.join c) := by
  obtain ⟨hid, hname⟩ := h
  have hpick (mark : String) (hmark : Agree (pick call.id mark) c.id) :
      Agree call.id c.id ∧ pick (pick call.id mark) c.id = pick (pick call.id c.id) mark := by
    by_cases hcall : call.id = ""
    · simp only [hcall, pick, if_true] at hmark ⊢
      rcases hmark with rfl | h | rfl <;> simp_all [Agree]
    · simp_all [pick, Agree]
  obtain ⟨hagree, heq⟩ := hpick _ hid
  refine ⟨⟨hagree, hname⟩, ?_⟩
  simp only [marked, join, heq]

end ToolCall

namespace Assembler

/-- The assembler after some fragments, whether they conflict or not. -/
def pushEach (a : Assembler) (cs : List ToolCall) : Assembler :=
  cs.foldl (fun a c => (a.push c).1) a

/-- Each of some fragments with the conflict that it causes when its turn comes, if any. -/
def verdicts (a : Assembler) : List ToolCall → List (ToolCall × Option Error)
  | [] => []
  | c :: cs => (c, (a.push c).2) :: verdicts (a.push c).1 cs

/-- Those of some fragments that are taken in. -/
def accepted (a : Assembler) (cs : List ToolCall) : List ToolCall :=
  ((a.verdicts cs).filter fun p => p.2 = none).map Prod.fst

/-- Those of some fragments that cause a conflict. -/
def rejected (a : Assembler) (cs : List ToolCall) : List ToolCall :=
  ((a.verdicts cs).filter fun p => p.2 ≠ none).map Prod.fst

theorem pushEach_concat (a : Assembler) (cs : List ToolCall) (c : ToolCall) :
    a.pushEach (cs ++ [c]) = ((a.pushEach cs).push c).1 :=
  List.foldl_concat ..

theorem verdicts_concat (a : Assembler) (cs : List ToolCall) (c : ToolCall) :
    a.verdicts (cs ++ [c]) = a.verdicts cs ++ [(c, ((a.pushEach cs).push c).2)] := by
  induction cs generalizing a with
  | nil => rfl
  | cons d cs ih => rw [List.cons_append, verdicts, verdicts, ih]; rfl

theorem accepted_concat_of_none {a : Assembler} {cs : List ToolCall} {c : ToolCall}
    (h : ((a.pushEach cs).push c).2 = none) : a.accepted (cs ++ [c]) = a.accepted cs ++ [c] := by
  simp [accepted, verdicts_concat, h]

theorem rejected_concat_of_none {a : Assembler} {cs : List ToolCall} {c : ToolCall}
    (h : ((a.pushEach cs).push c).2 = none) : a.rejected (cs ++ [c]) = a.rejected cs := by
  simp [rejected, verdicts_concat, h]

theorem accepted_concat_of_some {a : Assembler} {cs : List ToolCall} {c : ToolCall} {e : Error}
    (h : ((a.pushEach cs).push c).2 = some e) : a.accepted (cs ++ [c]) = a.accepted cs := by
  simp [accepted, verdicts_concat, h]

theorem rejected_concat_of_some {a : Assembler} {cs : List ToolCall} {c : ToolCall} {e : Error}
    (h : ((a.pushEach cs).push c).2 = some e) : a.rejected (cs ++ [c]) = a.rejected cs ++ [c] := by
  simp [rejected, verdicts_concat, h]

/-! ### One fragment -/

variable {a b : Assembler}

/-- A fragment changes what stands under its own index, whether it conflicts or not. -/
theorem held_push (ha : a.WellFormed) {c : ToolCall} {i : UInt32} (hc : c.index = some i)
    (j : UInt32) : (a.push c).1.held j = if j = i then some (put i c (a.held i)) else a.held j := by
  rw [push_of_index_some ha hc]
  exact Ascending.lookup_update ha.ascending i j (put i c)

theorem whole_push {c : ToolCall} {i : UInt32} (hc : c.index = some i) :
    (a.push c).1.whole = a.whole := by
  simp [push, hc]

/-- A fragment is accepted when it agrees with what stands under its index. -/
theorem push_eq_none_iff (ha : a.WellFormed) {c : ToolCall} : (a.push c).2 = none ↔
    ∀ i call, c.index = some i → a.held i = some call → call.Agrees c := by
  cases hc : c.index with
  | none => simp [push_of_index_none hc]
  | some i =>
      have hmerge (call : ToolCall) : (mergeCall i call c).2 = none ↔ call.Agrees c := by
        rcases mergeCall_eq i call c with ⟨hagrees, heq⟩ | ⟨hnot, hne⟩
        · exact iff_of_true (by rw [heq]) hagrees
        · exact iff_of_false hne hnot
      rw [push_of_index_some ha hc]
      simp only [Option.bind_eq_none_iff, hmerge, Option.some.injEq]
      exact ⟨fun h i call hi => hi ▸ h call, fun h call => h i call rfl⟩

theorem exists_of_rejected (ha : a.WellFormed) {c : ToolCall} {e : Error}
    (h : (a.push c).2 = some e) :
    ∃ i call, c.index = some i ∧ a.held i = some call ∧ ¬ call.Agrees c := by
  by_contra hnot
  push Not at hnot
  rw [(push_eq_none_iff ha).mpr hnot] at h
  cases h

theorem put_of_agrees {c call : ToolCall} (h : call.Agrees c) (i : UInt32) :
    put i c (some call) = call.join c := by
  rcases mergeCall_eq i call c with ⟨-, heq⟩ | ⟨hnot, -⟩
  · rw [put, heq]
  · exact absurd h hnot

/-- **A rejected fragment leaves its id behind,** if the call has none, and nothing else. -/
theorem put_of_not_agrees {c call : ToolCall} {i : UInt32} (hindex : c.index = call.index)
    (h : ¬ call.Agrees c) : put i c (some call) = marked [c] call := by
  have hmarked : marked [c] call = { call with id := pick call.id c.id } := by
    simp [marked, statedId, hindex]
  rw [hmarked, put, mergeCall]
  rcases mergeText_eq "id" i call.id c.id with ⟨hid, heq⟩ | ⟨hid, heq⟩
  · rcases mergeText_eq "name" i call.function.name c.function.name with ⟨hname, -⟩ | ⟨-, heq'⟩
    · exact absurd ⟨hid, hname⟩ h
    · simp [heq, heq']
  · -- Two ids that conflict are both there, so the one of the call stays.
    rw [heq, pick, if_neg fun hcall => hid (Or.inl hcall)]

/-! ### Going on after conflicts -/

theorem wellFormed_pushEach {a : Assembler} (ha : a.WellFormed) (cs : List ToolCall) :
    (a.pushEach cs).WellFormed := by
  induction cs generalizing a with
  | nil => exact ha
  | cons c cs ih => exact ih (wellFormed_push ha c)

/-- What some rejected fragments have left behind: marks on calls that are there, and nothing on the
whole calls. -/
structure Marks (a : Assembler) (fragments : List ToolCall) (b : Assembler) : Prop where
  held : ∀ i, b.held i = (a.held i).map (marked fragments)
  whole : b.whole = a.whole
  known : ∀ f ∈ fragments, ∃ i, f.index = some i ∧ a.held i ≠ none

theorem Marks.refl (a : Assembler) : Marks a [] a := by
  refine ⟨fun i => ?_, rfl, by simp⟩
  cases a.held i with
  | none => rfl
  | some call => rw [Option.map_some, marked_nil]

variable {fragments : List ToolCall} {c : ToolCall}

/-- What stands under an index that nothing stands under otherwise has no mark. -/
theorem Marks.statedId_eq_empty (h : Marks a fragments b) {i : UInt32} (hi : a.held i = none) :
    statedId (some i) fragments = "" := by
  refine statedId_eq_empty_iff.mpr fun f hf hsame => ?_
  obtain ⟨j, hj, hne⟩ := h.known f hf
  obtain rfl : j = i := Option.some.inj (hj.symm.trans hsame)
  exact absurd hi hne

/-- A fragment that agrees in spite of the marks agrees without them, and comes to the same. -/
theorem Marks.put (h : Marks a fragments b) {i : UInt32} (hindex : c.index = some i)
    (hc : ∀ call, b.held i = some call → call.Agrees c) :
    (∀ call, a.held i = some call → call.Agrees c) ∧
      Assembler.put i c (b.held i) = marked fragments (Assembler.put i c (a.held i)) := by
  have hheld := h.held i
  cases hcall : a.held i with
  | none =>
      rw [hcall, Option.map_none] at hheld
      rw [hheld]
      have hmark : statedId c.index fragments = "" := by
        rw [hindex]
        exact h.statedId_eq_empty hcall
      exact ⟨by simp, (marked_eq_self_iff.mpr (Or.inr hmark)).symm⟩
  | some call =>
      rw [hcall, Option.map_some] at hheld
      have hagrees := hc _ hheld
      obtain ⟨hagrees', hjoin⟩ := hagrees.of_marked
      rw [hheld, put_of_agrees hagrees, put_of_agrees hagrees']
      exact ⟨fun call' hcall' => Option.some.inj hcall' ▸ hagrees', hjoin⟩

/-- What stands under an index keeps standing there. -/
theorem Marks.known_push (h : Marks a fragments b) (ha : a.WellFormed) (c : ToolCall) :
    ∀ f ∈ fragments, ∃ i, f.index = some i ∧ (a.push c).1.held i ≠ none := by
  intro f hf
  obtain ⟨j, hj, hheld⟩ := h.known f hf
  refine ⟨j, hj, ?_⟩
  cases hc : c.index with
  | none => rwa [push_of_index_none hc]
  | some i =>
      rw [held_push ha hc]
      split
      · exact Option.some_ne_none _
      · exact hheld

/-- A fragment that is accepted in spite of the marks is accepted without them. -/
theorem Marks.push_of_accepted (h : Marks a fragments b) (ha : a.WellFormed) (hb : b.WellFormed)
    (hc : (b.push c).2 = none) :
    (a.push c).2 = none ∧ Marks (a.push c).1 fragments (b.push c).1 := by
  have hknown := h.known_push ha c
  cases hindex : c.index with
  | none =>
      rw [push_of_index_none hindex, push_of_index_none hindex]
      exact ⟨rfl, h.held, by simp [h.whole], h.known⟩
  | some i =>
      obtain ⟨hagrees, hput⟩ := h.put hindex fun call => (push_eq_none_iff hb).mp hc i call hindex
      refine ⟨(push_eq_none_iff ha).mpr fun j call hj hcall => ?_, fun j => ?_, ?_, hknown⟩
      · obtain rfl : j = i := Option.some.inj (hj.symm.trans hindex)
        exact hagrees call hcall
      · rw [held_push hb hindex, held_push ha hindex]
        split
        · rw [hput, Option.map_some]
        · exact h.held j
      · rw [whole_push hindex, whole_push hindex, h.whole]

/-- A fragment that is rejected leaves a further mark. -/
theorem Marks.push_of_rejected (h : Marks a fragments b) (ha : a.WellFormed) (hb : b.WellFormed)
    {e : Error} (hc : (b.push c).2 = some e) : Marks a (fragments ++ [c]) (b.push c).1 := by
  obtain ⟨i, call, hindex, hheld, hnot⟩ := exists_of_rejected hb hc
  have hcall : call.index = some i := hb.index _ (Ascending.mem_of_lookup hheld)
  refine ⟨fun j => ?_, (whole_push hindex).trans h.whole, fun f hf => ?_⟩
  · rw [held_push hb hindex]
    split
    · next hj =>
      subst hj
      have hmarked := h.held j
      rw [hheld] at hmarked ⊢
      obtain ⟨call', hcall', rfl⟩ := Option.map_eq_some_iff.mp hmarked.symm
      rw [hcall', put_of_not_agrees (hindex.trans hcall.symm) hnot, Option.map_some, marked_concat]
    · next hj =>
      -- Under another index the mark does not count.
      rw [h.held j]
      refine Option.map_congr fun call' hcall' => ?_
      have hother : statedId (marked fragments call').index [c] = "" := by
        rw [marked_index, ha.index _ (Ascending.mem_of_lookup hcall')]
        refine statedId_eq_empty_iff.mpr fun f hf hsame => ?_
        rw [List.mem_singleton.mp hf, hindex] at hsame
        exact absurd (Option.some.inj hsame).symm hj
      rw [marked_concat]
      exact (marked_eq_self_iff.mpr (Or.inr hother)).symm
  · rcases List.mem_append.mp hf with hf | hf
    · exact h.known f hf
    · refine ⟨i, List.mem_singleton.mp hf ▸ hindex, fun hnone => ?_⟩
      have hmarked := h.held i
      rw [hheld, hnone] at hmarked
      cases hmarked

/-- **What goes on after conflicts** is what the accepted fragments come to, with marks. -/
theorem exists_marks (cs : List ToolCall) : ∃ a, ({} : Assembler).pushAll (accepted {} cs) = .ok a ∧
    a.WellFormed ∧ Marks a (rejected {} cs) (pushEach {} cs) := by
  induction cs using List.reverseRecOn with
  | nil => exact ⟨{}, rfl, wellFormed_empty, Marks.refl {}⟩
  | append_singleton cs c ih =>
      obtain ⟨a, hpush, ha, hmarks⟩ := ih
      have hb := wellFormed_pushEach wellFormed_empty cs
      rw [pushEach_concat]
      cases hc : ((pushEach {} cs).push c).2 with
      | none =>
          obtain ⟨hnone, hmarks'⟩ := hmarks.push_of_accepted ha hb hc
          rw [accepted_concat_of_none hc, rejected_concat_of_none hc]
          refine ⟨_, pushAll_append_eq_ok_iff.mpr ⟨a, hpush, ?_⟩, wellFormed_push ha c, hmarks'⟩
          rw [pushAll]
          cases hstep : a.push c with
          | mk a' fault =>
              rw [hstep] at hnone
              cases hnone
              rfl
      | some e =>
          rw [accepted_concat_of_some hc, rejected_concat_of_some hc]
          exact ⟨a, hpush, ha, hmarks.push_of_rejected ha hb hc⟩

/-- The calls of an assembler that has marks are its calls, marked. -/
theorem Marks.calls_eq (h : Marks a fragments b) (ha : a.WellFormed) (hb : b.WellFormed) :
    b.calls = a.calls.map (marked fragments) := by
  have hindexed : b.indexed = a.indexed.map fun p => (p.1, marked fragments p.2) := by
    refine Ascending.ext hb.ascending (Ascending.map_values ha.ascending _) fun i => ?_
    rw [Ascending.lookup_map]
    exact h.held i
  have hwhole : a.whole.map (marked fragments) = a.whole := by
    refine List.map_congr_left (fun call hcall => ?_) |>.trans (List.map_id _)
    refine marked_eq_self_iff.mpr (Or.inr (statedId_eq_empty_iff.mpr fun f hf hsame => ?_))
    obtain ⟨i, hi, -⟩ := h.known f hf
    rw [hi, ha.whole call hcall] at hsame
    cases hsame
  rw [calls, calls, List.map_append, hwhole, hindexed, h.whole]
  simp [Function.comp_def]

/-- The call that stands under an index is the only one with that index. -/
theorem mem_calls_iff (ha : a.WellFormed) {call : ToolCall} {i : UInt32} :
    call ∈ a.calls ∧ call.index = some i ↔ a.held i = some call := by
  have hat : call ∈ at? i a.calls ↔ call ∈ a.calls ∧ call.index = some i := by simp [at?]
  rw [← hat, at?_calls ha, Option.mem_toList]

/-- Marks are not seen when every call that they are meant for has an id. -/
theorem Marks.calls_eq_iff (h : Marks a fragments b) (ha : a.WellFormed) (hb : b.WellFormed) :
    b.calls = a.calls ↔ ∀ f ∈ fragments, f.id ≠ "" →
      ∃ call ∈ a.calls, call.index = f.index ∧ call.id ≠ "" := by
  have hmap : b.calls = a.calls ↔ ∀ call ∈ a.calls, marked fragments call = call := by
    have hinj := List.map_inj_left (l := a.calls) (f := marked fragments) (g := fun call => call)
    rwa [List.map_id', ← h.calls_eq ha hb] at hinj
  rw [hmap]
  constructor
  · intro hall f hf hid
    obtain ⟨i, hi, hne⟩ := h.known f hf
    obtain ⟨call, hheld⟩ := Option.ne_none_iff_exists'.mp hne
    obtain ⟨hcall, hindex⟩ := (mem_calls_iff ha).mpr hheld
    rcases marked_eq_self_iff.mp (hall call hcall) with hcallId | hmark
    · exact ⟨call, hcall, hindex.trans hi.symm, hcallId⟩
    · exact absurd (statedId_eq_empty_iff.mp hmark f hf (hi.trans hindex.symm)) hid
  · intro hall call hcall
    refine marked_eq_self_iff.mpr (or_iff_not_imp_left.mpr fun hcallId => ?_)
    refine statedId_eq_empty_iff.mpr fun f hf hindex => ?_
    by_contra hid
    obtain ⟨call', hcall', hindex', hcallId'⟩ := hall f hf hid
    obtain ⟨i, hi, -⟩ := h.known f hf
    have hheld := (mem_calls_iff ha).mp ⟨hcall, hindex.symm.trans hi⟩
    rw [(mem_calls_iff ha).mp ⟨hcall', hindex'.trans hi⟩] at hheld
    exact hcallId (Option.some.inj hheld ▸ hcallId')

/-- Assembled calls have the ids that their fragments state. -/
theorem id_of_mem_calls {cs : List ToolCall} (hpush : ({} : Assembler).pushAll cs = .ok a)
    {call : ToolCall} (hcall : call ∈ a.calls) {i : UInt32} (hi : call.index = some i) :
    call.id = statedId (some i) cs := by
  obtain ⟨ha, hgathers⟩ := (pushAll_eq_ok_iff wellFormed_empty).mp hpush
  have hlookup := lookup_of_gathers hgathers i
  have hheld : a.indexed.lookup i = some call := (mem_calls_iff ha).mp ⟨hcall, hi⟩
  rw [hheld] at hlookup
  split at hlookup
  · cases hlookup
  · rw [Option.some.inj hlookup]
    rfl

/-- Assemblers with the same calls are the same. -/
theorem eq_of_calls_eq (ha : a.WellFormed) (hb : b.WellFormed) (h : a.calls = b.calls) : a = b := by
  have hpush := pushAll_calls ha
  rw [h, pushAll_calls hb] at hpush
  exact (Except.ok.inj hpush).symm

/-- A call under an index has an id just when one of its fragments states one. -/
theorem exists_id_iff {cs : List ToolCall} (hpush : ({} : Assembler).pushAll cs = .ok a)
    {i : UInt32} (hi : a.held i ≠ none) : (∃ call ∈ a.calls, call.index = some i ∧ call.id ≠ "") ↔
      ∃ d ∈ cs, d.index = some i ∧ d.id ≠ "" := by
  obtain ⟨ha, -⟩ := (pushAll_eq_ok_iff wellFormed_empty).mp hpush
  have hstated : statedId (some i) cs ≠ "" ↔ ∃ d ∈ cs, d.index = some i ∧ d.id ≠ "" := by
    simp [statedId_eq_empty_iff]
  rw [← hstated]
  constructor
  · rintro ⟨call, hcall, hindex, hid⟩
    rwa [id_of_mem_calls hpush hcall hindex] at hid
  · intro hid
    obtain ⟨call, hheld⟩ := Option.ne_none_iff_exists'.mp hi
    obtain ⟨hcall, hindex⟩ := (mem_calls_iff ha).mpr hheld
    exact ⟨call, hcall, hindex, by rwa [id_of_mem_calls hpush hcall hindex]⟩

/-- **A rejected fragment leaves its id behind at most.**  The accepted fragments can all be pushed
without the others, and what is assembled in the end is what they come to, except that a call
without an id has the first one that was rejected for its index.  Nothing is left behind just when
each rejected id stands against one that is accepted, before or after.

A single rejected fragment marks the call of its index, and leaves the assembler as it was just when
it has no id or the call has one. -/
theorem rejected_leave_ids (cs : List ToolCall) :
    ∃ a, ({} : Assembler).pushAll (accepted {} cs) = .ok a ∧
      (pushEach {} cs).calls = a.calls.map (marked (rejected {} cs)) ∧
      ((pushEach {} cs).calls = a.calls ↔ ∀ c ∈ rejected {} cs, c.id ≠ "" →
        ∃ d ∈ accepted {} cs, d.index = c.index ∧ d.id ≠ "") ∧
      ∀ c e, ((pushEach {} cs).push c).2 = some e →
        ((pushEach {} cs).push c).1.calls = (pushEach {} cs).calls.map (marked [c]) ∧
        (((pushEach {} cs).push c).1 = pushEach {} cs ↔ c.id ≠ "" →
          ∃ call ∈ (pushEach {} cs).calls, call.index = c.index ∧ call.id ≠ "") := by
  obtain ⟨a, hpush, ha, hmarks⟩ := exists_marks cs
  have hb := wellFormed_pushEach wellFormed_empty cs
  refine ⟨a, hpush, hmarks.calls_eq ha hb, ?_, fun c e hc => ?_⟩
  · rw [hmarks.calls_eq_iff ha hb]
    refine forall₂_congr fun c hc => imp_congr_right fun _ => ?_
    obtain ⟨i, hi, hne⟩ := hmarks.known c hc
    rw [hi]
    exact exists_id_iff hpush hne
  · -- A single fragment is rejected as the first one after nothing was.
    have hone := (Marks.refl (pushEach {} cs)).push_of_rejected hb hb hc
    have hwf := wellFormed_push hb c
    have hiff := hone.calls_eq_iff hb hwf
    rw [List.nil_append, List.forall_mem_singleton] at hiff
    refine ⟨hone.calls_eq hb hwf, ?_⟩
    rw [← hiff]
    exact ⟨fun h => congrArg calls h, eq_of_calls_eq hwf hb⟩

/-- A fragment with the wrong name leaves its id behind, and a fragment that states the right one is
rejected after it. -/
theorem exists_trace_of_rejected :
    let look : ToolCall := { index := some 0, kind := "function", function := { name := "look" } }
    let find : ToolCall := { look with id := "b", function := { name := "find" } }
    let named : ToolCall := { look with id := "a", function := { arguments := "[]" } }
    accepted {} [look, find] = [look] ∧ (pushEach {} [look]).calls = [look] ∧
      (pushEach {} [look, find]).calls = [{ look with id := "b" }] ∧
      accepted {} [look, named] = [look, named] ∧ accepted {} [look, find, named] = [look] := by
  decide +kernel

end Assembler

end ChatRelay
