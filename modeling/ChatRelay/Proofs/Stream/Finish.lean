import ChatRelay.Proofs.Stream.Assembled
import ChatRelay.Proofs.Stream.Coalescing
import ChatRelay.Proofs.Tool.Agreement

/-!
# The end of a stream never fails

Fragments may conflict when they are merged, and so a push may fail.  What is left at the end of a
stream cannot: only fragments without content wait, and the calls that are closed then state no id
and no name (`Accumulator.exists_finish`).  This needs that nothing else in the fragments of a
vendor can conflict (`Vendor.isSpoken_of_fragment`).

## Main definitions

* `Accumulator.IsQuiet` — nothing that waits can conflict
-/

namespace ChatRelay

open Result

/-! ### What vendors send -/

namespace Vendor

theorem isSpoken_of_contentful? {f g : Message} (h : contentful? f = some g) (hf : f.IsSpoken) :
    g.IsSpoken :=
  (contentful?_eq_some_iff.mp h).1 ▸ hf

theorem isSpoken_eventFragment? {kind : String} {event : Json} {f : Message}
    (h : Claude.eventFragment? kind event = some f) : f.IsSpoken := by
  unfold Claude.eventFragment? at h
  split at h
  · cases h
    exact ⟨rfl, rfl, rfl⟩
  · cases h
    unfold Claude.blockStart
    split <;> exact ⟨rfl, rfl, rfl⟩
  · cases h
    unfold Claude.blockDelta
    split <;> exact ⟨rfl, rfl, rfl⟩
  · cases h
    exact ⟨rfl, rfl, rfl⟩
  · cases h

/-- **What a vendor streams is said by the model.** -/
theorem isSpoken_of_fragment {v : Vendor} {chunk : Json} {f : Message}
    (h : v.fragment chunk = .ok (some f)) : f.IsSpoken := by
  cases v with
  | openAI c =>
      simp only [fragment, OpenAI.fragment] at h
      split at h
      · cases h
      · split at h <;> exact isSpoken_of_contentful? (Except.ok.inj h) ⟨rfl, rfl, rfl⟩
  | claude c =>
      simp only [fragment, Claude.fragment] at h
      split at h
      · cases h
      · split at h
        · cases h
        · obtain ⟨g, hg, hf⟩ := Option.bind_eq_some_iff.mp (Except.ok.inj h)
          exact isSpoken_of_contentful? hf (isSpoken_eventFragment? hg)
  | gemini c =>
      simp only [fragment, Gemini.fragment] at h
      split at h
      · cases h
      · obtain ⟨g, hg, hf⟩ := map_eq_ok_iff.mp h
        refine isSpoken_of_contentful? hf ?_
        unfold Gemini.candidate at hg
        simp only at hg
        split at hg
        · cases hg
        · cases hg
          exact ⟨rfl, rfl, rfl⟩
  | ollama c =>
      simp only [fragment, Ollama.fragment] at h
      split at h
      · cases h
      · exact isSpoken_of_contentful? (Except.ok.inj h) ⟨rfl, rfl, rfl⟩

end Vendor

/-! ### What waits -/

namespace Accumulator

/-- The fragments that wait were said by the model and hold no calls. -/
def IsQuiet (a : Accumulator) : Prop :=
  ∀ f ∈ a.pending, f.IsSpoken ∧ f.toolCalls = []

theorem isQuiet_push {a : Accumulator} (ha : a.IsQuiet) {f : Message} (hf : f.IsSpoken) :
    (a.push f).2.IsQuiet := by
  rw [push_eq]
  split
  · next hempty =>
    intro g hg
    rcases List.mem_append.mp hg with hg | hg
    · exact ha g hg
    · rw [List.mem_singleton] at hg
      subst hg
      refine ⟨?_, (Message.isEmptyFragment_iff.mp hempty).2.2.1⟩
      rw [repair_message]
      exact ⟨hf.role, hf.toolCallId, hf.toolName⟩
  · intro g hg
    cases hg

theorem isQuiet_finish (a : Accumulator) : a.finish.2.IsQuiet := by
  rw [finish_state]
  intro f hf
  cases hf

/-- Closing calls never conflict, as they state nothing but arguments. -/
theorem pushAll_closeCalls (a : Accumulator) :
    ∃ b, ({} : Assembler).pushAll a.closeCalls.2 = .ok b := by
  refine (Assembler.exists_pushAll_iff fun c hc => (mem_closeCalls hc).2.2).mpr ?_
  refine List.pairwise_iff_forall_sublist.mpr fun {c d} hsub hconflict => ?_
  have hc := mem_closeCalls (hsub.subset (List.mem_cons_self (a := c) (l := [d])))
  exact hconflict.2 ⟨Or.inl hc.1, Or.inl hc.2.1⟩

/-- **The end of a stream never fails.** -/
theorem exists_finish {a : Accumulator} (ha : a.IsQuiet) : ∃ out, a.finish.1 = .ok out := by
  rw [finish_eq]
  split
  · exact ⟨none, rfl⟩
  · next hne =>
    have hwaiting : a.pending.flatMap Message.toolCalls = [] :=
      List.flatMap_eq_nil_iff.mpr fun f hf => (ha f hf).2
    have hclosing : a.closing.flatMap Message.toolCalls = a.closeCalls.2 := by
      by_cases hnil : a.closeCalls.2 = [] <;> simp [closing, hnil]
    obtain ⟨b, hb⟩ := pushAll_closeCalls a
    have hcalls : ({} : Assembler).pushAll
        ((a.pending ++ a.closing).flatMap Message.toolCalls) = .ok b := by
      rw [List.flatMap_append, hwaiting, hclosing]
      exact hb
    have hspoken : ∀ f ∈ a.pending ++ a.closing, f.IsSpoken := by
      intro f hf
      rcases List.mem_append.mp hf with hf | hf
      · exact (ha f hf).1
      · unfold closing at hf
        split at hf
        · cases hf
        · rw [List.mem_singleton.mp hf]
          exact ⟨rfl, rfl, rfl⟩
    obtain ⟨m, hm⟩ := Message.exists_concat (by simpa using hne) hspoken hcalls
    exact ⟨some m, map_eq_ok_iff.mpr ⟨m, hm, rfl⟩⟩

end Accumulator

end ChatRelay
