import ChatRelay.Proofs.Gemini.Stream
import ChatRelay.Proofs.Message.Joined
import ChatRelay.Proofs.Ollama.Stream

/-!
# Ids that are positions

Gemini and Ollama may leave out the ids of calls.  A call without one gets the id of its position
among the calls of the reply, be the reply read as a whole or in any number of pieces
(`Vendor.Brings.ids_eq`).  Positions differ, and so do these ids, but a position is counted without
regard to the ids that other calls state.  So where the stated ids differ, all ids do, unless a call
states the very id of a position at which another states none (`Vendor.ids_differ_unless_taken`).

## Main definitions

* `Vendor.CountsCalls` — the vendors whose calls may lack ids
* `Vendor.statedCalls`, `Vendor.IsNamedCall` — the calls that a body or a piece of a reply states
* `Vendor.Brings` — a reply that states some calls, whole or in pieces, and its message
* `Vendor.TakesPosition` — a call states the id that another gets
-/

namespace ChatRelay

open Result Accumulator

namespace Vendor

/-- The vendors whose calls may lack ids and get those of their positions. -/
def CountsCalls : Vendor → Prop
  | gemini _ | ollama _ => True
  | _ => False

/-- The calls that a body, or a value of a stream, states. -/
def statedCalls : Vendor → Json → List Json
  | gemini _, v => (Gemini.parts v).filterMap Gemini.call?
  | ollama _, v => Ollama.calls v
  | _, _ => []

/-- The name that a call states. -/
def statedName : Vendor → Json → String
  | ollama _, call => textAt ["function", "name"] call
  | _, call => textAt ["name"] call

/-- The id that a call states. -/
def statedId? (call : Json) : Option String :=
  call.textAt? ["id"]

/-- A call has a name, and the id that it states, if it does, is not empty. -/
def IsNamedCall (v : Vendor) (call : Json) : Prop :=
  v.statedName call ≠ "" ∧ statedId? call ≠ some ""

instance (v : Vendor) (call : Json) : Decidable (v.IsNamedCall call) :=
  inferInstanceAs (Decidable (_ ∧ _))

/-- The ids of some calls: those that they state, and those of their positions where they state
none. -/
def idsOf (calls : List Json) : List String :=
  calls.mapIdx fun position call => (statedId? call).getD (ToolCall.positionalId position)

/-- A call states the id of the position of another that states none. -/
def TakesPosition (calls : List Json) : Prop :=
  ∃ position call, calls[position]? = some call ∧ statedId? call = none ∧
    ∃ other ∈ calls, statedId? other = some (ToolCall.positionalId position)

/-- A reply that states some calls comes to a message, as a whole or as a stream of values. -/
inductive Brings (v : Vendor) : (calls : List Json) → Message → Prop
  | whole {body : Json} {m : Message} (h : v.reply body = .ok m) : Brings v (v.statedCalls body) m
  | streamed {chunks : List Json} {m : Message} (h : v.assembled chunks = .ok m) :
      Brings v (chunks.flatMap v.statedCalls) m

/-! ### Ids that differ -/

/-- Two calls at different positions get one id just when they state it both, or one of them states
the id of the position of the other. -/
theorem getD_positionalId_eq_iff {i j : Nat} (hij : i ≠ j) {a b : Option String} :
    a.getD (ToolCall.positionalId i) = b.getD (ToolCall.positionalId j) ↔
      (∃ id, a = some id ∧ b = some id) ∨ (a = none ∧ b = some (ToolCall.positionalId i)) ∨
        b = none ∧ a = some (ToolCall.positionalId j) := by
  have hne : ToolCall.positionalId i ≠ ToolCall.positionalId j :=
    fun h => hij (ToolCall.positionalId_injective h)
  cases a <;> cases b <;> simp [hne, eq_comm]

/-- **Ids differ unless a position is taken.** -/
theorem nodup_idsOf_iff {calls : List Json} (hids : (calls.filterMap statedId?).Nodup) :
    (idsOf calls).Nodup ↔ ¬ TakesPosition calls := by
  have hstated : ∀ i j (hi : i < calls.length) (hj : j < calls.length), i < j →
      ¬ ∃ id, statedId? calls[i] = some id ∧ statedId? calls[j] = some id := by
    rintro i j hi hj hij ⟨id, hid, hid'⟩
    have hpairwise := List.pairwise_iff_getElem.mp (List.pairwise_filterMap.mp hids)
    exact hpairwise i j hi hj hij id hid id hid' rfl
  have htakes : TakesPosition calls ↔ ∃ i j, ∃ (hi : i < calls.length) (hj : j < calls.length),
      statedId? calls[i] = none ∧ statedId? calls[j] = some (ToolCall.positionalId i) := by
    simp only [TakesPosition, List.getElem?_eq_some_iff, List.mem_iff_getElem]
    constructor
    · rintro ⟨i, _, ⟨hi, rfl⟩, hnone, _, ⟨j, hj, rfl⟩, hid⟩
      exact ⟨i, j, hi, hj, hnone, hid⟩
    · rintro ⟨i, j, hi, hj, hnone, hid⟩
      exact ⟨i, _, ⟨hi, rfl⟩, hnone, _, ⟨j, hj, rfl⟩, hid⟩
  simp only [List.Nodup, idsOf, List.pairwise_iff_getElem, List.length_mapIdx,
    List.getElem_mapIdx, htakes, not_exists]
  constructor
  · rintro hne i j hi hj ⟨hnone, hid⟩
    rcases Nat.lt_trichotomy i j with hij | rfl | hij
    · exact hne i j hi hj hij ((getD_positionalId_eq_iff hij.ne).mpr (Or.inr (Or.inl ⟨hnone, hid⟩)))
    · exact absurd (hnone.symm.trans hid) (by simp)
    · exact hne j i hj hi hij ((getD_positionalId_eq_iff hij.ne).mpr (Or.inr (Or.inr ⟨hnone, hid⟩)))
  · intro hfree i j hi hj hij hsame
    rcases (getD_positionalId_eq_iff hij.ne).mp hsame with hboth | htaken | htaken
    · exact hstated i j hi hj hij hboth
    · exact hfree i j hi hj htaken
    · exact hfree j i hj hi htaken

theorem ne_empty_of_mem_idsOf {v : Vendor} {calls : List Json}
    (hcalls : ∀ call ∈ calls, v.IsNamedCall call) : ∀ id ∈ idsOf calls, id ≠ "" := by
  intro id hid
  obtain ⟨i, hi, rfl⟩ := List.mem_mapIdx.mp hid
  cases h : statedId? calls[i] with
  | none => exact ToolCall.positionalId_ne_empty i
  | some id =>
      rintro rfl
      exact (hcalls _ (List.getElem_mem hi)).2 h

/-! ### Calls without an index -/

/-- Calls without an index never conflict, so a stream of them comes to a message, which has all of
them, with an id given to those that lack one. -/
theorem exists_assembled_of_index_none {v : Vendor} {chunks : List Json} {fs : List Message}
    (h : v.Streams chunks fs) (hfs : ∀ f ∈ fs, f.IsSpoken) (hempty : v.emptyArguments = none)
    (hindex : ∀ f ∈ fs, ∀ c ∈ f.toolCalls, c.index = none) :
    ∃ m, v.assembled chunks = .ok m ∧
      m.toolCalls = named 0 (fs.flatMap Message.toolCalls) := by
  have hrepaired : ((v.accumulator.repaired fs).filterMap contentful?).flatMap Message.toolCalls =
      named 0 (fs.flatMap Message.toolCalls) := by
    rw [flatMap_toolCalls_filterMap, calls_repaired_of_index_none hempty hindex]
  have hpush := pushAll_named_of_index_none hindex
  rw [← hrepaired] at hpush ⊢
  -- A stream in which nothing is said comes to an empty message, any other to what is merged.
  obtain ⟨m', hm', hcalls⟩ : ∃ m',
      collected ((v.accumulator.repaired fs).filterMap contentful?) = .ok m' ∧
        m'.toolCalls =
          ((v.accumulator.repaired fs).filterMap contentful?).flatMap Message.toolCalls := by
    by_cases hnil : (v.accumulator.repaired fs).filterMap contentful? = []
    · rw [hnil]
      exact ⟨.assistant "", rfl, rfl⟩
    · have hspoken : ∀ f ∈ (v.accumulator.repaired fs).filterMap contentful?, f.IsSpoken := by
        intro f hf
        obtain ⟨g, hg, hfg⟩ := List.mem_filterMap.mp hf
        obtain ⟨rfl, -⟩ := contentful?_eq_some_iff.mp hfg
        exact isSpoken_repaired hfs g hg
      obtain ⟨m, hm⟩ := Message.exists_concat hnil hspoken hpush
      refine ⟨m, (if_neg (mt List.isEmpty_iff.mp hnil)).trans hm, ?_⟩
      rcases Message.toolCalls_of_concat hm with ⟨-, hcalls⟩ | ⟨-, b, hwf, hgathers, hcalls⟩
      · exact hcalls
      · have hb := (Assembler.pushAll_eq_ok_iff Assembler.wellFormed_empty).mpr ⟨hwf, hgathers⟩
        obtain rfl := Except.ok.inj (hpush.symm.trans hb)
        simp [hcalls, Assembler.calls]
  obtain ⟨m, hm, hsame⟩ := exists_assembled_of_collected h hm'
  exact ⟨m, hm, hsame.toolCalls.trans hcalls⟩

/-! ### Reading replies -/

/-- A call as it is read; `position` is its position in the reply, where that is known. -/
def callOf : Vendor → (position : Option Nat) → Json → ToolCall
  | ollama _, position, call => Ollama.callOf position call
  | _, position, call => Gemini.callOf position call

theorem callOf_some {v : Vendor} {call : Json} (h : v.IsNamedCall call) (n : Nat) :
    v.callOf (some n) call =
      if (v.callOf none call).id = "" then
        { v.callOf none call with id := ToolCall.positionalId n }
      else v.callOf none call := by
  cases v <;> exact ToolCall.ofFunction_getD h.2 n ..

theorem callOf_id (v : Vendor) (n : Nat) (call : Json) :
    (v.callOf (some n) call).id = (statedId? call).getD (ToolCall.positionalId n) := by
  cases v <;> rfl

theorem callOf_index (v : Vendor) (position : Option Nat) (call : Json) :
    (v.callOf position call).index = none := by
  cases v <;> rfl

theorem callOf_name {v : Vendor} (hv : v.CountsCalls) (position : Option Nat) (call : Json) :
    (v.callOf position call).function.name = v.statedName call := by
  cases v with
  | openAI c => cases hv
  | claude c => cases hv
  | gemini c => rfl
  | ollama c => rfl

/-- Bodies and values of a stream are read alike: what is read says the calls that are stated, with
their positions or without. -/
theorem exists_said {v : Vendor} (hv : v.CountsCalls) : ∃ said : Bool → Json → Message,
    (∀ body m, v.reply body = .ok m → m = said true body) ∧
    (∀ chunk g, v.fragment chunk = .ok g → g = contentful? (said false chunk)) ∧
    ∀ numbered j, (said numbered j).IsSpoken ∧ (said numbered j).toolCalls =
      (v.statedCalls j).mapIdx fun i call => v.callOf (if numbered then some i else none) call := by
  cases v with
  | openAI c => cases hv
  | claude c => cases hv
  | gemini c =>
      exact ⟨Gemini.said, fun _ _ => Gemini.eq_said_of_reply, fun _ _ => Gemini.eq_said_of_fragment,
        fun numbered j => ⟨⟨rfl, rfl, rfl⟩, rfl⟩⟩
  | ollama c =>
      exact ⟨Ollama.messageOf, fun _ _ => Ollama.eq_messageOf_of_reply,
        fun _ _ => Ollama.eq_messageOf_of_fragment, fun numbered j => ⟨⟨rfl, rfl, rfl⟩, rfl⟩⟩

/-- **The calls of a stream are those of the reply in one piece.** -/
theorem exists_assembled {v : Vendor} (hv : v.CountsCalls) {chunks : List Json}
    (hcalls : ∀ call ∈ chunks.flatMap v.statedCalls, v.IsNamedCall call)
    (hfragments : ∀ chunk ∈ chunks, ∃ f, v.fragment chunk = .ok f) :
    ∃ m, v.assembled chunks = .ok m ∧ m.toolCalls =
      (chunks.flatMap v.statedCalls).mapIdx fun i call => v.callOf (some i) call := by
  obtain ⟨said, -, hfragment, hsaid⟩ := exists_said hv
  have hstream : v.Streams chunks (chunks.map (said false)) := by
    refine streams_map fun chunk hchunk => ?_
    obtain ⟨g, hg⟩ := hfragments chunk hchunk
    rw [hg, hfragment chunk g hg]
  have hslice (chunk : Json) : (said false chunk).toolCalls =
      (v.statedCalls chunk).map (v.callOf none) := by
    rw [(hsaid false chunk).2]
    exact List.mapIdx_eq_iff.mpr fun i => by simp
  have hall : (chunks.map (said false)).flatMap Message.toolCalls =
      (chunks.flatMap v.statedCalls).map (v.callOf none) := by
    rw [List.flatMap_map, List.map_flatMap]
    exact congrArg (List.flatMap · _) (funext hslice)
  -- Calls are closed with empty arguments at the end for Claude alone, and Claude is not counted.
  have hempty : v.emptyArguments = none := by
    cases v with
    | claude c => cases hv
    | _ => rfl
  have hnamed : named 0 ((chunks.flatMap v.statedCalls).map (v.callOf none)) =
      (chunks.flatMap v.statedCalls).mapIdx fun i call => v.callOf (some i) call := by
    rw [named_map (fun call hcall => by rw [callOf_name hv]; exact (hcalls call hcall).1)
      fun call hcall => callOf_some (hcalls call hcall)]
    simp
  rw [← hnamed, ← hall]
  refine exists_assembled_of_index_none hstream ?_ hempty ?_
  · exact List.forall_mem_map.mpr fun chunk _ => (hsaid false chunk).1
  · intro f hf c hc
    obtain ⟨chunk, -, rfl⟩ := List.mem_map.mp hf
    rw [hslice] at hc
    obtain ⟨call, -, rfl⟩ := List.mem_map.mp hc
    exact callOf_index v none call

/-- **A reply has the same ids whether it comes as a whole or in pieces.** -/
theorem Brings.ids_eq {v : Vendor} (hv : v.CountsCalls) {calls : List Json}
    (hcalls : ∀ call ∈ calls, v.IsNamedCall call) {m : Message} (h : v.Brings calls m) :
    m.toolCalls.map ToolCall.id = idsOf calls := by
  have hread {calls : List Json}
      (hm : m.toolCalls = calls.mapIdx fun i call => v.callOf (some i) call) :
      m.toolCalls.map ToolCall.id = idsOf calls := by
    rw [hm]
    exact List.ext_getElem (by simp [idsOf]) fun i _ _ => by simp [idsOf, callOf_id]
  cases h with
  | @whole body _ hreply =>
      obtain ⟨said, hwhole, -, hsaid⟩ := exists_said hv
      refine hread ?_
      rw [hwhole body m hreply, (hsaid true body).2]
      rfl
  | @streamed chunks _ hassembled =>
      obtain ⟨fragments, hfragments, -⟩ := bind_eq_ok_iff.mp hassembled
      obtain ⟨m', hm', hread'⟩ := exists_assembled hv hcalls (exists_of_mapM_eq_ok hfragments)
      obtain rfl := Except.ok.inj (hassembled.symm.trans hm')
      exact hread hread'

/-- **Ids differ unless a position is taken.**  Where the calls of a reply have names, and the ids
that they state differ, every call of the message has an id, be the reply read as a whole or in
pieces, and a reply in pieces comes to a message if each of them is read.  The ids differ just when
no call states the id of the position of one that states none. -/
theorem ids_differ_unless_taken {v : Vendor} (hv : v.CountsCalls) {calls : List Json}
    (hcalls : ∀ call ∈ calls, v.IsNamedCall call) (hids : (calls.filterMap statedId?).Nodup) :
    (∀ m, v.Brings calls m → m.toolCalls.map ToolCall.id = idsOf calls ∧
      (∀ c ∈ m.toolCalls, c.id ≠ "") ∧
      ((m.toolCalls.map ToolCall.id).Nodup ↔ ¬ TakesPosition calls)) ∧
    ∀ chunks, chunks.flatMap v.statedCalls = calls →
      (∀ chunk ∈ chunks, ∃ f, v.fragment chunk = .ok f) → ∃ m, v.assembled chunks = .ok m := by
  refine ⟨fun m hm => ?_, ?_⟩
  · have heq := hm.ids_eq hv hcalls
    refine ⟨heq, fun c hc => ?_, by rw [heq, nodup_idsOf_iff hids]⟩
    exact ne_empty_of_mem_idsOf hcalls _ (heq ▸ List.mem_map_of_mem hc)
  · rintro chunks rfl hfragments
    obtain ⟨m, hm, -⟩ := exists_assembled hv hcalls hfragments
    exact ⟨m, hm⟩

/-- A call with an id, and one without. -/
def lookAndFind (id : String) : List Json := [
  .ofMembers [("id", .text id), ("function", .ofMembers [("name", .text "look")]),
    ("name", .text "look")],
  .ofMembers [("function", .ofMembers [("name", .text "find")]), ("name", .text "find")]]

/-- Calls as Gemini states them. -/
def candidatesJson (calls : List Json) : Json :=
  .ofMembers [("candidates", .array [.ofMembers [("content", .ofMembers [
    ("parts", .array (calls.map fun call => .ofMembers [("functionCall", call)]))])]])]

/-- Calls as Ollama states them. -/
def toolCallsJson (calls : List Json) : Json :=
  .ofMembers [("message", .ofMembers [("tool_calls", .array calls)])]

/-- The second call gets the id of its position, which is not the one that the first states. -/
theorem ids_differ_lookAndFind :
    (∃ m, (gemini { http := default }).reply (candidatesJson (lookAndFind "a")) = .ok m ∧
      m.toolCalls.map ToolCall.id = ["a", "call_1"] ∧ (m.toolCalls.map ToolCall.id).Nodup) ∧
    ∃ m, (ollama { http := default }).assembled
        ((lookAndFind "a").map fun call => toolCallsJson [call]) = .ok m ∧
      m.toolCalls.map ToolCall.id = ["a", "call_1"] ∧ (m.toolCalls.map ToolCall.id).Nodup := by
  have hids : ((lookAndFind "a").filterMap statedId?).Nodup := by decide_cbv
  have hfree : ¬ TakesPosition (lookAndFind "a") := (nodup_idsOf_iff hids).mp (by decide_cbv)
  have hexpected : idsOf (lookAndFind "a") = ["a", "call_1"] := by decide_cbv
  constructor
  · have hv : (gemini { http := default }).CountsCalls := trivial
    have hnamed : ∀ call ∈ lookAndFind "a", (gemini { http := default }).IsNamedCall call := by
      decide +kernel
    have hstated : (gemini { http := default }).statedCalls (candidatesJson (lookAndFind "a")) =
        lookAndFind "a" := by decide_cbv
    obtain ⟨m, hm, -⟩ := map_eq_ok_iff.mp (show ((gemini { http := default }).reply
      (candidatesJson (lookAndFind "a"))).map (fun _ => ()) = .ok () by decide_cbv)
    obtain ⟨heq, -, hnodup⟩ := (ids_differ_unless_taken hv hnamed hids).1 m
      (hstated ▸ .whole hm)
    exact ⟨m, hm, heq.trans hexpected, hnodup.mpr hfree⟩
  · have hv : (ollama { http := default }).CountsCalls := trivial
    have hnamed : ∀ call ∈ lookAndFind "a", (ollama { http := default }).IsNamedCall call := by
      decide +kernel
    have hstated : ((lookAndFind "a").map fun call => toolCallsJson [call]).flatMap
        (ollama { http := default }).statedCalls = lookAndFind "a" := by decide_cbv
    obtain ⟨hall, hmade⟩ := ids_differ_unless_taken hv hnamed hids
    obtain ⟨m, hm⟩ := hmade _ hstated fun chunk hchunk => by
      obtain ⟨call, -, rfl⟩ := List.mem_map.mp hchunk
      exact ⟨_, rfl⟩
    obtain ⟨heq, -, hnodup⟩ := hall m (hstated ▸ .streamed hm)
    exact ⟨m, hm, heq.trans hexpected, hnodup.mpr hfree⟩

/-- Two calls have one id, where the first states that of the position of the second. -/
theorem exists_ids_taken :
    ((gemini { http := default }).reply (candidatesJson (lookAndFind "call_1"))).map
        (fun m => m.toolCalls.map ToolCall.id) = .ok ["call_1", "call_1"] ∧
      ((gemini { http := default }).assembled
          ((lookAndFind "call_1").map fun call => candidatesJson [call])).map
        (fun m => m.toolCalls.map ToolCall.id) = .ok ["call_1", "call_1"] ∧
      ((ollama { http := default }).reply (toolCallsJson (lookAndFind "call_1"))).map
        (fun m => m.toolCalls.map ToolCall.id) = .ok ["call_1", "call_1"] ∧
      ((ollama { http := default }).assembled
          ((lookAndFind "call_1").map fun call => toolCallsJson [call])).map
        (fun m => m.toolCalls.map ToolCall.id) = .ok ["call_1", "call_1"] := by
  refine ⟨?_, ?_, ?_, ?_⟩
  all_goals decide_cbv

end Vendor

end ChatRelay
