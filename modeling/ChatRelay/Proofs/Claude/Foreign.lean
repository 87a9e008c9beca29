import ChatRelay.Proofs.Claude.Events
import ChatRelay.Proofs.Stream.Separation

/-!
# Blocks of other kinds

A body is read without its blocks of other kinds than text, thinking and calls.  A stream is not:
the start of such a block says nothing, but its growth is read by the kind of the delta alone,
whatever the kind of the block.  So a text or thinking of it joins that of the reply, and pieces of
arguments make up a call without a name (`foreign_block`).

The message of a stream is the same without the events about the block just when no delta of it says
anything.  In any case all other calls are the same, as those pieces only continue a call and are of
an index of their own.

## Main definitions

* `Claude.IsForeign` — a block of another kind
* `Claude.ForeignAt` — the blocks that a stream starts at an index are of other kinds
* `Claude.Concerns`, `Claude.without` — the events about the block at an index, and all others
* `Claude.Leaks` — a delta that says something
* `Claude.callsPassedOn`, `Claude.HasTextsOf` — the calls and the texts that a stream comes to
-/

namespace ChatRelay.Claude

open Vendor ToolCall

/-- A block of another kind than text, thinking and calls. -/
def IsForeign (block : Json) : Prop :=
  kind block ≠ some "text" ∧ kind block ≠ some "thinking" ∧ kind block ≠ some "tool_use"

/-- An event about the block at an index: its start, its growth or its stop. -/
def Concerns (i : UInt32) (event : Json) : Prop :=
  (kind event = some "content_block_start" ∨ kind event = some "content_block_delta" ∨
    kind event = some "content_block_stop") ∧ blockIndex event = i

/-- The blocks that a stream starts at an index are of other kinds. -/
def ForeignAt (i : UInt32) (events : List Json) : Prop :=
  ∀ event ∈ events, kind event = some "content_block_start" → blockIndex event = i →
    IsForeign (event.getD "content_block")

/-- A delta with a piece of arguments. -/
def IsPiece (event : Json) : Prop :=
  kind event = some "content_block_delta" ∧ kind (event.getD "delta") = some "input_json_delta"

/-- A delta that says something, as it is read by its own kind. -/
def Leaks (event : Json) : Prop :=
  kind event = some "content_block_delta" ∧
      (kind (event.getD "delta") = some "text_delta" ∧ text (event.getD "delta") ≠ "" ∨
        kind (event.getD "delta") = some "thinking_delta" ∧ thinking (event.getD "delta") ≠ "") ∨
    IsPiece event

instance (block : Json) : Decidable (IsForeign block) :=
  inferInstanceAs (Decidable (_ ∧ _ ∧ _))

instance (i : UInt32) (event : Json) : Decidable (Concerns i event) :=
  inferInstanceAs (Decidable ((_ ∨ _ ∨ _) ∧ _))

instance (i : UInt32) (events : List Json) : Decidable (ForeignAt i events) :=
  inferInstanceAs (Decidable (∀ event ∈ events, _ → _ → _))

instance (event : Json) : Decidable (IsPiece event) :=
  inferInstanceAs (Decidable (_ ∧ _))

instance (event : Json) : Decidable (Leaks event) :=
  inferInstanceAs (Decidable (_ ∧ (_ ∧ _ ∨ _ ∧ _) ∨ _))

/-- The events of a stream but those about the block at an index. -/
def without (i : UInt32) (events : List Json) : List Json :=
  events.filter fun event => ¬ Concerns i event

/-! ### Bodies -/

/-- A block of another kind adds nothing to a body. -/
theorem add_of_isForeign {block : Json} (h : IsForeign block) (b : Blocks) (position : Nat) :
    b.add block position = b := by
  obtain ⟨htext, hthinking, hcall⟩ := h
  unfold Blocks.add
  split
  · next hkind => exact absurd hkind htext
  · next hkind => exact absurd hkind hthinking
  · next hkind => exact absurd hkind hcall
  · rfl

/-- The other blocks of a body keep their positions, and say all that it says. -/
theorem ofList_eq_foldl_filter (blocks : List Json) :
    Blocks.ofList blocks =
      (blocks.zipIdx.filter fun p => ¬ IsForeign p.1).foldl (fun b p => b.add p.1 p.2) {} := by
  rw [List.foldl_filter, Blocks.ofList]
  congr 1
  funext b p
  by_cases h : IsForeign p.1
  · rw [if_neg (by simpa using h)]
    exact add_of_isForeign h b p.2
  · rw [if_pos (by simpa using h)]

/-! ### What events say -/

/-- An event starts a block, tells of its growth, or says nothing but a report. -/
theorem said_cases (event : Json) :
    (kind event = some "content_block_start" ∧
        said event = blockStart (event.getD "content_block") (blockIndex event)) ∨
      (kind event = some "content_block_delta" ∧
        said event = blockDelta (event.getD "delta") (blockIndex event)) ∨
      (kind event ≠ some "content_block_start" ∧ kind event ≠ some "content_block_delta" ∧
        ∃ info, said event = { Message.assistant "" with info }) := by
  by_cases hstart : kind event = some "content_block_start"
  · exact Or.inl ⟨hstart, by simp [said, hstart, eventFragment?]⟩
  · by_cases hdelta : kind event = some "content_block_delta"
    · exact Or.inr (Or.inl ⟨hdelta, by simp [said, hdelta, eventFragment?]⟩)
    · refine Or.inr (Or.inr ⟨hstart, hdelta, ?_⟩)
      cases hkind : kind event with
      | none => exact ⟨none, by simp [said, hkind, Message.assistant]⟩
      | some name =>
          rw [said, hkind, Option.bind_some]
          unfold eventFragment?
          split
          · exact ⟨_, rfl⟩
          · exact absurd hkind hstart
          · exact absurd hkind hdelta
          · exact ⟨_, rfl⟩
          · exact ⟨none, rfl⟩

/-- What holds of everything said in a stream, whatever its events. -/
theorem spec_said (event : Json) :
    (said event).IsSpoken ∧ (said event).toolCalls.length ≤ 1 ∧
      (Accumulator.isFinishing (said event) = true → (said event).toolCalls = []) ∧
      ∀ c ∈ (said event).toolCalls, c.index = some (blockIndex event) ∧
        (kind event = some "content_block_start" ∨ kind event = some "content_block_delta") := by
  rcases said_cases event with ⟨hkind, hsaid⟩ | ⟨hkind, hsaid⟩ | ⟨-, -, info, hsaid⟩
  · rw [hsaid, blockStart_eq]
    refine ⟨⟨rfl, rfl, rfl⟩, ?_, ?_, ?_⟩
    · simp only
      split <;> simp
    · simp [Accumulator.isFinishing, Message.finishReason?, Message.assistant]
    · simp only
      split
      · intro c hc
        rw [List.mem_singleton.mp hc]
        exact ⟨rfl, Or.inl hkind⟩
      · simp
  · rw [hsaid, blockDelta_eq]
    refine ⟨⟨rfl, rfl, rfl⟩, ?_, ?_, ?_⟩
    · simp only
      split <;> simp
    · simp [Accumulator.isFinishing, Message.finishReason?, Message.assistant]
    · simp only
      split
      · intro c hc
        rw [List.mem_singleton.mp hc]
        exact ⟨rfl, Or.inr hkind⟩
      · simp
  · rw [hsaid]
    exact ⟨⟨rfl, rfl, rfl⟩, Nat.zero_le 1, fun _ => rfl, by simp [Message.assistant]⟩

/-- The start of a block of another kind says nothing, and its growth says what it says of any
block. -/
theorem said_of_concerns {i : UInt32} {event : Json} (h : Concerns i event)
    (hforeign : kind event = some "content_block_start" →
      IsForeign (event.getD "content_block")) :
    said event = if kind event = some "content_block_delta" then blockDelta (event.getD "delta") i
      else .assistant "" := by
  obtain ⟨hkind, rfl⟩ := h
  rcases said_cases event with ⟨hstart, hsaid⟩ | ⟨hdelta, hsaid⟩ | ⟨hstart, hdelta, -⟩
  · obtain ⟨htext, -, hcall⟩ := hforeign hstart
    rw [hsaid, blockStart_eq, if_neg htext, if_neg hcall, hstart]
    rfl
  · rw [hsaid, if_pos hdelta]
  · have hstop := (hkind.resolve_left hstart).resolve_left hdelta
    simp [said, hstop, eventFragment?]

section Foreign

variable {i : UInt32} {event : Json} (h : Concerns i event)
  (hforeign : kind event = some "content_block_start" → IsForeign (event.getD "content_block"))
include h hforeign

/-- What is said of a block of another kind has no report, and its calls are pieces. -/
theorem calls_of_concerns :
    Accumulator.isFinishing (said event) = false ∧
      (∀ c ∈ (said event).toolCalls, c.index = some i ∧ c.Continues) ∧
      ((said event).toolCalls = [] ↔ ¬ IsPiece event) := by
  rw [said_of_concerns h hforeign]
  split
  · next hdelta =>
    rw [blockDelta_eq]
    refine ⟨rfl, ?_, ?_⟩
    · simp only
      split
      · intro c hc
        rw [List.mem_singleton.mp hc]
        exact ⟨rfl, rfl, rfl⟩
      · simp
    · simp [IsPiece, hdelta]
  · next hdelta =>
    exact ⟨rfl, by simp [Message.assistant], by simp [IsPiece, hdelta, Message.assistant]⟩

/-- Only a delta that says something has a fragment. -/
theorem contentful?_of_concerns : contentful? (said event) = none ↔ ¬ Leaks event := by
  rw [said_of_concerns h hforeign, contentful?_eq_none_iff]
  split
  · next hdelta =>
    rw [blockDelta_eq]
    by_cases htext : kind (event.getD "delta") = some "text_delta"
    · simp [Leaks, IsPiece, hdelta, htext, Message.isEmptyFragment, Message.assistant]
    · by_cases hthinking : kind (event.getD "delta") = some "thinking_delta"
      · simp [Leaks, IsPiece, hdelta, hthinking, Message.isEmptyFragment, Message.assistant,
          getD_nonEmpty?]
      · by_cases hpiece : kind (event.getD "delta") = some "input_json_delta" <;>
          simp [Leaks, IsPiece, hdelta, htext, hthinking, hpiece, Message.isEmptyFragment,
            Message.assistant]
  · next hdelta => simp [Leaks, IsPiece, hdelta, Message.isEmptyFragment, Message.assistant]

end Foreign

/-! ### What streams come to -/

/-- A stream that comes to a message has events of some kind, and none reports an error. -/
theorem kind_of_assembled {config : Config} {events : List Json} {m : Message}
    (h : (Vendor.claude config).assembled events = .ok m) :
    ∀ event ∈ events, kind event ≠ none ∧ kind event ≠ some "error" := by
  obtain ⟨fs, hfs, -⟩ := Result.bind_eq_ok_iff.mp h
  intro event hevent
  obtain ⟨f, hf⟩ := Result.exists_of_mapM_eq_ok hfs event hevent
  change fragment event = .ok f at hf
  unfold fragment failure? at hf
  constructor
  · intro hnone
    have htype : event.textAt? ["type"] = none := hnone
    simp [htype] at hf
  · intro herror
    have htype : event.textAt? ["type"] = some "error" := herror
    simp [htype] at hf

/-- A text that is left out is missing. -/
theorem join_filter_ne {α : Type} {p : α → Bool} {g : α → String} {xs : List α} {x : α}
    (hx : x ∈ xs) (hp : p x = false) (hg : g x ≠ "") :
    String.join ((xs.filter p).map g) ≠ String.join (xs.map g) := by
  have hle (xs : List α) : (String.join ((xs.filter p).map g)).length ≤
      (String.join (xs.map g)).length := by
    induction xs with
    | nil => exact Nat.le_refl _
    | cons y ys ih =>
        rw [List.map_cons, String.join_cons, String.length_append]
        cases hy : p y with
        | true =>
            rw [List.filter_cons_of_pos hy, List.map_cons, String.join_cons, String.length_append]
            omega
        | false =>
            rw [List.filter_cons_of_neg (by simp [hy])]
            omega
  obtain ⟨before, after, rfl⟩ := List.append_of_mem hx
  intro heq
  have hlength := congrArg String.length heq
  have hbefore := hle before
  have hafter := hle after
  have hpos : 0 < (g x).length := Nat.pos_of_ne_zero fun hzero => hg (by simpa using hzero)
  rw [List.filter_append, List.filter_cons_of_neg (by simp [hp]), List.map_append, List.map_append,
    List.map_cons, String.join_append, String.join_append, String.join_cons, String.length_append,
    String.length_append, String.length_append] at hlength
  omega

/-- The calls of a stream as they are passed on. -/
def callsPassedOn (config : Config) (events : List Json) : List ToolCall :=
  ((Vendor.claude config).accumulator.repaired (events.map said)).flatMap Message.toolCalls

/-- The texts of a message are those of a stream, one after the other. -/
structure HasTextsOf (events : List Json) (m : Message) : Prop where
  content : m.content = String.join (events.map fun event => (said event).content)
  reasoning : m.reasoning.getD "" =
    String.join (events.map fun event => (said event).reasoning.getD "")

theorem index_said {events : List Json} :
    ∀ f ∈ events.map said, ∀ c ∈ f.toolCalls, c.index ≠ none := by
  intro f hf c hc
  obtain ⟨event, -, rfl⟩ := List.mem_map.mp hf
  obtain ⟨-, -, -, hcalls⟩ := spec_said event
  rw [(hcalls c hc).1]
  exact Option.some_ne_none _

/-- The calls that are passed on decide whether a stream comes to a message. -/
theorem assembled_of_kind (config : Config) {events : List Json}
    (h : ∀ event ∈ events, kind event ≠ none ∧ kind event ≠ some "error") :
    ((∃ m, (Vendor.claude config).assembled events = .ok m) ↔
        ∃ a, ({} : Assembler).pushAll (callsPassedOn config events) = .ok a) ∧
      ∀ m (a : Assembler), (Vendor.claude config).assembled events = .ok m →
        ({} : Assembler).pushAll (callsPassedOn config events) = .ok a →
          m.toolCalls = a.calls ∧ HasTextsOf events m := by
  have hstream : (Vendor.claude config).Streams events (events.map said) :=
    streams_map fun event hevent => fragment_eq (h event hevent).1 (h event hevent).2
  have hspec := assembled_spoken hstream
    (List.forall_mem_map.mpr fun event _ => (spec_said event).1)
    (List.forall_mem_map.mpr fun event _ => ⟨(spec_said event).2.1, (spec_said event).2.2.1⟩)
  rw [List.map_map, List.map_map] at hspec
  obtain ⟨hexists, hspec⟩ := hspec
  refine ⟨hexists, fun m a hm ha => ?_⟩
  obtain ⟨hcalls, hcontent, hreasoning⟩ := hspec m a hm ha
  exact ⟨hcalls, hcontent, hreasoning⟩

section Stream

variable {events : List Json} {i : UInt32}
  (hforeign : ForeignAt i events)
include hforeign

/-- Only pieces come for the index. -/
theorem continues_said :
    ∀ f ∈ events.map said, ∀ c ∈ f.toolCalls, c.index = some i → c.Continues := by
  intro f hf c hc hindex
  obtain ⟨event, hevent, rfl⟩ := List.mem_map.mp hf
  obtain ⟨-, -, -, hcalls⟩ := spec_said event
  obtain ⟨hat, hkind⟩ := hcalls c hc
  have hi : blockIndex event = i := Option.some.inj (hat.symm.trans hindex)
  have hconcerns : Concerns i event := ⟨hkind.imp_right Or.inl, hi⟩
  exact ((calls_of_concerns hconcerns fun hstart => hforeign event hevent hstart hi).2.1 c hc).2

/-- All other calls are passed on as they are without the events about the block. -/
theorem callsPassedOn_without (config : Config) :
    callsPassedOn config (without i events) = others i (callsPassedOn config events) := by
  refine Accumulator.calls_repaired_others (fun event hevent => ?_) (fun event hevent hkept => ?_)
    (fun event hevent hleft => ?_) ⟨rfl, rfl, rfl⟩ Ascending.nil
  · exact index_said _ (List.mem_map_of_mem hevent)
  · intro c hc hindex
    obtain ⟨-, -, -, hcalls⟩ := spec_said event
    obtain ⟨hat, hkind⟩ := hcalls c hc
    exact of_decide_eq_true hkept
      ⟨hkind.imp_right Or.inl, Option.some.inj (hat.symm.trans hindex)⟩
  · have hconcerns : Concerns i event := by simpa using hleft
    obtain ⟨hfinishing, hcalls, -⟩ := calls_of_concerns hconcerns fun hstart =>
      hforeign event hevent hstart hconcerns.2
    exact ⟨hfinishing, hcalls⟩

/-- Calls of the index are passed on just when a piece came. -/
theorem exists_piece_iff (config : Config) :
    Assembler.at? i (callsPassedOn config events) ≠ [] ↔
      ∃ event ∈ events, Concerns i event ∧ IsPiece event := by
  rw [callsPassedOn, ne_eq,
    Accumulator.at?_repaired_eq_nil_iff index_said Ascending.nil (by rfl)]
  constructor
  · intro hne
    obtain ⟨c, hc⟩ := List.exists_mem_of_ne_nil _ hne
    obtain ⟨hc, hindex⟩ := List.mem_filter.mp hc
    obtain ⟨f, hf, hc⟩ := List.mem_flatMap.mp hc
    obtain ⟨event, hevent, rfl⟩ := List.mem_map.mp hf
    obtain ⟨-, -, -, hcalls⟩ := spec_said event
    obtain ⟨hat, hkind⟩ := hcalls c hc
    have hi : blockIndex event = i :=
      Option.some.inj (hat.symm.trans (of_decide_eq_true hindex))
    have hconcerns : Concerns i event := ⟨hkind.imp_right Or.inl, hi⟩
    obtain ⟨-, -, hpiece⟩ := calls_of_concerns hconcerns fun hstart =>
      hforeign event hevent hstart hi
    exact ⟨event, hevent, hconcerns, by
      by_contra hnot
      rw [hpiece.mpr hnot] at hc
      simp at hc⟩
  · rintro ⟨event, hevent, hconcerns, hpiece⟩
    obtain ⟨-, hcalls, hnil⟩ := calls_of_concerns hconcerns fun hstart =>
      hforeign event hevent hstart hconcerns.2
    obtain ⟨c, hc⟩ := List.exists_mem_of_ne_nil _ fun h => hnil.mp h hpiece
    refine List.ne_nil_of_mem (List.mem_filter.mpr ⟨?_, decide_eq_true (hcalls c hc).1⟩)
    exact List.mem_flatMap.mpr ⟨_, List.mem_map_of_mem hevent, hc⟩

/-- Events about the block that say nothing may be left out. -/
theorem assembled_without (config : Config)
    (hquiet : ∀ event ∈ events, Concerns i event → ¬ Leaks event) :
    (Vendor.claude config).assembled events =
      (Vendor.claude config).assembled (without i events) := by
  refine (assembled_filter fun event hevent hleft => ?_).symm
  have hconcerns : Concerns i event := by simpa using hleft
  have hnone := (contentful?_of_concerns hconcerns fun hstart =>
    hforeign event hevent hstart hconcerns.2).mpr (hquiet event hevent hconcerns)
  rw [← hnone]
  rcases hconcerns.1 with hkind | hkind | hkind <;>
    exact fragment_eq (by simp [hkind]) (by simp [hkind])

/-- What a delta says is missing without it, as a text, as thinking or as a call. -/
theorem ne_of_leaks {m m' : Message} {event : Json} (hevent : event ∈ events)
    (hconcerns : Concerns i event) (hleaks : Leaks event)
    (htexts : HasTextsOf (without i events) m) (htexts' : HasTextsOf events m')
    (hcalls : m.toolCalls = others i m'.toolCalls)
    (hpiece : (∃ c ∈ m'.toolCalls, c.index = some i) ↔
      ∃ event ∈ events, Concerns i event ∧ IsPiece event) : m' ≠ m := by
  have hleft : decide (¬ Concerns i event) = false := by simpa using hconcerns
  have hsaid := said_of_concerns hconcerns fun hstart =>
    hforeign event hevent hstart hconcerns.2
  rintro rfl
  rcases hleaks with ⟨hdelta, ⟨hkind, htext⟩ | ⟨hkind, hthinking⟩⟩ | hleak
  · rw [if_pos hdelta, blockDelta_eq, if_pos hkind] at hsaid
    refine join_filter_ne (g := fun event => (said event).content) hevent hleft ?_
      (htexts.content.symm.trans htexts'.content)
    rw [hsaid]
    exact htext
  · rw [if_pos hdelta, blockDelta_eq, if_pos hkind] at hsaid
    refine join_filter_ne (g := fun event => (said event).reasoning.getD "") hevent hleft ?_
      (htexts.reasoning.symm.trans htexts'.reasoning)
    rw [hsaid]
    simpa [getD_nonEmpty?] using hthinking
  · obtain ⟨c, hc, hindex⟩ := hpiece.mpr ⟨event, hevent, hconcerns, hleak⟩
    rw [hcalls] at hc
    exact (mem_others.mp hc).2 hindex

end Stream

/-- **A block of another kind is left out of the message just when no delta of it says anything.**
A body is read without such blocks.  A stream is read with what their deltas say: the message is the
same as without the events about the block just when none of them says anything; then it is the same
also where it fails.  Otherwise texts are added to it, and pieces of arguments come to one more
call, which has neither an id nor a name.  All other calls are the same. -/
theorem foreign_block (config : Config) {events : List Json} {i : UInt32}
    (hforeign : ForeignAt i events) :
    (∀ blocks : List Json, Blocks.ofList blocks =
      (blocks.zipIdx.filter fun p => ¬ IsForeign p.1).foldl (fun b p => b.add p.1 p.2) {}) ∧
    ((∀ event ∈ events, Concerns i event → ¬ Leaks event) →
      (Vendor.claude config).assembled events =
        (Vendor.claude config).assembled (without i events)) ∧
    ((∃ m, (Vendor.claude config).assembled events = .ok m) ↔
      ∃ m, (Vendor.claude config).assembled (without i events) = .ok m) ∧
    ∀ m m', (Vendor.claude config).assembled (without i events) = .ok m →
      (Vendor.claude config).assembled events = .ok m' →
        (m' = m ↔ ∀ event ∈ events, Concerns i event → ¬ Leaks event) ∧
        m.toolCalls = others i m'.toolCalls ∧
        (∀ c ∈ m'.toolCalls, c.index = some i → c.id = "" ∧ c.function.name = "") ∧
        ((∃ c ∈ m'.toolCalls, c.index = some i) ↔
          ∃ event ∈ events, Concerns i event ∧ IsPiece event) := by
  have haccepted {m : Message} (hm : (Vendor.claude config).assembled (without i events) = .ok m) :
      ∀ event ∈ events, kind event ≠ none ∧ kind event ≠ some "error" := by
    intro event hevent
    by_cases hconcerns : Concerns i event
    · rcases hconcerns.1 with hkind | hkind | hkind <;> simp [hkind]
    · exact kind_of_assembled hm event (List.mem_filter.mpr ⟨hevent, decide_eq_true hconcerns⟩)
  have hindex : ∀ c ∈ callsPassedOn config events, c.index ≠ none :=
    Accumulator.index_repaired index_said
  have hcontinues : ∀ c ∈ callsPassedOn config events, c.index = some i → c.Continues :=
    Accumulator.continues_repaired index_said (continues_said hforeign) _
  have hpushed := Assembler.exists_pushAll_others hindex hcontinues
  rw [← callsPassedOn_without hforeign config] at hpushed
  refine ⟨ofList_eq_foldl_filter, assembled_without hforeign config, ?_, ?_⟩
  · constructor
    · rintro ⟨m, hm⟩
      have hkinds := kind_of_assembled hm
      refine (assembled_of_kind config fun event hevent =>
        hkinds event (List.mem_of_mem_filter hevent)).1.mpr (hpushed.mpr ?_)
      exact (assembled_of_kind config hkinds).1.mp ⟨m, hm⟩
    · rintro ⟨m, hm⟩
      refine (assembled_of_kind config (haccepted hm)).1.mpr (hpushed.mp ?_)
      exact (assembled_of_kind config (kind_of_assembled hm)).1.mp ⟨m, hm⟩
  · intro m m' hm hm'
    obtain ⟨hsome, hspec⟩ := assembled_of_kind config (kind_of_assembled hm)
    obtain ⟨hsome', hspec'⟩ := assembled_of_kind config (kind_of_assembled hm')
    obtain ⟨a, ha⟩ := hsome.mp ⟨m, hm⟩
    obtain ⟨b, hb⟩ := hsome'.mp ⟨m', hm'⟩
    obtain ⟨hcalls, htexts⟩ := hspec m a hm ha
    obtain ⟨hcalls', htexts'⟩ := hspec' m' b hm' hb
    rw [callsPassedOn_without hforeign config] at ha
    have hothers := Assembler.calls_others hindex hb ha
    obtain ⟨hnameless, hpiece⟩ := Assembler.continues_of_pushAll hcontinues hb
    rw [exists_piece_iff hforeign config] at hpiece
    rw [← hcalls, ← hcalls'] at hothers
    rw [← hcalls'] at hnameless hpiece
    refine ⟨⟨fun hsame event hevent hconcerns hleaks => ?_, fun hquiet => ?_⟩, hothers, hnameless,
      hpiece⟩
    · exact ne_of_leaks hforeign hevent hconcerns hleaks htexts htexts' hothers hpiece hsame
    · have hsame := assembled_without hforeign config hquiet
      rw [hm, hm'] at hsame
      exact Except.ok.inj hsame

/-- A search that the vendor runs by itself, with its query, beside a call: one more call. -/
theorem foreign_block_server_tool_use :
    ∃ events m m', ForeignAt 1 events ∧
      (Vendor.claude { http := default }).assembled (without 1 events) = .ok m ∧
      (Vendor.claude { http := default }).assembled events = .ok m' ∧
      m' ≠ m ∧ m.toolCalls = others 1 m'.toolCalls ∧
      ∃ c ∈ m'.toolCalls, c.index = some 1 ∧ c.id = "" ∧ c.function.name = "" := by
  have hforeign : ForeignAt 1 [
      .ofMembers [("type", .text "content_block_start"), ("index", .ofNat 1),
        ("content_block", .ofMembers [("type", .text "server_tool_use"), ("id", .text "s"),
          ("name", .text "web_search"), ("input", .empty)])],
      .ofMembers [("type", .text "content_block_delta"), ("index", .ofNat 1),
        ("delta", .ofMembers [("type", .text "input_json_delta"), ("partial_json", .text "[1]")])],
      .ofMembers [("type", .text "content_block_stop"), ("index", .ofNat 1)],
      .ofMembers [("type", .text "content_block_start"), ("index", .ofNat 2),
        ("content_block", .ofMembers [("type", .text "tool_use"), ("id", .text "a"),
          ("name", .text "look"), ("input", .empty)])],
      .ofMembers [("type", .text "message_delta"), ("delta", .ofMembers [
        ("stop_reason", .text "tool_use")])]] := by
    decide +kernel
  obtain ⟨-, -, hexists, hspec⟩ := foreign_block { http := default } hforeign
  obtain ⟨m', hm'⟩ := hexists.mpr ⟨{ Message.assistant "" with
      toolCalls := [(ofFunction "a" "look" emptyArguments).withIndex 2]
      info := some { finishReason := some "tool_calls" } }, by decide +kernel⟩
  obtain ⟨m, hm⟩ := hexists.mp ⟨m', hm'⟩
  obtain ⟨hsame, hothers, hnameless, hpiece⟩ := hspec m m' hm hm'
  obtain ⟨c, hc, hindex⟩ := hpiece.mpr (by decide +kernel)
  exact ⟨_, m, m', hforeign, hm, hm', fun h => absurd (hsame.mp h) (by decide +kernel), hothers,
    c, hc, hindex, hnameless c hc hindex⟩

/-- The pieces of arguments of such a search are one more call, without an id and a name. -/
theorem exists_assembled_ne_without :
    ∃ events i, ForeignAt i events ∧
      ((Vendor.claude { http := default }).assembled events).map Message.toolCalls =
        .ok [{ index := some 1, kind := "function", function := ⟨"", "[1]"⟩ }] ∧
      ((Vendor.claude { http := default }).assembled (without i events)).map Message.toolCalls =
        .ok [] := by
  refine ⟨[
    .ofMembers [("type", .text "content_block_start"), ("index", .ofNat 0),
      ("content_block", .ofMembers [("type", .text "text"), ("text", .text "")])],
    .ofMembers [("type", .text "content_block_delta"), ("index", .ofNat 0),
      ("delta", .ofMembers [("type", .text "text_delta"), ("text", .text "Hi")])],
    .ofMembers [("type", .text "content_block_stop"), ("index", .ofNat 0)],
    .ofMembers [("type", .text "content_block_start"), ("index", .ofNat 1),
      ("content_block", .ofMembers [("type", .text "server_tool_use"), ("id", .text "s"),
        ("name", .text "web_search"), ("input", .empty)])],
    .ofMembers [("type", .text "content_block_delta"), ("index", .ofNat 1),
      ("delta", .ofMembers [("type", .text "input_json_delta"), ("partial_json", .text "[1]")])],
    .ofMembers [("type", .text "content_block_stop"), ("index", .ofNat 1)],
    .ofMembers [("type", .text "message_delta"), ("delta", .ofMembers [
      ("stop_reason", .text "end_turn")])]], 1, ?_, ?_, ?_⟩
  all_goals decide +kernel

end ChatRelay.Claude
