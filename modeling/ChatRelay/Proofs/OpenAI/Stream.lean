import ChatRelay.Proofs.OpenAI.Deltas

/-!
# Streams of the OpenAI family

A reply is streamed in chunks: its texts in consecutive pieces, its calls in deltas that may come in
any order, its reason on one chunk, and its token counts in reports that grow.

The message of such a stream is that of the whole body but for the calls, and its calls are those of
the body too, unless a single chunk says all there is.  What a single chunk says is passed on as it
is, so its deltas are not put together, and then they are the calls of the body just when each call
comes in one delta and in order.  Where a sum of token counts wraps around, the total of the message
may be another than that of the body.

## Main definitions

* `OpenAI.stated?` — token counts as they are stated
* `OpenAI.IsReply` — a body that is a whole reply
* `OpenAI.StreamsReply` — chunks that stream a body
* `OpenAI.Speaks` — a chunk that says something
-/

namespace ChatRelay.OpenAI

open Vendor

def content (field : String) (v : Json) : String :=
  textAt ["content"] (message field v)

def reasoning (field : String) (v : Json) : String :=
  textAt ["reasoning_content"] (message field v)

/-- The token counts of a body or chunk as it states them. -/
def stated? (v : Json) : Option TokenUsage :=
  ((v.get? "usage").filter (·.isObject)).map fun u =>
    ⟨u.countAt ["prompt_tokens"], u.countAt ["completion_tokens"], u.countAt ["total_tokens"]⟩

/-- A body or chunk that reports no error. -/
def IsAccepted (v : Json) : Prop :=
  (v.get? "error").filter (!·.isNull) = none

/-- A call has an id and a name, and its index, if it states one, is its position. -/
def IsCall (position : Nat) (call : Json) : Prop :=
  id call ≠ "" ∧ name call ≠ "" ∧ (index? call = none ∨ index? call = some position)

/-- A body that is a whole reply. -/
@[mk_iff]
structure IsReply (body : Json) : Prop where
  accepted : IsAccepted body
  first : first? body ≠ none
  length : (calls body).length ≤ UInt32.size
  calls : ∀ p ∈ (calls body).zipIdx, IsCall p.2 p.1

/-- Chunks stream a body: its texts in consecutive pieces, the deltas of its calls at their
positions, its reason on one chunk, and cumulative reports of which the last is that of the body. -/
@[mk_iff]
structure StreamsReply (body : Json) (positions : List Nat) (chunks : List Json) : Prop where
  accepted : ∀ chunk ∈ chunks, IsAccepted chunk
  content : String.join (chunks.map (content "delta")) = content "message" body
  reasoning : String.join (chunks.map (reasoning "delta")) = reasoning "message" body
  tells : Tells none (chunks.flatMap deltas) positions
  position : ∀ k ∈ positions, k < (calls body).length
  calls : ∀ p ∈ (calls body).zipIdx,
    StreamsCall p.1 (about p.2 (pieces positions (chunks.flatMap deltas)))
  reason : chunks.filterMap reason = (reason body).toList
  cumulative : ∀ t ∈ usage? body, ∀ u ∈ chunks.filterMap stated?, u ≤ t
  usage : (chunks.filterMap usage?).getLast? = usage? body

/-- A chunk says something: a text, a delta of a call, a reason or a report. -/
def Speaks (chunk : Json) : Prop :=
  content "delta" chunk ≠ "" ∨ reasoning "delta" chunk ≠ "" ∨ deltas chunk ≠ [] ∨
    reason chunk ≠ none ∨ usage? chunk ≠ none

instance (v : Json) : Decidable (IsAccepted v) :=
  inferInstanceAs (Decidable (_ = _))

instance (position : Nat) (call : Json) : Decidable (IsCall position call) :=
  inferInstanceAs (Decidable (_ ∧ _ ∧ _))

instance (chunk : Json) : Decidable (Speaks chunk) :=
  inferInstanceAs (Decidable (_ ∨ _ ∨ _ ∨ _ ∨ _))

-- Statements about all members of a list are decided by running through the computed list.
instance (body : Json) : Decidable (IsReply body) :=
  decidable_of_iff' (IsAccepted body ∧ first? body ≠ none ∧ (calls body).length ≤ UInt32.size ∧
      (calls body).zipIdx.all fun p => IsCall p.2 p.1)
    (by simp only [isReply_iff, List.all_eq_true, decide_eq_true_eq])

instance (body : Json) (positions : List Nat) (chunks : List Json) :
    Decidable (StreamsReply body positions chunks) :=
  decidable_of_iff' ((∀ chunk ∈ chunks, IsAccepted chunk) ∧
      String.join (chunks.map (content "delta")) = content "message" body ∧
      String.join (chunks.map (reasoning "delta")) = reasoning "message" body ∧
      Tells none (chunks.flatMap deltas) positions ∧
      (∀ k ∈ positions, k < (calls body).length) ∧
      ((calls body).zipIdx.all fun p =>
        StreamsCall p.1 (about p.2 (pieces positions (chunks.flatMap deltas)))) ∧
      chunks.filterMap OpenAI.reason = (OpenAI.reason body).toList ∧
      ((usage? body).all fun t => (chunks.filterMap stated?).all fun u => u ≤ t) ∧
      (chunks.filterMap usage?).getLast? = usage? body)
    (by simp only [streamsReply_iff, List.all_eq_true, Option.all_eq_true, decide_eq_true_eq,
      Option.mem_def])

/-! ### Bodies and chunks -/

variable {body : Json} {positions : List Nat} {chunks : List Json}

theorem failure?_of_isAccepted {v : Json} (h : IsAccepted v) (vendor : String) :
    failure? vendor v = none := by
  have hnone : (v.get? "error").filter (!·.isNull) = none := h
  rw [failure?, hnone]
  rfl

/-- The calls of a body, at their positions. -/
theorem mapIdx_callOf
    (h : ∀ p ∈ (calls body).zipIdx, index? p.1 = none ∨ index? p.1 = some p.2) :
    ((calls body).mapIdx fun i call => callOf (some (UInt32.ofNat i)) call) =
      (entries (calls body)).map Prod.snd := by
  rw [List.mapIdx_eq_zipIdx_map, entries, List.map_map]
  refine List.map_congr_left fun p hp => ?_
  rcases h p hp with hindex | hindex
  · exact callOf_of_index_none hindex
  · exact callOf_of_index hindex

theorem reply_of_index (haccepted : IsAccepted body) (hfirst : first? body ≠ none)
    (hindex : ∀ p ∈ (calls body).zipIdx, index? p.1 = none ∨ index? p.1 = some p.2)
    (vendor : String) :
    reply vendor body = .ok (said "message" ((entries (calls body)).map Prod.snd) body) := by
  rw [reply, failure?_of_isAccepted haccepted]
  obtain ⟨choice, hchoice⟩ := Option.ne_none_iff_exists'.mp hfirst
  have hat : body.at? ["choices", "0"] = some choice := hchoice
  rw [← mapIdx_callOf hindex]
  simp only [hat, said, message, calls, reason, hchoice]
  rfl

theorem reply_eq (hbody : IsReply body) (vendor : String) :
    reply vendor body = .ok (said "message" ((entries (calls body)).map Prod.snd) body) :=
  reply_of_index hbody.accepted hbody.first (fun p hp => (hbody.calls p hp).2.2) vendor

theorem fragment_eq {chunk : Json} (h : IsAccepted chunk) (vendor : String) :
    fragment vendor chunk = .ok (contentful? (saidOf chunk)) := by
  rw [fragment, failure?_of_isAccepted h]
  cases hchoice : first? chunk with
  | none =>
      have hfirst : chunk.at? ["choices", "0"] = none := hchoice
      simp only [hfirst, saidOf, said, message, reason, hchoice]
      rfl
  | some choice =>
      have hfirst : chunk.at? ["choices", "0"] = some choice := hchoice
      simp only [hfirst, saidOf, said, message, reason, hchoice]
      rfl

theorem isFragment_saidOf (chunk : Json) : (saidOf chunk).IsFragment :=
  isFragment_of_reportOf (nonEmptyAt?_ne _ _) (reason_ne_empty chunk)

theorem saidOf_usage? (chunk : Json) : (saidOf chunk).usage? = usage? chunk :=
  reportOf_usage ..

theorem reasoning_saidOf (chunk : Json) :
    (saidOf chunk).reasoning = nonEmpty? (reasoning "delta" chunk) :=
  bind_nonEmpty? _

/-- A chunk that says something has a fragment, and no other has. -/
theorem speaks_iff (chunk : Json) : Speaks chunk ↔ contentful? (saidOf chunk) ≠ none := by
  rw [ne_eq, contentful?_eq_none_iff]
  have hreport : (saidOf chunk).info = none ↔ reason chunk = none ∧ usage? chunk = none := by
    change reportOf _ _ = none ↔ _
    cases reason chunk <;> cases usage? chunk <;> simp [reportOf]
  have hempty : (saidOf chunk).isEmptyFragment = true ↔
      content "delta" chunk = "" ∧ reasoning "delta" chunk = "" ∧ deltas chunk = [] := by
    rw [Message.isEmptyFragment, reasoning_saidOf, getD_nonEmpty?]
    simp [saidOf, said, Message.assistant, content, deltas, and_assoc]
  rw [hreport, hempty, Speaks]
  simp only [ne_eq, ← not_and_or, and_assoc]

theorem usage?_eq (v : Json) : usage? v = (stated? v).map TokenUsage.raised := by
  rw [usage?, stated?, Option.map_map]
  rfl

/-- The reports of a stream. -/
theorem filterMap_usage?_saidOf (chunks : List Json) :
    (chunks.map saidOf).filterMap Message.usage? = chunks.filterMap usage? := by
  rw [List.filterMap_map]
  exact List.filterMap_congr fun chunk _ => saidOf_usage? chunk

/-! ### The message of a stream -/

/-- The first delta of a call starts with its id and its name, and the others state neither. -/
theorem start_of_pieces (h : StreamsReply body positions chunks) :
    ∀ p ∈ pieces positions (chunks.flatMap deltas), ∃ call, (call, p.1) ∈ (calls body).zipIdx ∧
      (id p.2 = id call ∧ name p.2 = name call ∨ id p.2 = "" ∧ name p.2 = "") := by
  rintro ⟨k, delta⟩ hp
  have hk : k < (calls body).length := h.position k (List.of_mem_zip hp).1
  have hmem : ((calls body)[k], k) ∈ (calls body).zipIdx :=
    List.mem_zipIdx_iff_getElem?.mpr (List.getElem?_eq_getElem hk)
  have hdelta : delta ∈ about k (pieces positions (chunks.flatMap deltas)) :=
    List.mem_map.mpr ⟨(k, delta), List.mem_filter.mpr ⟨hp, by simp⟩, rfl⟩
  have hstreams := h.calls _ hmem
  refine ⟨_, hmem, ?_⟩
  match hds : about k (pieces positions (chunks.flatMap deltas)) with
  | [] =>
      rw [hds] at hdelta
      simp at hdelta
  | first :: rest =>
      rw [hds] at hdelta hstreams
      obtain ⟨hid, hname, hrest, -⟩ := hstreams
      rcases List.mem_cons.mp hdelta with rfl | hdelta
      · exact Or.inl ⟨hid, hname⟩
      · exact Or.inr (hrest delta hdelta)

/-- The accumulator passes on the deltas at their positions, numbered, and nothing else. -/
theorem calls_of_tells (c : Config) (h : Tells none (chunks.flatMap deltas) positions) :
    ((Vendor.openAI c).accumulator.repaired (chunks.map saidOf)).flatMap Message.toolCalls =
      Accumulator.named 0
        ((pieces positions (chunks.flatMap deltas)).map fun p => callAt p.1 p.2) := by
  rw [Accumulator.calls_repaired rfl]
  change Accumulator.named 0 (Accumulator.located (Option.map UInt32.ofNat none) _) = _
  rw [located_of_tells h]

/-- Where calls start with ids, the deltas are passed on as they are. -/
theorem calls_of_streamsReply (c : Config) (hbody : IsReply body)
    (h : StreamsReply body positions chunks) :
    ((Vendor.openAI c).accumulator.repaired (chunks.map saidOf)).flatMap Message.toolCalls =
      (pieces positions (chunks.flatMap deltas)).map fun p => callAt p.1 p.2 := by
  rw [calls_of_tells c h.tells]
  refine Accumulator.named_of_id fun call hcall => ?_
  obtain ⟨p, hp, rfl⟩ := List.mem_map.mp hcall
  obtain ⟨call, hmem, ⟨hid, -⟩ | ⟨-, hname⟩⟩ := start_of_pieces h p hp
  · exact Or.inr fun hempty => (hbody.calls _ hmem).1 (hid.symm.trans hempty)
  · exact Or.inl hname

/-- What the fragments say, but for the calls, is what the body says, the total of the counts where
no sum of counts wraps around. -/
theorem gathered_of_streamsReply (h : StreamsReply body positions chunks) (cs : List ToolCall) :
    Message.AgreesWhen (TokenUsage.SumsFit (chunks.filterMap usage?))
      (Message.gathered (chunks.map saidOf) cs) (said "message" cs body) := by
  have hreasoning : String.join (chunks.map fun chunk => (saidOf chunk).reasoning.getD "") =
      reasoning "message" body := by
    rw [← h.reasoning]
    refine congrArg String.join (List.map_congr_left fun chunk _ => ?_)
    rw [reasoning_saidOf, getD_nonEmpty?]
  have hcontent : String.join (chunks.map fun chunk => (saidOf chunk).content) =
      content "message" body := h.content
  have hgathered := gathered_of_cumulative isFragment_saidOf saidOf_finishReason? saidOf_usage?
    usage?_eq h.reason (reason_ne_empty body) h.cumulative h.usage cs
  rw [hcontent, hreasoning, reasoning, textAt, ← bind_nonEmpty?] at hgathered
  exact hgathered

/-- As many fragments are passed on as chunks say something. -/
theorem length_passedOn (c : Config) (chunks : List Json) :
    (((Vendor.openAI c).accumulator.repaired (chunks.map saidOf)).filterMap contentful?).length =
      (chunks.filter fun chunk => Speaks chunk).length := by
  rw [← repaired_filterMap, Accumulator.length_repaired rfl]
  induction chunks with
  | nil => rfl
  | cons chunk chunks ih =>
      by_cases hspeaks : Speaks chunk
      · obtain ⟨f, hf⟩ := Option.ne_none_iff_exists'.mp ((speaks_iff chunk).mp hspeaks)
        rw [List.map_cons, List.filterMap_cons_some hf, List.filter_cons_of_pos (by simp [hspeaks]),
          List.length_cons, List.length_cons, ih]
      · have hf : contentful? (saidOf chunk) = none := by
          rw [speaks_iff, not_not] at hspeaks
          exact hspeaks
        rw [List.map_cons, List.filterMap_cons_none hf, List.filter_cons_of_neg (by simp [hspeaks]),
          ih]

/-- **A stream comes to the message of the whole body,** but for the calls of a single chunk that
says all there is: these stay deltas, which are the calls of the body just when each call comes in
one delta and in order.  The total of the token counts is that of the body where no sum of counts
wraps around. -/
theorem deltas_assemble_reply (c : Config) (hbody : IsReply body)
    (h : StreamsReply body positions chunks) :
    ∃ m m', (Vendor.openAI c).reply body = .ok m ∧ (Vendor.openAI c).assembled chunks = .ok m' ∧
      Message.AgreesWhen (TokenUsage.SumsFit (chunks.filterMap usage?)) m' { m with
        toolCalls :=
          if (chunks.filter fun chunk => Speaks chunk).length = 1 then
            (pieces positions (chunks.flatMap deltas)).map fun p => callAt p.1 p.2
          else m.toolCalls } ∧
      (TokenUsage.SumsFit (chunks.filterMap usage?) → (m' = m ↔
        (chunks.filter fun chunk => Speaks chunk).length ≠ 1 ∨ positions.Pairwise (· < ·))) := by
  have hposition : ∀ p ∈ pieces positions (chunks.flatMap deltas),
      p.1 < (calls body).length := fun p hp => h.position p.1 (List.of_mem_zip hp).1
  have hstream : (Vendor.openAI c).Streams chunks (chunks.map saidOf) :=
    streams_map fun chunk hchunk => fragment_eq (h.accepted chunk hchunk) _
  have hfs : ∀ f ∈ chunks.map saidOf, f.IsFragment :=
    List.forall_mem_map.mpr fun chunk _ => isFragment_saidOf chunk
  have hpushed := pushAll_of_pieces hbody.length hposition h.calls
  rw [← calls_of_streamsReply c hbody h] at hpushed
  have hassembled := assembled_gathered hstream hfs hpushed
  have hcalls : Assembler.calls { indexed := entries (calls body) } =
      (entries (calls body)).map Prod.snd := List.append_nil _
  have hfst : (pieces positions (chunks.flatMap deltas)).map Prod.fst = positions := by
    refine List.map_fst_zip (Nat.le_of_eq ?_)
    rw [List.length_map, length_of_tells h.tells]
  rw [hcalls, length_passedOn, calls_of_streamsReply c hbody h, filterMap_usage?_saidOf]
    at hassembled
  obtain ⟨m', hm', hgathered⟩ := hassembled
  have hsaid := hgathered.trans (gathered_of_streamsReply h _)
  refine ⟨_, m', reply_eq hbody _, hm', hsaid, fun hfit => ?_⟩
  rw [hsaid.same hfit]
  have hsame (cs ds : List ToolCall) :
      said "message" cs body = said "message" ds body ↔ cs = ds :=
    ⟨congrArg Message.toolCalls, congrArg (said "message" · body)⟩
  rw [hsame]
  -- The deltas themselves show in the message only if a single fragment was passed on.
  by_cases hone : (chunks.filter fun chunk => Speaks chunk).length = 1
  · rw [if_pos hone, map_callAt_eq_iff hbody.length hposition h.calls, hfst]
    simp [hone]
  · simp [hone]

/-- The deltas of two calls take turns, and the last leaves its index out. -/
theorem deltas_assemble_reply_interleaved :
    let body : Json := .ofMembers [
      ("choices", .array [.ofMembers [("finish_reason", .text "tool_calls"),
        ("message", .ofMembers [("content", .text "Hello"), ("tool_calls", .array [
          .ofMembers [("id", .text "x"), ("function", .ofMembers [
            ("name", .text "look"), ("arguments", .text "[1]")])],
          .ofMembers [("id", .text "y"), ("function", .ofMembers [
            ("name", .text "find"), ("arguments", .text "[2]")])]])])]]),
      ("usage", .ofMembers [("prompt_tokens", .ofNat 3), ("completion_tokens", .ofNat 5)])]
    let chunks : List Json := [
      .ofMembers [("choices", .array [.ofMembers [("delta", .ofMembers [
        ("content", .text "Hello"), ("tool_calls", .array [
          .ofMembers [("index", .ofNat 0), ("id", .text "x"), ("function", .ofMembers [
            ("name", .text "look"), ("arguments", .text "[")])],
          .ofMembers [("index", .ofNat 1), ("id", .text "y"), ("function", .ofMembers [
            ("name", .text "find"), ("arguments", .text "")])]])])]])],
      .ofMembers [("choices", .array [.ofMembers [("delta", .ofMembers [("tool_calls", .array [
          .ofMembers [("index", .ofNat 0), ("function", .ofMembers [
            ("arguments", .text "1]")])],
          .ofMembers [("index", .ofNat 1), ("function", .ofMembers [
            ("arguments", .text "[2")])]])])]]),
        ("usage", .null)],
      .ofMembers [("choices", .array [.ofMembers [("finish_reason", .text "tool_calls"),
        ("delta", .ofMembers [("tool_calls", .array [
          .ofMembers [("function", .ofMembers [("arguments", .text "]")])]])])]])],
      .ofMembers [("choices", .array []), ("usage", .ofMembers [
        ("prompt_tokens", .ofNat 3), ("completion_tokens", .ofNat 5)])]]
    ∃ m, (Vendor.openAI { preset := .openAI, http := default }).reply body = .ok m ∧
      (Vendor.openAI { preset := .openAI, http := default }).assembled chunks = .ok m := by
  intro body chunks
  have hbody : IsReply body := by decide_cbv
  have hstream : StreamsReply body [0, 1, 0, 1, 1] chunks := by decide_cbv
  obtain ⟨m, m', hm, hm', -, hsame⟩ :=
    deltas_assemble_reply { preset := .openAI, http := default } hbody hstream
  have hboth : m' = m := (hsame (by decide_cbv)).mpr (Or.inl (by decide_cbv))
  exact ⟨m, hm, hboth ▸ hm'⟩

/-- A single chunk with a call in two deltas: they are not put together. -/
theorem exists_assembled_ne_reply :
    ∃ body positions chunks, IsReply body ∧ StreamsReply body positions chunks ∧
      (Vendor.openAI { preset := .openAI, http := default }).assembled chunks ≠
        (Vendor.openAI { preset := .openAI, http := default }).reply body := by
  refine ⟨.ofMembers [("choices", .array [.ofMembers [("finish_reason", .text "tool_calls"),
      ("message", .ofMembers [("tool_calls", .array [
        .ofMembers [("id", .text "x"), ("function", .ofMembers [
          ("name", .text "look"), ("arguments", .text "[1]")])]])])]])], [0, 0], [
    .ofMembers [("choices", .array [.ofMembers [("finish_reason", .text "tool_calls"),
      ("delta", .ofMembers [("tool_calls", .array [
        .ofMembers [("index", .ofNat 0), ("id", .text "x"), ("function", .ofMembers [
          ("name", .text "look"), ("arguments", .text "[1")])],
        .ofMembers [("index", .ofNat 0), ("function", .ofMembers [
          ("arguments", .text "]")])]])])]])]], ?_, ?_, ?_⟩
  all_goals decide_cbv

end ChatRelay.OpenAI
