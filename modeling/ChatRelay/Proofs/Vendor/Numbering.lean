import ChatRelay.Proofs.Claude.Stream
import ChatRelay.Proofs.OpenAI.Stream
import ChatRelay.Proofs.Stream.Numbering

/-!
# Calls without ids

A reply may state no ids for its calls.  The accumulator numbers them while the reply is streamed,
for every vendor, but whole bodies of the OpenAI family and of Claude are read without: there such
calls keep the empty id.  So a stream of such a reply comes to the message of the whole body but for
the ids (`ids_of_stream`), and the ids agree just when no call of the reply has a name.  As in every
stream, the total of the token counts may be another where a sum of counts wraps around.

## Main definitions

* `OpenAI.LacksIds`, `Claude.LacksIds` — a body whose calls with a name have no id
* `Vendor.StreamsWithoutIds` — such a body and a stream of it
* `Vendor.Merges` — the deltas of a stream are put together
* `Vendor.CountsFit` — the token counts of a reply can be added, as it is streamed
-/

namespace ChatRelay

open ToolCall Accumulator

/-! ### The OpenAI family -/

namespace OpenAI

/-- A body that is a whole reply, and its calls have no id where they have a name. -/
@[mk_iff]
structure LacksIds (body : Json) : Prop where
  accepted : IsAccepted body
  first : first? body ≠ none
  length : (calls body).length ≤ UInt32.size
  calls : ∀ p ∈ (calls body).zipIdx,
    (name p.1 ≠ "" → id p.1 = "") ∧ (index? p.1 = none ∨ index? p.1 = some p.2)

instance (body : Json) : Decidable (LacksIds body) :=
  decidable_of_iff' (IsAccepted body ∧ first? body ≠ none ∧ (calls body).length ≤ UInt32.size ∧
      (calls body).zipIdx.all fun p =>
        (name p.1 ≠ "" → id p.1 = "") ∧ (index? p.1 = none ∨ index? p.1 = some p.2))
    (by simp only [lacksIds_iff, List.all_eq_true, decide_eq_true_eq])

variable {body : Json} {positions : List Nat} {chunks : List Json}

/-- All deltas of a call but the first continue it. -/
theorem continues_of_pieces {calls : List Json} {ps : List (Nat × Json)}
    (hlength : calls.length ≤ UInt32.size) (hps : ∀ p ∈ ps, p.1 < calls.length)
    (hcalls : ∀ p ∈ calls.zipIdx, StreamsCall p.1 (about p.2 ps)) (i : UInt32) :
    ∀ f ∈ (Assembler.at? i (ps.map fun p => callAt p.1 p.2)).tail, f.Continues := by
  by_cases hi : ∃ k < calls.length, i = UInt32.ofNat k
  · obtain ⟨k, hk, rfl⟩ := hi
    have hcall : calls[k]? = some calls[k] := List.getElem?_eq_getElem hk
    have hstreams := hcalls (calls[k], k) (List.mem_zipIdx_iff_getElem?.mpr hcall)
    rw [at?_pieces (Nat.lt_of_lt_of_le hk hlength) fun p hp =>
      Nat.lt_of_lt_of_le (hps p hp) hlength]
    match hds : about k ps with
    | [] => simp
    | first :: rest =>
        rw [hds] at hstreams
        obtain ⟨-, -, hrest, -⟩ := hstreams
        intro f hf
        obtain ⟨delta, hdelta, rfl⟩ := List.mem_map.mp hf
        exact hrest delta hdelta
  · have hat : Assembler.at? i (ps.map fun p => callAt p.1 p.2) = [] := by
      refine Assembler.at?_eq_nil fun c hc hindex => ?_
      obtain ⟨p, hp, rfl⟩ := List.mem_map.mp hc
      exact hi ⟨p.1, hps p hp, (Option.some.inj hindex).symm⟩
    simp [hat]

/-- Deltas state no id where they state the name of a call that has none. -/
theorem id_of_lacksIds (hbody : LacksIds body) (h : StreamsReply body positions chunks) :
    ∀ c ∈ (pieces positions (chunks.flatMap deltas)).map fun p => callAt p.1 p.2,
      c.function.name ≠ "" → c.id = "" := by
  intro c hc hname
  obtain ⟨p, hp, rfl⟩ := List.mem_map.mp hc
  obtain ⟨call, hcall, ⟨hid, hname'⟩ | ⟨hid, -⟩⟩ := start_of_pieces h p hp
  · rw [show (callAt p.1 p.2).id = id call from hid]
    exact (hbody.calls _ hcall).1 fun hempty => hname (hname'.trans hempty)
  · exact hid

/-- **A stream comes to what the body says, with its calls numbered,** unless a single chunk says
all there is: then its deltas are numbered.  The total of the counts is that of the body where no sum
of counts wraps around. -/
theorem assembled_of_lacksIds (c : Config) (hbody : LacksIds body)
    (h : StreamsReply body positions chunks) :
    ∃ (a : Assembler) (m : Message), (Vendor.openAI c).assembled chunks = .ok m ∧
      Message.AgreesWhen (TokenUsage.SumsFit (chunks.filterMap usage?)) m (said "message"
        (if (chunks.filter fun chunk => Speaks chunk).length = 1 then
          named 0 ((pieces positions (chunks.flatMap deltas)).map fun p => callAt p.1 p.2)
        else a.calls) body) ∧
      List.Forall₂ (fun c d => ∃ n, d = identified n c) ((entries (calls body)).map Prod.snd)
        a.calls ∧
      (labels a.calls).Perm (labels
        (named 0 ((pieces positions (chunks.flatMap deltas)).map fun p => callAt p.1 p.2))) := by
  have hposition : ∀ p ∈ pieces positions (chunks.flatMap deltas),
      p.1 < (calls body).length := fun p hp => h.position p.1 (List.of_mem_zip hp).1
  have hindex : ∀ call ∈ (pieces positions (chunks.flatMap deltas)).map fun p => callAt p.1 p.2,
      call.index ≠ none := by
    intro call hcall
    obtain ⟨p, -, rfl⟩ := List.mem_map.mp hcall
    exact Option.some_ne_none _
  -- Without ids the deltas gather to the calls of the body, and being numbered changes no more.
  obtain ⟨-, hgathers⟩ := (Assembler.pushAll_eq_ok_iff Assembler.wellFormed_empty).mp
    (pushAll_of_pieces hbody.length hposition h.calls)
  obtain ⟨a, ha, hnumbered, hlabels⟩ := exists_pushAll_numbered (ascending_entries hbody.length)
    hindex (index_named (p := (· ≠ none)) hindex) fun i =>
      ⟨[], (List.append_nil _).symm, by
        rw [List.append_nil]
        exact continues_of_pieces hbody.length hposition h.calls i, fun _ => rfl, by
        rw [List.append_nil]
        exact hgathers.held i⟩
  have hstream : (Vendor.openAI c).Streams chunks (chunks.map saidOf) :=
    Vendor.streams_map fun chunk hchunk => fragment_eq (h.accepted chunk hchunk) _
  have hfs : ∀ f ∈ chunks.map saidOf, f.IsFragment :=
    List.forall_mem_map.mpr fun chunk _ => isFragment_saidOf chunk
  rw [← calls_of_tells c h.tells] at ha
  obtain ⟨m, hm, hgathered⟩ := Vendor.assembled_gathered hstream hfs ha
  rw [length_passedOn, calls_of_tells c h.tells, filterMap_usage?_saidOf] at hgathered
  exact ⟨a, m, hm, hgathered.trans (gathered_of_streamsReply h _), hnumbered, hlabels⟩

end OpenAI

/-! ### Claude -/

namespace Claude

open Vendor (textAt)

/-- A body that is a whole reply, and its calls have no id where they have a name. -/
@[mk_iff]
structure LacksIds (body : Json) : Prop where
  isError : kind body ≠ some "error"
  isArray : (body.get? "content").bind Json.asArray? ≠ none
  blocks : ∀ block ∈ content body, kind block = some "text" ∨ kind block = some "thinking" ∨
    kind block = some "tool_use" ∧ (textAt ["name"] block ≠ "" → textAt ["id"] block = "")
  length : (content body).length < UInt32.size
  reason : body.textAt? ["stop_reason"] ≠ some ""

instance (body : Json) : Decidable (LacksIds body) :=
  decidable_of_iff' (kind body ≠ some "error" ∧
      ((body.get? "content").bind Json.asArray?).isSome ∧
      ((content body).all fun block => kind block = some "text" ∨ kind block = some "thinking" ∨
        kind block = some "tool_use" ∧ (textAt ["name"] block ≠ "" → textAt ["id"] block = "")) ∧
      (content body).length < UInt32.size ∧ body.textAt? ["stop_reason"] ≠ some "")
    (by simp only [lacksIds_iff, List.all_eq_true, decide_eq_true_eq, Option.isSome_iff_ne_none])

variable {body : Json} {c : Course} {events : List Json}

/-- The id of a block that is a call with a name. -/
theorem LacksIds.id (hbody : LacksIds body) {block : Json} (hblock : block ∈ content body)
    (hkind : kind block = some "tool_use") (hname : textAt ["name"] block ≠ "") :
    textAt ["id"] block = "" := by
  rcases hbody.blocks block hblock with hne | hne | ⟨-, hid⟩
  · simp [hkind] at hne
  · simp [hkind] at hne
  · exact hid hname

/-- All calls of a group but the first continue it. -/
theorem continues_of_group {position : Nat} {block : Json} {g : Group}
    (h : StreamsBlock position block g) :
    ∀ f ∈ ((g.events.map said).flatMap Message.toolCalls).tail, f.Continues := by
  rw [calls_of_group h]
  split
  · intro f hf
    obtain ⟨delta, -, rfl⟩ := List.mem_map.mp hf
    exact ⟨rfl, rfl⟩
  · simp

/-- The calls of a stream state no id where they state the name of a block that has none. -/
theorem id_of_lacksIds (hbody : LacksIds body) (h : StreamsReply body c events) :
    ∀ call ∈ (c.events.map said).flatMap Message.toolCalls,
      call.function.name ≠ "" → call.id = "" := by
  intro call hcall hname
  rw [calls_of_course h] at hcall
  obtain ⟨⟨block, n⟩, hmem, g, hg, hcall⟩ := mem_calls_of_groups h.groups hcall
  obtain ⟨hkind, hid, hname'⟩ := (start_of_group hg call hcall).resolve_left hname
  rw [hid]
  exact hbody.id (List.fst_mem_of_mem_zipIdx hmem) hkind (hname' ▸ hname)

/-- **A stream comes to what the body says, with its calls numbered,** the total of the counts where
they can be added. -/
theorem assembled_of_lacksIds (config : Config) (hbody : LacksIds body)
    (h : StreamsReply body c events) :
    ∃ (a : Assembler) (m : Message), (Vendor.claude config).assembled events = .ok m ∧
      Message.AgreesWhen (CountsFit body) m (told a.calls body) ∧
      List.Forall₂ (fun c d => ∃ n, d = identified n c)
        (((content body).zipIdx.filterMap call?).map Prod.snd) a.calls ∧
      (labels a.calls).Perm
        (labels (named 0 ((c.events.map said).flatMap Message.toolCalls))) := by
  have hlength : 0 + (content body).length < UInt32.size := by
    rw [Nat.zero_add]
    exact hbody.length
  have hindex := index_of_streamsReply h
  have hcalls : ∀ call ∈ (c.events.map said).flatMap Message.toolCalls, call.index ≠ none := by
    intro call hcall
    obtain ⟨f, hf, hcall⟩ := List.mem_flatMap.mp hcall
    exact hindex f hf call hcall
  obtain ⟨a, ha, hnumbered, hlabels⟩ := exists_pushAll_numbered (ascending_calls hlength) hcalls
    (index_repaired hindex) fun i => by
      have hat := at?_repaired (a := (Vendor.claude config).accumulator) Ascending.nil rfl
        (pairwise_of_streamsReply h) i
      rw [located_of_index hindex] at hat
      refine ⟨_, hat, fun f hf => ?_, fun hnil => ?_, ?_⟩
      · rcases List.mem_append.mp hf with hf | hf
        · rw [calls_of_course h] at hf
          rcases at?_groups hlength h.groups i with ⟨hnil, -⟩ | ⟨_, _, _, hg, -, hgroup, -⟩
          · simp [hnil] at hf
          · exact continues_of_group hg f (hgroup ▸ hf)
        · exact continues_closingAt _ _ _ f hf
      · rw [hnil]
        rfl
      · rw [calls_of_course h]
        exact gather_groups hlength h.groups i
  obtain ⟨m, hm, hagrees⟩ :=
    assembled_of_streamsReply config (reason_of_stop_reason hbody.reason) h ha
  exact ⟨a, m, hm, hagrees, hnumbered, hlabels⟩

end Claude

/-! ### Both -/

namespace Vendor

/-- A whole reply of the OpenAI family or of Claude whose calls have no id where they have a name,
and a stream of it. -/
inductive StreamsWithoutIds : Vendor → (body : Json) → (chunks : List Json) → Prop
  | openAI {config : OpenAI.Config} {body : Json} {positions : List Nat} {chunks : List Json}
      (hbody : OpenAI.LacksIds body) (hstream : OpenAI.StreamsReply body positions chunks) :
      StreamsWithoutIds (.openAI config) body chunks
  | claude {config : Claude.Config} {body : Json} {course : Claude.Course} {events : List Json}
      (hbody : Claude.LacksIds body) (hstream : Claude.StreamsReply body course events) :
      StreamsWithoutIds (.claude config) body events

/-- The calls of a stream are put together: not all that a stream of the OpenAI family says stands
in a single chunk. -/
def Merges : Vendor → (chunks : List Json) → Prop
  | openAI _, chunks => (chunks.filter fun chunk => OpenAI.Speaks chunk).length ≠ 1
  | _, _ => True

/-- No sum of token counts wraps around, wherever the counts of the reply are added. -/
def CountsFit : Vendor → (body : Json) → (chunks : List Json) → Prop
  | openAI _, _, chunks => TokenUsage.SumsFit (chunks.filterMap OpenAI.usage?)
  | claude _, body, _ => Claude.CountsFit body
  | _, _, _ => True

/-- Numbered calls are the calls themselves just when there was nothing to number. -/
theorem eq_of_numbered {calls numbered : List ToolCall}
    (h : List.Forall₂ (fun c d => ∃ n, d = identified n c) calls numbered)
    (hstarts : starts calls = 0) : numbered = calls := by
  induction h with
  | nil => rfl
  | @cons c d cs ds hd _ ih =>
      obtain ⟨n, rfl⟩ := hd
      rw [starts_cons] at hstarts
      have hname : c.function.name = "" := by
        by_contra hname
        simp [starts, hname] at hstarts
      rw [identified, if_neg fun hstart => hstart.1 hname, ih (by omega)]

/-- What numbering does to a message, the calls of which may be kept in pieces. -/
theorem numbered_spec {m m' : Message} {fragments numbered kept : List ToolCall}
    {fit merges : Prop} (hagrees : Message.AgreesWhen fit m' { m with toolCalls := kept })
    (hcalls : ∀ c ∈ m.toolCalls, c.function.name ≠ "" → c.id = "")
    (hfragments : ∀ c ∈ fragments, c.function.name ≠ "" → c.id = "")
    (hnumbered : List.Forall₂ (fun c d => ∃ n, d = identified n c) m.toolCalls numbered)
    (hlabels : (labels numbered).Perm (labels (named 0 fragments)))
    (hkept : (labels kept).Perm (labels numbered)) (hmerges : merges → kept = numbered) :
    Message.AgreesWhen fit m' { m with toolCalls := m'.toolCalls } ∧
      (∀ c ∈ m.toolCalls, c.function.name ≠ "" → c.id = "") ∧
      ((m'.toolCalls.filter fun c => c.function.name ≠ "").map ToolCall.id).Perm
        ((List.range (starts m.toolCalls)).map positionalId) ∧
      (m'.toolCalls.map ToolCall.id = m.toolCalls.map ToolCall.id → starts m.toolCalls = 0) ∧
      (merges → List.Forall₂ (fun c d => ∃ n, d = identified n c) m.toolCalls m'.toolCalls ∧
        (fit → (m' = m ↔ starts m.toolCalls = 0))) := by
  obtain rfl : m'.toolCalls = kept := hagrees.toolCalls
  obtain ⟨hids, hagree⟩ := ids_numbered hnumbered hcalls hfragments hlabels hkept
  refine ⟨hagrees, hcalls, hids, hagree, fun hm => ?_⟩
  have hmerged := hmerges hm
  rw [← hmerged] at hnumbered
  refine ⟨hnumbered, fun hfit => ⟨fun hsame => ?_, fun hstarts => ?_⟩⟩
  · exact hagree (congrArg (fun m => m.toolCalls.map ToolCall.id) hsame)
  · rw [hagrees.same hfit, eq_of_numbered hnumbered hstarts]

/-- **Streams give ids that whole bodies are read without.**  Where the calls of a reply have no
ids, those of the whole body keep none, and those of the stream are numbered in the order in which
they start; all else is the same, the total of the counts where no sum of counts wraps around.  So
the ids agree only where no call has a name. -/
theorem ids_of_stream {v : Vendor} {body : Json} {chunks : List Json}
    (h : v.StreamsWithoutIds body chunks) :
    ∃ m m', v.reply body = .ok m ∧ v.assembled chunks = .ok m' ∧
      Message.AgreesWhen (v.CountsFit body chunks) m' { m with toolCalls := m'.toolCalls } ∧
      (∀ c ∈ m.toolCalls, c.function.name ≠ "" → c.id = "") ∧
      ((m'.toolCalls.filter fun c => c.function.name ≠ "").map ToolCall.id).Perm
        ((List.range (starts m.toolCalls)).map positionalId) ∧
      (m'.toolCalls.map ToolCall.id = m.toolCalls.map ToolCall.id → starts m.toolCalls = 0) ∧
      (v.Merges chunks →
        List.Forall₂ (fun c d => ∃ n, d = identified n c) m.toolCalls m'.toolCalls ∧
          (v.CountsFit body chunks → (m' = m ↔ starts m.toolCalls = 0))) := by
  cases h with
  | @openAI config body positions chunks hbody hstream =>
      obtain ⟨a, m', hm', hagrees, hnumbered, hlabels⟩ :=
        OpenAI.assembled_of_lacksIds config hbody hstream
      have hcalls : ∀ c ∈ (OpenAI.entries (OpenAI.calls body)).map Prod.snd,
          c.function.name ≠ "" → c.id = "" := by
        intro c hc hname
        obtain ⟨p, hp, rfl⟩ := List.mem_map.mp hc
        obtain ⟨k, call, hcall, rfl⟩ := OpenAI.mem_entries hp
        exact (hbody.calls (call, k) (List.mem_zipIdx_iff_getElem?.mpr hcall)).1 hname
      refine ⟨_, m', OpenAI.reply_of_index hbody.accepted hbody.first
        (fun p hp => (hbody.calls p hp).2) _, hm', ?_⟩
      refine numbered_spec hagrees hcalls (OpenAI.id_of_lacksIds hbody hstream) hnumbered hlabels ?_
        fun hmerges => if_neg hmerges
      -- Kept or put together, the deltas are labelled alike.
      split
      · exact hlabels.symm
      · exact List.Perm.refl _
  | @claude config body course events hbody hstream =>
      obtain ⟨a, m', hm', hagrees, hnumbered, hlabels⟩ :=
        Claude.assembled_of_lacksIds config hbody hstream
      have hcalls : ∀ c ∈ ((Claude.content body).zipIdx.filterMap Claude.call?).map Prod.snd,
          c.function.name ≠ "" → c.id = "" := by
        intro c hc hname
        obtain ⟨p, hp, rfl⟩ := List.mem_map.mp hc
        obtain ⟨⟨block, n⟩, hmem, hcall⟩ := List.mem_filterMap.mp hp
        unfold Claude.call? at hcall
        split at hcall
        · next hkind =>
          cases hcall
          exact hbody.id (List.fst_mem_of_mem_zipIdx hmem) hkind hname
        · cases hcall
      exact ⟨_, m', Claude.reply_of_blocks hbody.isError hbody.isArray, hm',
        numbered_spec hagrees hcalls (Claude.id_of_lacksIds hbody hstream) hnumbered hlabels
          (List.Perm.refl _) fun _ => rfl⟩

/-- A block without an id: its call has none in the whole body, and is the first in the stream. -/
theorem ids_of_stream_block :
    let event (kind : String) (members : List (String × Json)) : Json :=
      .ofMembers (("type", .text kind) :: members)
    let text : Json := event "text" [("text", .text "Hello")]
    let body : Json := .ofMembers [("content", .array [text,
        event "tool_use" [("name", .text "look"), ("input", .empty)]]),
      ("stop_reason", .text "tool_use")]
    let course : Claude.Course := {
      start := event "message_start" [("message", .empty)]
      groups := [
        { start := event "content_block_start" [("index", .ofNat 0), ("content_block", text)]
          deltas := []
          stop := event "content_block_stop" [("index", .ofNat 0)] },
        { start := event "content_block_start" [("index", .ofNat 1),
            ("content_block", event "tool_use" [("id", .text ""), ("name", .text "look"),
              ("input", .empty)])]
          deltas := []
          stop := event "content_block_stop" [("index", .ofNat 1)] }]
      delta := event "message_delta" [("delta", .ofMembers [("stop_reason", .text "tool_use")])]
      stop := event "message_stop" [] }
    (Vendor.claude { http := default }).StreamsWithoutIds body course.events ∧
      ∃ m m', (Vendor.claude { http := default }).reply body = .ok m ∧
        (Vendor.claude { http := default }).assembled course.events = .ok m' ∧
        m' = { m with toolCalls := m'.toolCalls } ∧
        m'.toolCalls.map ToolCall.id ≠ m.toolCalls.map ToolCall.id := by
  intro event text body course
  have hbody : Claude.LacksIds body := by
    unfold body text event
    decide_cbv
  have hcourse : Claude.StreamsReply body course course.events := by
    unfold course body text event
    decide_cbv
  have hstream : (Vendor.claude { http := default }).StreamsWithoutIds body course.events :=
    .claude hbody hcourse
  have hcounts : Claude.CountsFit body := by
    unfold body text event
    decide_cbv
  have hstarts : ((Vendor.claude { http := default }).reply body).map
      (fun m => starts m.toolCalls) = .ok 1 := by
    unfold body text event
    decide_cbv
  obtain ⟨m, m', hm, hm', hagrees, -, -, hagree, -⟩ := ids_of_stream hstream
  refine ⟨hstream, m, m', hm, hm', hagrees.same hcounts, fun hids => ?_⟩
  rw [hm] at hstarts
  cases (Except.ok.inj hstarts).symm.trans (hagree hids)

/-- Two calls without ids, told of in one chunk: the ids of the stream are not those of the body. -/
theorem exists_ids_ne :
    ∃ body chunks, StreamsWithoutIds (.openAI { preset := .openAI, http := default }) body chunks ∧
      ((Vendor.openAI { preset := .openAI, http := default }).assembled chunks).map
          (fun m => m.toolCalls.map ToolCall.id) = .ok ["call_0", "call_1"] ∧
      ((Vendor.openAI { preset := .openAI, http := default }).reply body).map
          (fun m => m.toolCalls.map ToolCall.id) = .ok ["", ""] := by
  refine ⟨.ofMembers [("choices", .array [.ofMembers [("finish_reason", .text "tool_calls"),
      ("message", .ofMembers [("tool_calls", .array [
        .ofMembers [("function", .ofMembers [("name", .text "look"), ("arguments", .text "[1]")])],
        .ofMembers [("id", .text ""), ("function", .ofMembers [
          ("name", .text "find"), ("arguments", .text "[2]")])]])])]])], [
    .ofMembers [("choices", .array [.ofMembers [("delta", .ofMembers [("tool_calls", .array [
      .ofMembers [("index", .ofNat 0), ("function", .ofMembers [
        ("name", .text "look"), ("arguments", .text "[1]")])],
      .ofMembers [("index", .ofNat 1), ("id", .text ""), ("function", .ofMembers [
        ("name", .text "find"), ("arguments", .text "[2]")])]])])]])],
    .ofMembers [("choices", .array [.ofMembers [("finish_reason", .text "tool_calls"),
      ("delta", .empty)]])]],
    .openAI ?_ (show OpenAI.StreamsReply _ [0, 1] _ from ?_), ?_, ?_⟩
  all_goals decide_cbv

end Vendor

end ChatRelay
