import ChatRelay.Proofs.Stream.Assembled

/-!
# Streams of Ollama

A reply may be streamed in any pieces: its texts in consecutive pieces and its calls in consecutive
slices, on lines that are not done, and the rest, the reason and the counts on the line that is.
The message of such a stream is that of the whole body, ids included: a line knows no positions, but
the accumulator counts the calls just as the whole body does.

## Main definitions

* `Ollama.IsReply` — a body that is a whole reply
* `Ollama.StreamsReply` — lines and a last line that stream a body
-/

namespace ChatRelay.Ollama

open Vendor

/-! ### Views of a body or line -/

def content (v : Json) : String :=
  textAt ["content"] (v.getD "message")

def thinking (v : Json) : String :=
  textAt ["thinking"] (v.getD "message")

def calls (v : Json) : List Json :=
  (((v.getD "message").get? "tool_calls").bind Json.asArray?).getD []

def IsDone (v : Json) : Prop :=
  (v.get? "done").bind Json.asBool? = some true

/-- A call has a name, and its id, if it states one, is not empty. -/
def IsCall (call : Json) : Prop :=
  textAt ["function", "name"] call ≠ "" ∧ call.textAt? ["id"] ≠ some ""

/-- A body that is a whole reply. -/
@[mk_iff]
structure IsReply (body : Json) : Prop where
  failure : body.get? "error" = none
  isDone : IsDone body
  reason : body.textAt? ["done_reason"] ≠ some ""
  calls : ∀ call ∈ calls body, IsCall call

/-- Lines that are not done and a last one that is stream a body: its texts in consecutive pieces,
its calls in consecutive slices, and the report on the last line. -/
@[mk_iff]
structure StreamsReply (body : Json) (lines : List Json) (last : Json) : Prop where
  failure : ∀ line ∈ lines ++ [last], line.get? "error" = none
  isOpen : ∀ line ∈ lines, ¬ IsDone line
  isDone : IsDone last
  content : String.join ((lines ++ [last]).map content) = content body
  thinking : String.join ((lines ++ [last]).map thinking) = thinking body
  calls : (lines ++ [last]).flatMap calls = calls body
  reason : last.textAt? ["done_reason"] = body.textAt? ["done_reason"]
  promptCount : last.countAt ["prompt_eval_count"] = body.countAt ["prompt_eval_count"]
  completionCount : last.countAt ["eval_count"] = body.countAt ["eval_count"]

instance (v : Json) : Decidable (IsDone v) :=
  inferInstanceAs (Decidable (_ = _))

instance (call : Json) : Decidable (IsCall call) :=
  inferInstanceAs (Decidable (_ ∧ _))

instance (body : Json) : Decidable (IsReply body) :=
  decidable_of_iff' _ (isReply_iff body)

instance (body : Json) (lines : List Json) (last : Json) :
    Decidable (StreamsReply body lines last) :=
  decidable_of_iff' _ (streamsReply_iff body lines last)

/-! ### The fragment of a line -/

/-- The finish reason of a reply that is done. -/
def reason (v : Json) : String :=
  (v.textAt? ["done_reason"]).getD "stop"

/-- The token counts of a reply that is done. -/
def usage (v : Json) : TokenUsage :=
  .ofCounts (v.countAt ["prompt_eval_count"]) (v.countAt ["eval_count"])

theorem report?_of_isDone {v : Json} (h : IsDone v) :
    report? v = reportOf (some (reason v)) (some (usage v)) :=
  if_pos h

theorem report?_of_not_isDone {v : Json} (h : ¬ IsDone v) : report? v = none :=
  if_neg h

theorem messageOf_eq (numbered : Bool) (v : Json) :
    messageOf numbered v =
      { Message.assistant (content v) with
        reasoning := nonEmpty? (thinking v)
        toolCalls := (calls v).mapIdx fun i call => callOf (if numbered then some i else none) call
        info := report? v } := by
  simp only [messageOf, bind_nonEmpty?]
  rfl

/-- What comes of a body or line is what it says. -/
theorem eq_messageOf_of_reply {m : Message} (h : reply body = .ok m) : m = messageOf true body := by
  rw [reply] at h
  split at h
  · cases h
  · exact (Except.ok.inj h).symm

theorem eq_messageOf_of_fragment {line : Json} {found : Option Message}
    (h : fragment line = .ok found) : found = contentful? (messageOf false line) := by
  rw [fragment] at h
  split at h
  · cases h
  · exact (Except.ok.inj h).symm

theorem reason_ne_empty {v : Json} (h : v.textAt? ["done_reason"] ≠ some "") : reason v ≠ "" := by
  unfold reason
  cases hr : v.textAt? ["done_reason"] with
  | none => simp
  | some r =>
      rw [hr] at h
      exact fun hempty => h (congrArg some hempty)

/-- What a line says is a fragment of a reply. -/
theorem isFragment_messageOf {numbered : Bool} {v : Json}
    (h : IsDone v → v.textAt? ["done_reason"] ≠ some "") : (messageOf numbered v).IsFragment := by
  rw [messageOf_eq]
  by_cases hdone : IsDone v
  · rw [report?_of_isDone hdone]
    exact isFragment_of_reportOf (nonEmpty?_ne _) (by simpa using reason_ne_empty (h hdone))
  · rw [report?_of_not_isDone hdone]
    exact isFragment_of_no_report (nonEmpty?_ne _)

/-- A call that lacks an id is written with that of its position, where that is known. -/
theorem callOf_some {call : Json} (h : IsCall call) (n : Nat) :
    callOf (some n) call =
      if (callOf none call).id = "" then
        { callOf none call with id := ToolCall.positionalId n }
      else callOf none call :=
  ToolCall.ofFunction_getD h.2 n ..

/-! ### The message of a stream -/

variable {body last : Json} {lines : List Json}

/-- The calls of a stream, once the accumulator has given ids, are those of the whole body. -/
theorem calls_of_streamsReply (hbody : IsReply body) (h : StreamsReply body lines last) :
    Accumulator.named 0 (((lines ++ [last]).map (messageOf false)).flatMap Message.toolCalls) =
      (messageOf true body).toolCalls := by
  have hslice (line : Json) :
      (messageOf false line).toolCalls = (calls line).map (callOf none) := by
    rw [messageOf_eq]
    exact List.mapIdx_eq_iff.mpr fun i => by simp
  have hall : ((lines ++ [last]).map (messageOf false)).flatMap Message.toolCalls =
      (calls body).map (callOf none) := by
    rw [← h.calls, List.flatMap_map, List.map_flatMap]
    exact congrArg (List.flatMap · _) (funext hslice)
  have hname : ∀ call ∈ calls body, (callOf none call).function.name ≠ "" :=
    fun call hcall => (hbody.calls call hcall).1
  rw [hall, Accumulator.named_map hname fun call hcall => callOf_some (hbody.calls call hcall),
    messageOf_eq]
  simp

/-- The only report of a stream is that of its last line. -/
theorem report_of_streamsReply (h : StreamsReply body lines last) :
    (((lines ++ [last]).map (messageOf false)).map Message.finishReason?).reduceOption =
        (some (reason body)).toList ∧
      ((lines ++ [last]).map (messageOf false)).filterMap Message.usage? = [usage body] := by
  -- Lines that are not done report nothing, so the report is that of the last line.
  have hopen : ∀ line ∈ lines, (messageOf false line).finishReason? = none ∧
      (messageOf false line).usage? = none := by
    intro line hline
    simp [messageOf_eq, Message.finishReason?, Message.usage?,
      report?_of_not_isDone (h.isOpen line hline)]
  have hreason : reason last = reason body := by rw [reason, h.reason, reason]
  have husage : usage last = usage body := by
    rw [usage, h.promptCount, h.completionCount, usage]
  have hlast : (messageOf false last).finishReason? = some (reason body) ∧
      (messageOf false last).usage? = some (usage body) := by
    rw [← hreason, ← husage]
    simp [messageOf_eq, Message.finishReason?, Message.usage?, report?_of_isDone h.isDone, reportOf]
  have hreasons : lines.map (fun line => (messageOf false line).finishReason?) =
      List.replicate lines.length none :=
    List.map_eq_replicate_iff.mpr fun line hline => (hopen line hline).1
  have husages : (lines.map (messageOf false)).filterMap Message.usage? = [] := by
    rw [List.filterMap_map]
    exact List.filterMap_eq_nil_iff.mpr fun line hline => (hopen line hline).2
  constructor
  · simp [Function.comp_def, hreasons, hlast, List.reduceOption_append]
  · rw [List.map_append, List.filterMap_append, husages]
    simp [hlast]

/-- **A stream comes to the same message as the whole body,** however the reply is cut. -/
theorem lines_assemble_reply (c : Config) (hbody : IsReply body)
    (h : StreamsReply body lines last) :
    ∃ m, (Vendor.ollama c).reply body = .ok m ∧
      (Vendor.ollama c).assembled (lines ++ [last]) = .ok m := by
  refine ⟨messageOf true body, by simp [Vendor.reply, reply, failure?, hbody.failure], ?_⟩
  have hstream : (Vendor.ollama c).Streams (lines ++ [last])
      ((lines ++ [last]).map (messageOf false)) := by
    refine streams_map fun line hline => ?_
    simp [Vendor.fragment, fragment, failure?, h.failure line hline]
  have hfs : ∀ f ∈ (lines ++ [last]).map (messageOf false), f.IsFragment := by
    intro f hf
    obtain ⟨line, hline, rfl⟩ := List.mem_map.mp hf
    refine isFragment_messageOf fun hdone => ?_
    rcases List.mem_append.mp hline with hline | hline
    · exact absurd hdone (h.isOpen line hline)
    · rw [List.mem_singleton.mp hline, h.reason]
      exact hbody.reason
  have hindex : ∀ f ∈ (lines ++ [last]).map (messageOf false), ∀ call ∈ f.toolCalls,
      call.index = none := by
    intro f hf call hcall
    obtain ⟨line, -, rfl⟩ := List.mem_map.mp hf
    rw [messageOf_eq] at hcall
    obtain ⟨i, hi, rfl⟩ := List.mem_mapIdx.mp hcall
    rfl
  obtain ⟨hreason, husages⟩ := report_of_streamsReply h
  have husage : (((lines ++ [last]).map (messageOf false)).map Message.usage?).foldl
      TokenUsage.mergeOption none = some (usage body) := by
    rw [TokenUsage.foldl_mergeOption_reduceOption, reduceOption_map, husages]
    rfl
  have hne : some (reason body) ≠ some "" := by simpa using reason_ne_empty hbody.reason
  have hcontent : ((lines ++ [last]).map (messageOf false)).map Message.content =
      (lines ++ [last]).map content := by
    simp [messageOf_eq, Function.comp_def, Message.assistant]
  have hthinking : (((lines ++ [last]).map (messageOf false)).map fun f => f.reasoning.getD "") =
      (lines ++ [last]).map thinking := by
    simp [messageOf_eq, Function.comp_def, getD_nonEmpty?]
  obtain ⟨m, hm, hgathered⟩ := assembled_of_index_none hstream hfs rfl hindex
  -- A single report is merged with no other, so no sum of counts can wrap around.
  have hsame := hgathered.same (husages ▸ TokenUsage.sumsFit_singleton _)
  rw [hm, hsame, gathered_eq hfs hreason hne, husage, hcontent, h.content, hthinking, h.thinking,
    calls_of_streamsReply hbody h, messageOf_eq, report?_of_isDone hbody.isDone]

/-- Two calls without ids on two lines: the second gets the id of its position in the reply. -/
theorem lines_assemble_reply_two_calls :
    ∃ m, (Vendor.ollama { http := default }).reply (.ofMembers [
        ("done", .bool true), ("eval_count", .ofNat 7),
        ("message", .ofMembers [("content", .text "Hello"), ("tool_calls", .array [
          .ofMembers [("function", .ofMembers [("name", .text "look")])],
          .ofMembers [("function", .ofMembers [("name", .text "find")])]])])]) = .ok m ∧
      (Vendor.ollama { http := default }).assembled ([
        .ofMembers [("done", .bool false), ("message", .ofMembers [("content", .text "Hel"),
          ("tool_calls", .array [
            .ofMembers [("function", .ofMembers [("name", .text "look")])]])])]] ++ [
        .ofMembers [("done", .bool true), ("eval_count", .ofNat 7),
          ("message", .ofMembers [("content", .text "lo"), ("tool_calls", .array [
            .ofMembers [("function", .ofMembers [("name", .text "find")])]])])]]) = .ok m :=
  lines_assemble_reply { http := default } (by decide_cbv) (by decide_cbv)

end ChatRelay.Ollama
