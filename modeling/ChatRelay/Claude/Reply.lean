import ChatRelay.Claude.Config
import ChatRelay.Json.Writer
import ChatRelay.Vendor.Basic

/-!
# Replies of Claude

A reply is a list of blocks. A stream tells of them in events: a block starts, grows and stops, and
its position tells which block an event is about. Token counts are split between the first event and
a late one.

## Main definitions

* `Claude.failure?` — the error that a body or an event reports
* `Claude.reply` — the message of a whole body
* `Claude.fragment` — the fragment of an event
-/

namespace ChatRelay.Claude

/-- The error that a body or an event reports. -/
def failure? (body : Json) : Option Error :=
  if body.textAt? ["type"] = some "error" then
    some (.vendor typeName (body.textAt? ["error", "type"])
      ((body.textAt? ["error", "message"]).getD "unknown error"))
  else none

/-- The finish reason of a stop reason. -/
def finishReason (reason : String) : String :=
  if reason = "end_turn" || reason = "stop_sequence" then "stop"
  else if reason = "max_tokens" then "length"
  else if reason = "tool_use" then "tool_calls"
  else reason

/-- The arguments of a call that has none. -/
def emptyArguments : String := "\x7b\x7d"

/-- The token counts of a report. -/
def usageOf (u : Json) : TokenUsage :=
  .ofCounts (u.countAt ["input_tokens"]) (u.countAt ["output_tokens"])

/-- The call of a block at an index. -/
def callOf (block : Json) (index : UInt32) (arguments : String) : ToolCall :=
  (ToolCall.ofFunction (Vendor.textAt ["id"] block) (Vendor.textAt ["name"] block)
    arguments).withIndex index

/-- What the blocks of a body say. -/
structure Blocks where
  content : String := ""
  reasoning : String := ""
  calls : List ToolCall := []

/-- One more block, at a position. Blocks of other kinds say nothing. -/
def Blocks.add (b : Blocks) (block : Json) (position : Nat) : Blocks :=
  match block.textAt? ["type"] with
  | some "text" => { b with content := b.content ++ Vendor.textAt ["text"] block }
  | some "thinking" => { b with reasoning := b.reasoning ++ Vendor.textAt ["thinking"] block }
  | some "tool_use" =>
    { b with calls := b.calls ++ [callOf block (UInt32.ofNat position)
        (((block.get? "input").map Json.write).getD emptyArguments)] }
  | _ => b

/-- What a list of blocks says. -/
def Blocks.ofList (blocks : List Json) : Blocks :=
  blocks.zipIdx.foldl (fun b (block, position) => b.add block position) {}

/-- The message of a whole body. -/
def reply (body : Json) : Result Message :=
  match failure? body with
  | some e => .error e
  | none =>
    match (body.get? "content").bind Json.asArray? with
    | none => .error (.vendor typeName none "response contained no content")
    | some blocks =>
      let b := Blocks.ofList blocks
      .ok { Message.assistant b.content with
        reasoning := Vendor.nonEmpty? b.reasoning
        toolCalls := b.calls
        info := Vendor.reportOf ((body.textAt? ["stop_reason"]).map finishReason)
          ((body.get? "usage").map usageOf) }

/-- The start of a block: the beginning of a text, or the call whose arguments are to come. -/
def blockStart (block : Json) (index : UInt32) : Message :=
  match block.textAt? ["type"] with
  | some "text" => .assistant (Vendor.textAt ["text"] block)
  | some "tool_use" => { Message.assistant "" with toolCalls := [callOf block index ""] }
  | _ => .assistant ""

/-- The growth of a block: some text, some reasoning, or a piece of arguments. -/
def blockDelta (delta : Json) (index : UInt32) : Message :=
  match delta.textAt? ["type"] with
  | some "text_delta" => .assistant (Vendor.textAt ["text"] delta)
  | some "thinking_delta" =>
    { Message.assistant "" with
      reasoning := (delta.textAt? ["thinking"]).bind Vendor.nonEmpty? }
  | some "input_json_delta" =>
    { Message.assistant "" with
      toolCalls := [(ToolCall.ofFunction "" "" (Vendor.textAt ["partial_json"] delta)).withIndex
        index] }
  | _ => .assistant ""

/-- The position of the block that an event is about. -/
def blockIndex (event : Json) : UInt32 :=
  (((event.get? "index").bind Json.asCount?).map UInt32.ofNat).getD 0

/-- The fragment of an event of a kind; events of other kinds have none. -/
def eventFragment? (kind : String) (event : Json) : Option Message :=
  match kind with
  | "message_start" => some { Message.assistant "" with
      info := Vendor.reportOf none ((event.at? ["message", "usage"]).map usageOf) }
  | "content_block_start" => some (blockStart (event.getD "content_block") (blockIndex event))
  | "content_block_delta" => some (blockDelta (event.getD "delta") (blockIndex event))
  | "message_delta" => some { Message.assistant "" with
      info := Vendor.reportOf ((event.textAt? ["delta", "stop_reason"]).map finishReason)
        ((event.get? "usage").map usageOf) }
  | _ => none

/-- The fragment of an event. -/
def fragment (event : Json) : Result (Option Message) :=
  match failure? event with
  | some e => .error e
  | none =>
    match event.textAt? ["type"] with
    | none => .error (.missingField "type"
        (some "Claude stream events are tagged by their type field"))
    | some kind => .ok ((eventFragment? kind event).bind Vendor.contentful?)

end ChatRelay.Claude
