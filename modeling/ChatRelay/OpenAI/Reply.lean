import ChatRelay.Json.Writer
import ChatRelay.OpenAI.Config
import ChatRelay.Vendor.Basic

/-!
# Replies of the OpenAI family

## Main definitions

* `OpenAI.failure?` — the error that a body reports
* `OpenAI.reply` — the message of a whole body
* `OpenAI.fragment` — the fragment of a chunk
-/

namespace ChatRelay.OpenAI

/-- A value as a text: a text as it is, all else as JSON. -/
def shown (v : Json) : String :=
  v.asText?.getD v.write

/-- The code of an error: `code`, or `type` where that is null or absent. -/
def failureCode? (e : Json) : Option String :=
  (((e.get? "code").filter (!·.isNull)).or (e.get? "type")).map shown

/-- The error that a body reports. -/
def failure? (vendor : String) (body : Json) : Option Error :=
  ((body.get? "error").filter (!·.isNull)).map fun e =>
    .vendor vendor (failureCode? e) (((e.get? "message").bind Json.asText?).getD (shown e))

/-- The token counts of a body. The total is at least the sum as it is computed. -/
def usage? (body : Json) : Option TokenUsage :=
  ((body.get? "usage").filter (·.isObject)).map fun u =>
    let usage := TokenUsage.ofCounts (u.countAt ["prompt_tokens"]) (u.countAt ["completion_tokens"])
    { usage with totalTokens := max usage.totalTokens (u.countAt ["total_tokens"]) }

/-- A call, or a fragment of one; `position` is its index where it states none. -/
def callOf (position : Option UInt32) (v : Json) : ToolCall :=
  { ToolCall.ofFunction (Vendor.textAt ["id"] v) (Vendor.textAt ["function", "name"] v)
      (Vendor.textAt ["function", "arguments"] v) with
    index := (((v.get? "index").bind Json.asCount?).map UInt32.ofNat).or position }

/-- The calls of a message or a delta. -/
def callsOf (message : Json) : List Json :=
  ((message.get? "tool_calls").bind Json.asArray?).getD []

/-- The text at the end of a path, if it is not empty. -/
def nonEmptyAt? (path : List String) (v : Json) : Option String :=
  (v.textAt? path).bind Vendor.nonEmpty?

/-- The message of a whole body: that of its first choice. -/
def reply (vendor : String) (body : Json) : Result Message :=
  match failure? vendor body with
  | some e => .error e
  | none =>
    match body.at? ["choices", "0"] with
    | none => .error (.vendor vendor none "response contained no choices")
    | some choice =>
      let message := choice.getD "message"
      .ok { Message.assistant (Vendor.textAt ["content"] message) with
        reasoning := nonEmptyAt? ["reasoning_content"] message
        toolCalls := (callsOf message).mapIdx fun i v => callOf (some (UInt32.ofNat i)) v
        info := Vendor.reportOf (nonEmptyAt? ["finish_reason"] choice) (usage? body) }

/-- The fragment of a chunk. A chunk without choices carries a report at most. -/
def fragment (vendor : String) (chunk : Json) : Result (Option Message) :=
  match failure? vendor chunk with
  | some e => .error e
  | none =>
    match chunk.at? ["choices", "0"] with
    | none => .ok (Vendor.contentful?
        { Message.assistant "" with info := Vendor.reportOf none (usage? chunk) })
    | some choice =>
      let delta := choice.getD "delta"
      .ok (Vendor.contentful? { Message.assistant (Vendor.textAt ["content"] delta) with
        reasoning := nonEmptyAt? ["reasoning_content"] delta
        toolCalls := (callsOf delta).map (callOf none)
        info := Vendor.reportOf (nonEmptyAt? ["finish_reason"] choice) (usage? chunk) })

end ChatRelay.OpenAI
