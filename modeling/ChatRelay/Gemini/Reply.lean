import ChatRelay.Gemini.Config
import ChatRelay.Json.Writer
import ChatRelay.Vendor.Basic

/-!
# Replies of Gemini

Whole bodies and chunks have the same form; a chunk holds a slice of the parts. A call without an id
gets one by its position in the reply. A chunk does not know that position, so there such a call
stays without.

## Main definitions

* `Gemini.failure?` — the error that a body reports
* `Gemini.candidate` — the message of a body or chunk
* `Gemini.reply`, `Gemini.fragment` — the message of a whole body, the fragment of a chunk
-/

namespace ChatRelay.Gemini

/-- The error that a body reports. -/
def failure? (body : Json) : Option Error :=
  ((body.get? "error").filter (·.isObject)).map fun e =>
    .vendor typeName (e.textAt? ["status"]) ((e.textAt? ["message"]).getD "unknown error")

/-- The finish reasons of a reply that was held back. -/
def filterReasons : List String :=
  ["SAFETY", "RECITATION", "BLOCKLIST", "PROHIBITED_CONTENT", "SPII"]

/-- The finish reason in common words. -/
def finishReason (reason : String) : String :=
  if reason = "STOP" then "stop"
  else if reason = "MAX_TOKENS" then "length"
  else if filterReasons.contains reason then "content_filter"
  else Text.lowercase reason

/-- The finish reason of a candidate, if it states one. -/
def finishReason? (candidate : Json) : Option String :=
  ((candidate.textAt? ["finishReason"]).filter fun r =>
    !r.isEmpty && r != "FINISH_REASON_UNSPECIFIED").map finishReason

/-- The token counts of a body. The total is at least the sum as it is computed. -/
def usage? (body : Json) : Option TokenUsage :=
  (body.get? "usageMetadata").map fun u =>
    let usage := TokenUsage.ofCounts (u.countAt ["promptTokenCount"])
      (u.countAt ["candidatesTokenCount"])
    { usage with totalTokens := max usage.totalTokens (u.countAt ["totalTokenCount"]) }

/-- A call; `position` is its position in the reply, where that is known. -/
def callOf (position : Option Nat) (call : Json) : ToolCall :=
  .ofFunction ((call.textAt? ["id"]).getD ((position.map ToolCall.positionalId).getD ""))
    (Vendor.textAt ["name"] call) ((call.get? "args").getD .empty).write

/-- What the parts of a body say. -/
structure Parts where
  content : String := ""
  reasoning : String := ""
  calls : List ToolCall := []

/-- One more part. Text that is thought is reasoning; parts of other kinds say nothing. -/
def Parts.add (numbered : Bool) (p : Parts) (part : Json) : Parts :=
  match part.textAt? ["text"] with
  | some text =>
    if (part.get? "thought").bind Json.asBool? = some true then
      { p with reasoning := p.reasoning ++ text }
    else { p with content := p.content ++ text }
  | none =>
    match part.get? "functionCall" with
    | some call =>
      { p with calls := p.calls ++ [callOf (if numbered then some p.calls.length else none) call] }
    | none => p

/-- What a list of parts says; `numbered` if it holds all calls of the reply. -/
def Parts.ofList (numbered : Bool) (parts : List Json) : Parts :=
  parts.foldl (Parts.add numbered) {}

/-- The error of a prompt that was refused. -/
def refusal? (body : Json) : Option Error :=
  (body.textAt? ["promptFeedback", "blockReason"]).map fun reason =>
    .vendor typeName (some reason) ("prompt blocked: " ++ reason)

/-- The message of a body or chunk: that of its first candidate. -/
def candidate (numbered : Bool) (body : Json) : Result Message :=
  let first := body.at? ["candidates", "0"]
  match (if first.isNone then refusal? body else none) with
  | some e => .error e
  | none =>
    let p := Parts.ofList numbered
      (((first.bind (·.at? ["content", "parts"])).bind Json.asArray?).getD [])
    .ok { Message.assistant p.content with
      reasoning := Vendor.nonEmpty? p.reasoning
      toolCalls := p.calls
      info := Vendor.reportOf (first.bind finishReason?) (usage? body) }

/-- The message of a whole body. -/
def reply (body : Json) : Result Message :=
  match failure? body with
  | some e => .error e
  | none =>
    if (body.at? ["candidates", "0"]).isNone && (body.get? "promptFeedback").isNone then
      .error (.vendor typeName none "response contained no candidates")
    else candidate true body

/-- The fragment of a chunk. -/
def fragment (chunk : Json) : Result (Option Message) :=
  match failure? chunk with
  | some e => .error e
  | none => (candidate false chunk).map Vendor.contentful?

end ChatRelay.Gemini
