import ChatRelay.Json.Writer
import ChatRelay.Ollama.Config
import ChatRelay.Vendor.Basic

/-!
# Replies of Ollama

Whole bodies and lines of a stream have the same form; the last line is marked as done and holds the
token counts. A call without an id gets one by its position in the reply. A line does not know that
position, so there such a call stays without.

## Main definitions

* `Ollama.failure?` — the error that a body reports
* `Ollama.messageOf` — the message of a body or line
* `Ollama.reply`, `Ollama.fragment` — the message of a whole body, the fragment of a line
-/

namespace ChatRelay.Ollama

/-- The error that a body reports. -/
def failure? (body : Json) : Option Error :=
  (body.get? "error").map fun e => .vendor typeName none (e.asText?.getD e.write)

/-- A call; `position` is its position in the reply, where that is known. -/
def callOf (position : Option Nat) (call : Json) : ToolCall :=
  .ofFunction ((call.textAt? ["id"]).getD ((position.map ToolCall.positionalId).getD ""))
    (Vendor.textAt ["function", "name"] call)
    ((call.at? ["function", "arguments"]).getD .empty).write

/-- What is reported once the reply is done. -/
def report? (body : Json) : Option ResponseInfo :=
  if (body.get? "done").bind Json.asBool? = some true then
    some { finishReason := some ((body.textAt? ["done_reason"]).getD "stop")
           usage := some (.ofCounts (body.countAt ["prompt_eval_count"])
             (body.countAt ["eval_count"])) }
  else none

/-- The message of a body or line; `numbered` if it holds all calls of the reply. -/
def messageOf (numbered : Bool) (body : Json) : Message :=
  let message := body.getD "message"
  { Message.assistant (Vendor.textAt ["content"] message) with
    reasoning := (message.textAt? ["thinking"]).bind Vendor.nonEmpty?
    toolCalls := (((message.get? "tool_calls").bind Json.asArray?).getD []).mapIdx fun i call =>
      callOf (if numbered then some i else none) call
    info := report? body }

/-- The message of a whole body. -/
def reply (body : Json) : Result Message :=
  match failure? body with
  | some e => .error e
  | none => .ok (messageOf true body)

/-- The fragment of a line. -/
def fragment (line : Json) : Result (Option Message) :=
  match failure? line with
  | some e => .error e
  | none => .ok (Vendor.contentful? (messageOf false line))

end ChatRelay.Ollama
