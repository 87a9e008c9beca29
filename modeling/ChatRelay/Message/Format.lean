import ChatRelay.Json.Record
import ChatRelay.Message.Basic

/-!
# The JSON form of messages and tools

## Main definitions

* `Message.toJson`, `Message.ofJson?` — messages; absent optional fields and empty lists are left
  out, an empty text is not absent
* `ToolCall.toJson`, `ToolInfo.toJson`, … and their readers
-/

namespace ChatRelay

/-! ### Tools -/

namespace ToolInfo

def toJson (t : ToolInfo) : Json :=
  .record [("name", some (.text t.name)), ("description", t.description.map .text),
    ("parameters", t.parameters)]

def ofJson? (v : Json) : Option ToolInfo := do
  let field ← v.fields? ["name", "description", "parameters"]
  let name ← Json.required Json.asText? (field "name")
  let description ← Json.optional Json.asText? (field "description")
  let parameters ← Json.optional some (field "parameters")
  return { name, description, parameters }

end ToolInfo

namespace ToolChoice

def toJson (c : ToolChoice) : Json := .text c.name

def ofJson? (v : Json) : Option ToolChoice := v.name?.bind ofName?

end ToolChoice

namespace FunctionCall

def toJson (f : FunctionCall) : Json :=
  .ofMembers [("name", .text f.name), ("arguments", .text f.arguments)]

def ofJson? (v : Json) : Option FunctionCall := do
  let field ← v.fields? ["name", "arguments"]
  let name ← Json.orElse "" Json.asText? (field "name")
  let arguments ← Json.orElse "" Json.asText? (field "arguments")
  return { name, arguments }

end FunctionCall

namespace ToolCall

def toJson (c : ToolCall) : Json :=
  .record [("index", c.index.map fun i => .ofNat i.toNat), ("id", some (.text c.id)),
    ("type", some (.text c.kind)), ("function", some c.function.toJson)]

def ofJson? (v : Json) : Option ToolCall := do
  let field ← v.fields? ["index", "id", "type", "function"]
  let index ← Json.optional Json.word32? (field "index")
  let id ← Json.orElse "" Json.asText? (field "id")
  let kind ← Json.orElse "" Json.asText? (field "type")
  let function ← Json.required FunctionCall.ofJson? (field "function")
  return { index, id, kind, function }

end ToolCall

/-! ### Messages -/

namespace Role

def toJson (r : Role) : Json := .text r.name

def ofJson? (v : Json) : Option Role := v.name?.bind ofName?

end Role

namespace TokenUsage

def toJson (u : TokenUsage) : Json :=
  .ofMembers [("prompt_tokens", .ofNat u.promptTokens.toNat),
    ("completion_tokens", .ofNat u.completionTokens.toNat),
    ("total_tokens", .ofNat u.totalTokens.toNat)]

def ofJson? (v : Json) : Option TokenUsage := do
  let field ← v.fields? ["prompt_tokens", "completion_tokens", "total_tokens"]
  let prompt ← Json.required Json.asWord? (field "prompt_tokens")
  let completion ← Json.required Json.asWord? (field "completion_tokens")
  let total ← Json.required Json.asWord? (field "total_tokens")
  return ⟨prompt, completion, total⟩

end TokenUsage

namespace ResponseInfo

def toJson (i : ResponseInfo) : Json :=
  .record [("finish_reason", i.finishReason.map .text), ("usage", i.usage.map (·.toJson))]

def ofJson? (v : Json) : Option ResponseInfo := do
  let field ← v.fields? ["finish_reason", "usage"]
  let finishReason ← Json.optional Json.asText? (field "finish_reason")
  let usage ← Json.optional TokenUsage.ofJson? (field "usage")
  return { finishReason, usage }

end ResponseInfo

namespace Media

def toJson (m : Media) : Json :=
  .record [("url", some (.text m.url)), ("mime_type", m.mimeType.map .text)]

def ofJson? (v : Json) : Option Media := do
  let field ← v.fields? ["url", "mime_type"]
  let url ← Json.required Json.asText? (field "url")
  let mimeType ← Json.optional Json.asText? (field "mime_type")
  return { url, mimeType }

end Media

namespace Part

/-- A part names its kind under `type` and holds its content under that same name. -/
def toJson : Part → Json
  | .text s => .ofMembers [("type", .text "text"), ("text", .text s)]
  | .image m => .ofMembers [("type", .text "image_url"), ("image_url", m.toJson)]
  | .audio m => .ofMembers [("type", .text "audio_url"), ("audio_url", m.toJson)]
  | .video m => .ofMembers [("type", .text "video_url"), ("video_url", m.toJson)]

/-- A value taken apart into its kind and a record with the content. -/
def kind? : Json → Option (String × Json)
  | .object members =>
    (members.lookup "type").bind fun t => t.asText?.map fun k => (k, .object members)
  | .array (t :: rest) => t.asText?.map fun k => (k, .array rest)
  | _ => none

def ofJson? (v : Json) : Option Part := do
  let (kind, content) ← kind? v
  let field ← content.fields? [kind]
  if kind == "text" then (Json.required Json.asText? (field kind)).map .text
  else if kind == "image_url" then (Json.required Media.ofJson? (field kind)).map .image
  else if kind == "audio_url" then (Json.required Media.ofJson? (field kind)).map .audio
  else if kind == "video_url" then (Json.required Media.ofJson? (field kind)).map .video
  else none

end Part

namespace Message

/-- A list that is written only if it has items. -/
def nonEmptyList {α : Type} (write : α → Json) (items : List α) : Option Json :=
  if items.isEmpty then none else some (.array (items.map write))

def toJson (m : Message) : Json :=
  .record [("role", some m.role.toJson), ("content", some (.text m.content)),
    ("multi_content", nonEmptyList Part.toJson m.parts),
    ("tool_calls", nonEmptyList ToolCall.toJson m.toolCalls),
    ("tool_call_id", m.toolCallId.map .text), ("tool_name", m.toolName.map .text),
    ("reasoning_content", m.reasoning.map .text), ("response_meta", m.info.map (·.toJson))]

def ofJson? (v : Json) : Option Message := do
  let field ← v.fields? ["role", "content", "multi_content", "tool_calls", "tool_call_id",
    "tool_name", "reasoning_content", "response_meta"]
  let role ← Json.required Role.ofJson? (field "role")
  let content ← Json.orElse "" Json.asText? (field "content")
  let parts ← Json.orElse [] (Json.itemsOf Part.ofJson?) (field "multi_content")
  let toolCalls ← Json.orElse [] (Json.itemsOf ToolCall.ofJson?) (field "tool_calls")
  let toolCallId ← Json.optional Json.asText? (field "tool_call_id")
  let toolName ← Json.optional Json.asText? (field "tool_name")
  let reasoning ← Json.optional Json.asText? (field "reasoning_content")
  let info ← Json.optional ResponseInfo.ofJson? (field "response_meta")
  return { role, content, parts, toolCalls, toolCallId, toolName, reasoning, info }

end Message

end ChatRelay
