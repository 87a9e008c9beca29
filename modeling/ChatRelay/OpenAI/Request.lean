import ChatRelay.OpenAI.Config
import ChatRelay.Vendor.Basic

/-!
# Requests to the OpenAI family

## Main definitions

* `OpenAI.partJson?`, `OpenAI.messageJson?` — parts and messages
* `OpenAI.request` — a chat completion
-/

namespace ChatRelay.OpenAI

/-- The last element of a media type: what follows the last slash, or all of it. -/
def audioFormat (mime : String) : String :=
  String.ofList (mime.toList.reverse.takeWhile (· != '/')).reverse

/-- A text as a part. -/
def textJson (text : String) : Json :=
  .ofMembers [("type", .text "text"), ("text", .text text)]

/-- A part of a message. A sound must hold its data itself. -/
def partJson? (vendor : String) : Part → Result Json
  | .text text => .ok (textJson text)
  | .image m => .ok (.ofMembers [("type", .text "image_url"),
      ("image_url", .ofMembers [("url", .text m.url)])])
  | .video m => .ok (.ofMembers [("type", .text "video_url"),
      ("video_url", .ofMembers [("url", .text m.url)])])
  | .audio m =>
    match m.inlineData? with
    | none => .error (Vendor.unsupported vendor "remote audio URLs")
    | some (mime, data) => .ok (.ofMembers [("type", .text "input_audio"),
        ("input_audio", .ofMembers [("data", .text data), ("format", .text (audioFormat mime))])])

/-- The content of a message: a list if there are parts, else a text. A message of the assistant
that only calls tools has none. -/
def contentJson? (vendor : String) (m : Message) : Result Json :=
  if m.parts.isEmpty then
    .ok (if m.role = .assistant && !m.toolCalls.isEmpty && m.content.isEmpty then .null
      else .text m.content)
  else
    (m.parts.mapM (partJson? vendor)).map fun parts =>
      .array ((if m.content.isEmpty then [] else [textJson m.content]) ++ parts)

/-- A call in a message of the assistant. -/
def callJson (c : ToolCall) : Json :=
  .ofMembers [("id", .text c.id), ("type", .text "function"),
    ("function", .ofMembers [("name", .text c.function.name),
      ("arguments", .text c.function.arguments)])]

/-- The id of the call that a tool message answers; no other message carries one. -/
def answeredId? (m : Message) : Result (Option Json) :=
  if m.role ≠ .tool then .ok none
  else
    match Vendor.nonEmpty? (m.toolCallId.getD "") with
    | some id => .ok (some (.text id))
    | none => .error (.validation "tool message requires tool_call_id"
        { field := some "messages.tool_call_id", source := some "openai_translator" })

/-- A message. -/
def messageJson? (vendor : String) (m : Message) : Result Json := do
  let content ← contentJson? vendor m
  let answered ← answeredId? m
  return .record [("role", some (.text m.role.name)), ("content", some content),
    ("tool_calls", if m.toolCalls.isEmpty then none else some (.array (m.toolCalls.map callJson))),
    ("tool_call_id", answered)]

/-- A tool. -/
def toolJson (t : ToolInfo) : Json :=
  .ofMembers [("type", .text "function"),
    ("function", .ofMembers [("name", .text t.name), ("description", .text (t.description.getD "")),
      ("parameters", t.schema)])]

/-- The name of a tool choice. -/
def choiceName : ToolChoice → String
  | .forbidden => "none"
  | .allowed => "auto"
  | .forced => "required"

/-- A chat completion. A tool choice is sent only along with tools. -/
def request (c : Config) (r : ChatRequest) (stream : Bool) : Result WireRequest := do
  let s := r.settings
  let messages ← r.messages.mapM (messageJson? c.preset.typeName)
  return {
    url := Setting.withoutSlashes c.baseUrl ++ "/chat/completions"
    headers := [("Authorization", "Bearer " ++ c.apiKey)] ++
      (c.organization.map fun o => ("OpenAI-Organization", o)).toList
    body := .record [("model", some (.text s.model)), ("messages", some (.array messages)),
      ("stream", some (.bool stream)),
      ("stream_options",
        if stream then some (.ofMembers [("include_usage", .bool true)]) else none),
      ("temperature", s.temperature.map Single.toJson),
      ("max_tokens", s.maxTokens.map Settings.wordJson), ("top_p", s.topP.map Single.toJson),
      ("stop", Vendor.textsJson? s.stop),
      ("presence_penalty", c.presencePenalty.map Single.toJson),
      ("frequency_penalty", c.frequencyPenalty.map Single.toJson),
      ("seed", c.seed.map fun n => .number (.integer n)), ("user", c.user.map .text),
      ("tools", Vendor.toolsJson? toolJson r.tools),
      ("tool_choice", if r.tools.isEmpty then none else r.toolChoice.map (.text ∘ choiceName))]
    stream }

end ChatRelay.OpenAI
