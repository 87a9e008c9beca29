import ChatRelay.Claude.Config
import ChatRelay.Vendor.Basic
import ChatRelay.Vendor.Turn

/-!
# Requests to Claude

System texts are a field of their own, a conversation is made of turns of typed blocks, and a token
limit must be stated.

## Main definitions

* `Claude.rules` — how messages become blocks
* `Claude.turnJson` — a turn
* `Claude.request` — a request of the Messages API
-/

namespace ChatRelay.Claude

/-- A text as a block. -/
def textJson (text : String) : Json :=
  .ofMembers [("type", .text "text"), ("text", .text text)]

/-- Where a picture comes from: its data, or an address. -/
def sourceJson (m : Media) : Json :=
  match m.inlineData? with
  | some (mime, data) => .ofMembers [("type", .text "base64"), ("media_type", .text mime),
      ("data", .text data)]
  | none => .ofMembers [("type", .text "url"), ("url", .text m.url)]

/-- A part as a block. -/
def partJson? : Part → Result Json
  | .text text => .ok (textJson text)
  | .image m => .ok (.ofMembers [("type", .text "image"), ("source", sourceJson m)])
  | .audio _ => .error (Vendor.unsupported typeName "audio content")
  | .video _ => .error (Vendor.unsupported typeName "video content")

/-- A call as a block. -/
def callJson? (c : ToolCall) : Result Json :=
  (Vendor.argumentsOf typeName c).map fun input =>
    .ofMembers [("type", .text "tool_use"), ("id", .text c.id), ("name", .text c.function.name),
      ("input", input)]

/-- The blocks of a message: its text if it has any, its parts, its calls. -/
def blocks? (m : Message) : Result (List Json) := do
  let parts ← m.parts.mapM partJson?
  let calls ← m.toolCalls.mapM callJson?
  return (if m.content.isEmpty then [] else [textJson m.content]) ++ parts ++ calls

/-- The result of a tool as a block. -/
def resultJson (m : Message) : Json :=
  .ofMembers [("type", .text "tool_result"), ("tool_use_id", .text (m.toolCallId.getD "")),
    ("content", .text m.content)]

/-- How messages become blocks. -/
def rules : Contribution.Rules where
  say := blocks?
  answer := fun _ m => .ok (resultJson m)

/-- A turn. Results are said by the user. -/
def turnJson : Turn → Json
  | .said role blocks => .ofMembers [("role", .text role.name), ("content", .array blocks)]
  | .results blocks => .ofMembers [("role", .text Role.user.name), ("content", .array blocks)]

/-- The system texts as one, if there are any. -/
def systemJson? (texts : List String) : Option Json :=
  if texts.isEmpty then none else some (.text ("\n\n".intercalate texts))

/-- A tool. -/
def toolJson (t : ToolInfo) : Json :=
  .record [("name", some (.text t.name)), ("description", t.description.map .text),
    ("input_schema", some t.schema)]

/-- The name of a tool choice. -/
def choiceName : ToolChoice → String
  | .forbidden => "none"
  | .allowed => "auto"
  | .forced => "any"

/-- A tool choice. -/
def choiceJson (choice : ToolChoice) : Json :=
  .ofMembers [("type", .text (choiceName choice))]

/-- The setting for thinking. -/
def thinkingJson (budget : UInt32) : Json :=
  .ofMembers [("type", .text "enabled"), ("budget_tokens", Settings.wordJson budget)]

/-- A request of the Messages API. A tool choice is sent only along with tools. -/
def request (c : Config) (r : ChatRequest) (stream : Bool) : Result WireRequest := do
  let s := r.settings
  let said ← Contribution.ofMessages rules r.messages
  return {
    url := Setting.withoutSlashes c.baseUrl ++ "/v1/messages"
    headers := [("x-api-key", c.apiKey), ("anthropic-version", c.apiVersion)]
    body := .record [("model", some (.text s.model)),
      ("messages", some (.array ((Turn.ofContributions said).map turnJson))),
      ("max_tokens", some (Settings.wordJson (s.maxTokens.getD defaultMaxTokens))),
      ("stream", some (.bool stream)), ("system", systemJson? (Contribution.systemTexts said)),
      ("temperature", s.temperature.map Single.toJson), ("top_p", s.topP.map Single.toJson),
      ("top_k", c.topK.map Settings.wordJson), ("stop_sequences", Vendor.textsJson? s.stop),
      ("thinking", c.thinkingBudget.map thinkingJson),
      ("tools", Vendor.toolsJson? toolJson r.tools),
      ("tool_choice", if r.tools.isEmpty then none else r.toolChoice.map choiceJson)]
    stream }

end ChatRelay.Claude
