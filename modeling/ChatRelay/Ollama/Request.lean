import ChatRelay.Ollama.Config
import ChatRelay.Vendor.Basic

/-!
# Requests to Ollama

Pictures stand beside the text of a message and must hold their data. There is no tool choice, so a
model that must not call tools is not told of them, and one cannot be made to call them.

## Main definitions

* `Ollama.messageJson?` — a message
* `Ollama.request` — a chat
-/

namespace ChatRelay.Ollama

/-- The text of a message and its pictures. -/
structure Body where
  content : String
  images : List String := []

/-- One more part. Texts stand on lines of their own. -/
def Body.add? (b : Body) : Part → Result Body
  | .text text =>
    .ok { b with content := if b.content.isEmpty then text else b.content ++ "\n" ++ text }
  | .image m =>
    match m.inlineData? with
    | some (_, data) => .ok { b with images := b.images ++ [data] }
    | none => .error (Vendor.unsupported typeName "remote image URLs (inline base64 only)")
  | .audio _ => .error (Vendor.unsupported typeName "audio content")
  | .video _ => .error (Vendor.unsupported typeName "video content")

/-- A call in a message. -/
def callJson? (c : ToolCall) : Result Json :=
  (Vendor.argumentsOf typeName c).map fun arguments =>
    .ofMembers [("function",
      .ofMembers [("name", .text c.function.name), ("arguments", arguments)])]

/-- A message. -/
def messageJson? (m : Message) : Result Json := do
  let b ← m.parts.foldlM Body.add? { content := m.content }
  let calls ← m.toolCalls.mapM callJson?
  return .record [("role", some (.text m.role.name)), ("content", some (.text b.content)),
    ("images", Vendor.textsJson? b.images),
    ("tool_calls", if calls.isEmpty then none else some (.array calls)),
    ("tool_name", m.toolName.map .text)]

/-- A tool. -/
def toolJson (t : ToolInfo) : Json :=
  .ofMembers [("type", .text "function"),
    ("function", .ofMembers [("name", .text t.name), ("description", .text (t.description.getD "")),
      ("parameters", t.schema)])]

/-- How the reply is drawn, if anything is set. -/
def optionsJson? (c : Config) (s : Settings) : Option Json :=
  Vendor.object? [("temperature", s.temperature.map Single.toJson),
    ("num_predict", s.maxTokens.map Settings.wordJson), ("top_p", s.topP.map Single.toJson),
    ("top_k", c.topK.map Settings.wordJson), ("stop", Vendor.textsJson? s.stop)]

/-- A chat. -/
def request (c : Config) (r : ChatRequest) (stream : Bool) : Result WireRequest := do
  let messages ← r.messages.mapM messageJson?
  return {
    url := Setting.withoutSlashes c.baseUrl ++ "/api/chat"
    body := .record [("model", some (.text r.settings.model)), ("messages", some (.array messages)),
      ("stream", some (.bool stream)), ("options", optionsJson? c r.settings),
      ("keep_alive", c.keepAlive.map .text), ("think", c.think.map .bool),
      ("tools", Vendor.toolsJson? toolJson r.effectiveTools)]
    stream }

end ChatRelay.Ollama
