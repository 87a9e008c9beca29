import ChatRelay.Gemini.Config
import ChatRelay.Vendor.Basic
import ChatRelay.Vendor.Turn

/-!
# Requests to Gemini

System texts are an instruction of their own, a conversation is made of turns of typed parts, and
the result of a tool names the function, not the call.

## Main definitions

* `Gemini.functionName?` — the function whose result a tool message is
* `Gemini.rules` — how messages become parts
* `Gemini.request` — a request for content
-/

namespace ChatRelay.Gemini

/-- A text as a part. -/
def textJson (text : String) : Json :=
  .ofMembers [("text", .text text)]

/-- A picture, sound or film: its data, or an address. -/
def mediaJson (m : Media) : Json :=
  match m.inlineData? with
  | some (mime, data) => .ofMembers [("inlineData",
      .ofMembers [("mimeType", .text mime), ("data", .text data)])]
  | none => .ofMembers [("fileData",
      .ofMembers [("mimeType", .text (m.mimeType.getD "application/octet-stream")),
        ("fileUri", .text m.url)])]

/-- A part of a message. -/
def partJson : Part → Json
  | .text text => textJson text
  | .image m | .audio m | .video m => mediaJson m

/-- A call as a part. -/
def callJson? (c : ToolCall) : Result Json :=
  (Vendor.argumentsOf typeName c).map fun arguments =>
    .ofMembers [("functionCall",
      .ofMembers [("name", .text c.function.name), ("args", arguments)])]

/-- The parts of a message: its text if it has any, its parts, its calls. -/
def parts? (m : Message) : Result (List Json) := do
  let calls ← m.toolCalls.mapM callJson?
  return (if m.content.isEmpty then [] else [textJson m.content]) ++ m.parts.map partJson ++ calls

/-- The function whose result a tool message is: the one it names, else that of the call with its id
in the latest of the messages before it. -/
def functionName? (earlier : List Message) (m : Message) : Option String :=
  (m.toolName.bind Vendor.nonEmpty?).or
    (m.toolCallId.bind fun id =>
      ((earlier.flatMap (·.toolCalls)).find? (·.id == id)).map (·.function.name))

/-- The result of a tool as a part. -/
def resultJson? (earlier : List Message) (m : Message) : Result Json :=
  match functionName? earlier m with
  | some name => .ok (.ofMembers [("functionResponse", .ofMembers [("name", .text name),
      ("response", .ofMembers [("content", .text m.content)])])])
  | none => .error (.validation "tool message needs tool_name or a matching earlier tool call"
      { field := some "messages.tool_name", source := some (Vendor.requestWriter typeName) })

/-- How messages become parts. -/
def rules : Contribution.Rules where
  say := parts?
  answer := resultJson?

/-- The name of a role. -/
def roleName : Role → String
  | .assistant => "model"
  | _ => "user"

/-- A turn. Results are said by the user. -/
def turnJson : Turn → Json
  | .said role parts => .ofMembers [("role", .text (roleName role)), ("parts", .array parts)]
  | .results parts => .ofMembers [("role", .text (roleName .user)), ("parts", .array parts)]

/-- The system texts as an instruction, if there are any. -/
def systemJson? (texts : List String) : Option Json :=
  if texts.isEmpty then none else some (.ofMembers [("parts", .array (texts.map textJson))])

/-- A tool. -/
def toolJson (t : ToolInfo) : Json :=
  .ofMembers [("name", .text t.name), ("description", .text (t.description.getD "")),
    ("parameters", t.schema)]

/-- All tools. -/
def toolsJson? (tools : List ToolInfo) : Option Json :=
  (Vendor.toolsJson? toolJson tools).map fun declarations =>
    .array [.ofMembers [("functionDeclarations", declarations)]]

/-- The name of a tool choice. -/
def choiceName : ToolChoice → String
  | .forbidden => "NONE"
  | .allowed => "AUTO"
  | .forced => "ANY"

/-- A tool choice. -/
def choiceJson (choice : ToolChoice) : Json :=
  .ofMembers [("functionCallingConfig", .ofMembers [("mode", .text (choiceName choice))])]

/-- How the reply is drawn, if anything is set. -/
def generationJson? (c : Config) (s : Settings) : Option Json :=
  Vendor.object? [("temperature", s.temperature.map Single.toJson),
    ("maxOutputTokens", s.maxTokens.map Settings.wordJson), ("topP", s.topP.map Single.toJson),
    ("topK", c.topK.map Settings.wordJson), ("stopSequences", Vendor.textsJson? s.stop),
    ("thinkingConfig",
      if c.includeThoughts then some (.ofMembers [("includeThoughts", .bool true)]) else none)]

/-- The address of a request. It names the model, and whether the reply is streamed. -/
def address (c : Config) (model : String) (stream : Bool) : String :=
  Setting.withoutSlashes c.baseUrl ++ "/models/" ++ model ++
    (if stream then ":streamGenerateContent?alt=sse" else ":generateContent")

/-- A request for content. A tool choice is sent only along with tools. -/
def request (c : Config) (r : ChatRequest) (stream : Bool) : Result WireRequest := do
  let said ← Contribution.ofMessages rules r.messages
  return {
    url := address c r.settings.model stream
    headers := [("x-goog-api-key", c.apiKey)]
    body := .record [("contents", some (.array ((Turn.ofContributions said).map turnJson))),
      ("systemInstruction", systemJson? (Contribution.systemTexts said)),
      ("generationConfig", generationJson? c r.settings), ("tools", toolsJson? r.tools),
      ("toolConfig", if r.tools.isEmpty then none else r.toolChoice.map choiceJson)]
    stream }

end ChatRelay.Gemini
