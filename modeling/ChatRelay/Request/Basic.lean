import ChatRelay.Request.Settings

/-!
# Requests

## Main definitions

* `ChatRequest` — a call with all its settings resolved
* `ChatRequest.effectiveTools` — the tools that the model may call
* `WireRequest` — what is sent to a vendor
-/

namespace ChatRelay

/-- A call: settings, conversation and tools. -/
structure ChatRequest where
  settings : Settings := {}
  messages : List Message := []
  tools : List ToolInfo := []
  toolChoice : Option ToolChoice := none
deriving DecidableEq, Repr, Inhabited

namespace ChatRequest

/-- The tools that the model may call: none if it must not call any. -/
def effectiveTools (r : ChatRequest) : List ToolInfo :=
  if r.toolChoice = some .forbidden then [] else r.tools

def ofJson? (v : Json) : Option ChatRequest := do
  let field ← v.fields? ["model", "messages", "temperature", "max_tokens", "top_p", "stop", "tools",
    "tool_choice"]
  let model ← Json.required Json.asText? (field "model")
  let messages ← Json.required (Json.itemsOf Message.ofJson?) (field "messages")
  let temperature ← Json.optional Json.single? (field "temperature")
  let maxTokens ← Json.optional Json.word32? (field "max_tokens")
  let topP ← Json.optional Json.single? (field "top_p")
  let stop ← Json.orElse [] (Json.itemsOf Json.asText?) (field "stop")
  let tools ← Json.orElse [] (Json.itemsOf ToolInfo.ofJson?) (field "tools")
  let toolChoice ← Json.optional ToolChoice.ofJson? (field "tool_choice")
  return {
    settings := { model, temperature, maxTokens, topP, stop }
    messages, tools, toolChoice }

end ChatRequest

/-- What is sent to a vendor. -/
structure WireRequest where
  url : String
  method : String := "POST"
  headers : List (String × String) := []
  body : Json
  stream : Bool
deriving DecidableEq, Repr, Inhabited

namespace WireRequest

/-- The members of the JSON form. -/
def members (r : WireRequest) : List (String × Json) :=
  [("url", .text r.url), ("method", .text r.method),
    ("headers", .ofMembers (r.headers.map fun (k, v) => (k, .text v))), ("body", r.body),
    ("stream", .bool r.stream)]

def toJson (r : WireRequest) : Json :=
  .ofMembers r.members

end WireRequest

end ChatRelay
