import ChatRelay.Config.Document
import ChatRelay.Message.Format

/-!
# Settings of a call

## Main definitions

* `Settings` — the model and its sampling, as every vendor has them
* `CallOptions` — what one call sets anew
* `CallOptions.resolve` — the settings in effect
-/

namespace ChatRelay

/-- The model, and how its reply is drawn. -/
structure Settings where
  model : String := ""
  temperature : Option Single := none
  maxTokens : Option UInt32 := none
  topP : Option Single := none
  /-- Texts that end the reply. -/
  stop : List String := []
deriving DecidableEq, Repr, Inhabited

namespace Settings

/-- A natural number of 32 bits as a value. -/
def wordJson (n : UInt32) : Json := .ofNat n.toNat

def toJson (s : Settings) : Json :=
  .ofMembers [("model", .text s.model), ("temperature", Json.ofOption Single.toJson s.temperature),
    ("max_tokens", Json.ofOption wordJson s.maxTokens),
    ("top_p", Json.ofOption Single.toJson s.topP), ("stop", .array (s.stop.map .text))]

def ofJson? (v : Json) : Option Settings := do
  let field ← v.fields? ["model", "temperature", "max_tokens", "top_p", "stop"]
  let model ← Json.orElse "" Json.asText? (field "model")
  let temperature ← Json.optional Json.single? (field "temperature")
  let maxTokens ← Json.optional Json.word32? (field "max_tokens")
  let topP ← Json.optional Json.single? (field "top_p")
  let stop ← Json.orElse [] (Json.itemsOf Json.asText?) (field "stop")
  return { model, temperature, maxTokens, topP, stop }

end Settings

/-- What one call sets anew. -/
structure CallOptions where
  model : Option String := none
  temperature : Option Single := none
  maxTokens : Option UInt32 := none
  topP : Option Single := none
  stop : Option (List String) := none
  /-- The tools of this call in place of those that are bound. -/
  tools : Option (List ToolInfo) := none
  toolChoice : Option ToolChoice := none
deriving DecidableEq, Repr, Inhabited

namespace CallOptions

/-- The settings in effect: what a call does not set is as it was. A model that is set to the empty
text stays empty, so that validation refuses it. -/
def resolve (o : CallOptions) (defaults : Settings) : Settings where
  model := o.model.getD defaults.model
  temperature := o.temperature.or defaults.temperature
  maxTokens := o.maxTokens.or defaults.maxTokens
  topP := o.topP.or defaults.topP
  stop := o.stop.getD defaults.stop

def ofJson? (v : Json) : Option CallOptions := do
  let field ← v.fields? ["model", "temperature", "max_tokens", "top_p", "stop", "tools",
    "tool_choice"]
  let model ← Json.optional Json.asText? (field "model")
  let temperature ← Json.optional Json.single? (field "temperature")
  let maxTokens ← Json.optional Json.word32? (field "max_tokens")
  let topP ← Json.optional Json.single? (field "top_p")
  let stop ← Json.optional (Json.itemsOf Json.asText?) (field "stop")
  let tools ← Json.optional (Json.itemsOf ToolInfo.ofJson?) (field "tools")
  let toolChoice ← Json.optional ToolChoice.ofJson? (field "tool_choice")
  return { model, temperature, maxTokens, topP, stop, tools,
           toolChoice }

end CallOptions

end ChatRelay
