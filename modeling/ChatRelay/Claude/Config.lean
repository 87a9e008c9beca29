import ChatRelay.Config.Http
import ChatRelay.Config.Setting
import ChatRelay.Config.Streaming
import ChatRelay.Request.Settings

/-!
# Settings of Claude
-/

namespace ChatRelay.Claude

def typeName : String := "Claude"

/-- The token limit where none is set; a request must state one. -/
def defaultMaxTokens : UInt32 := 4096

/-- The settings of Claude. -/
structure Config where
  apiKey : String := ""
  baseUrl : String := "https://api.anthropic.com"
  apiVersion : String := "2023-06-01"
  model : String := ""
  maxTokens : Option UInt32 := none
  temperature : Option Single := none
  topP : Option Single := none
  topK : Option UInt32 := none
  stop : List String := []
  /-- The tokens for thinking, which is off where none are set. -/
  thinkingBudget : Option UInt32 := none
  http : HttpConfig
  stream : StreamConfig := {}
deriving DecidableEq, Repr

namespace Config

/-- Settings with a key and a model, all else being as it is where nothing is said. -/
def ofKey (e : Environment) (apiKey model : String) : Config :=
  { apiKey, model, http := .default e }

/-- Settings whose key comes from the environment. -/
def ofEnvironment (e : Environment) (model : String) : Result Config :=
  (e.requireApiKey typeName "anthropic" "ANTHROPIC_API_KEY").map fun key => ofKey e key model

/-- Settings from a document. -/
def read? {ν : Type} [Document ν] (e : Environment) (v : ν) : Option Config := do
  let d := ofKey e "" ""
  let f ← Document.fields? ["api_key", "base_url", "api_version", "model", "max_tokens",
    "temperature", "top_p", "top_k", "stop", "thinking_budget_tokens", "http", "stream"] v
  let apiKey ← Document.field d.apiKey Document.text? (f "api_key")
  let baseUrl ← Document.field d.baseUrl Document.text? (f "base_url")
  let apiVersion ← Document.field d.apiVersion Document.text? (f "api_version")
  let model ← Document.field d.model Document.text? (f "model")
  let maxTokens ← Document.option Document.word32? (f "max_tokens")
  let temperature ← Document.option Document.single? (f "temperature")
  let topP ← Document.option Document.single? (f "top_p")
  let topK ← Document.option Document.word32? (f "top_k")
  let stop ← Document.field d.stop Document.texts? (f "stop")
  let thinkingBudget ← Document.option Document.word32? (f "thinking_budget_tokens")
  let http ← Document.field d.http (HttpConfig.read? e) (f "http")
  let stream ← Document.field d.stream StreamConfig.read? (f "stream")
  return { apiKey, baseUrl, apiVersion, model, maxTokens, temperature, topP, topK, stop,
           thinkingBudget, http, stream }

/-- The document of the settings. It leaves the API key out. -/
def toJson (c : Config) : Json :=
  .ofMembers [("base_url", .text c.baseUrl), ("api_version", .text c.apiVersion),
    ("model", .text c.model), ("max_tokens", Json.ofOption Settings.wordJson c.maxTokens),
    ("temperature", Json.ofOption Single.toJson c.temperature),
    ("top_p", Json.ofOption Single.toJson c.topP),
    ("top_k", Json.ofOption Settings.wordJson c.topK), ("stop", .array (c.stop.map .text)),
    ("thinking_budget_tokens", Json.ofOption Settings.wordJson c.thinkingBudget),
    ("http", c.http.toJson), ("stream", c.stream.toJson)]

/-- The checks before a model is built: key, model and address, in this order. -/
def validate (c : Config) : Result Unit := do
  Setting.requireText c.apiKey "api_key" typeName
  Setting.requireText c.model "model" typeName
  Setting.requireBaseUrl c.baseUrl typeName

/-- The settings that every vendor has. The token limit is never absent. -/
def settings (c : Config) : Settings :=
  { model := c.model, temperature := c.temperature
    maxTokens := some (c.maxTokens.getD defaultMaxTokens), topP := c.topP, stop := c.stop }

/-- How the settings are shown to people. -/
def summary (c : Config) : String :=
  Setting.summary "ClaudeConfig" [("base_url", Setting.quoted c.baseUrl),
    ("model", Setting.quoted c.model)]

end Config

end ChatRelay.Claude
