import ChatRelay.Config.Http
import ChatRelay.Config.Setting
import ChatRelay.Config.Streaming
import ChatRelay.Request.Settings

/-!
# Settings of Gemini
-/

namespace ChatRelay.Gemini

def typeName : String := "Gemini"

/-- The settings of Gemini. -/
structure Config where
  apiKey : String := ""
  baseUrl : String := "https://generativelanguage.googleapis.com/v1beta"
  model : String := ""
  temperature : Option Single := none
  maxTokens : Option UInt32 := none
  topP : Option Single := none
  topK : Option UInt32 := none
  stop : List String := []
  /-- Whether the model reports its thoughts. -/
  includeThoughts : Bool := false
  http : HttpConfig
  stream : StreamConfig := {}
deriving DecidableEq, Repr

namespace Config

/-- Settings with a key and a model, all else being as it is where nothing is said. -/
def ofKey (e : Environment) (apiKey model : String) : Config :=
  { apiKey, model, http := .default e }

/-- Settings whose key comes from the environment. -/
def ofEnvironment (e : Environment) (model : String) : Result Config :=
  (e.requireApiKey typeName "gemini" "GEMINI_API_KEY").map fun key => ofKey e key model

/-- Settings from a document. -/
def read? {ν : Type} [Document ν] (e : Environment) (v : ν) : Option Config := do
  let d := ofKey e "" ""
  let f ← Document.fields? ["api_key", "base_url", "model", "temperature", "max_tokens", "top_p",
    "top_k", "stop", "include_thoughts", "http", "stream"] v
  let apiKey ← Document.field d.apiKey Document.text? (f "api_key")
  let baseUrl ← Document.field d.baseUrl Document.text? (f "base_url")
  let model ← Document.field d.model Document.text? (f "model")
  let temperature ← Document.option Document.single? (f "temperature")
  let maxTokens ← Document.option Document.word32? (f "max_tokens")
  let topP ← Document.option Document.single? (f "top_p")
  let topK ← Document.option Document.word32? (f "top_k")
  let stop ← Document.field d.stop Document.texts? (f "stop")
  let includeThoughts ← Document.field d.includeThoughts Document.flag? (f "include_thoughts")
  let http ← Document.field d.http (HttpConfig.read? e) (f "http")
  let stream ← Document.field d.stream StreamConfig.read? (f "stream")
  return { apiKey, baseUrl, model, temperature, maxTokens, topP, topK, stop, includeThoughts, http,
           stream }

/-- The document of the settings. It leaves the API key out. -/
def toJson (c : Config) : Json :=
  .ofMembers [("base_url", .text c.baseUrl), ("model", .text c.model),
    ("temperature", Json.ofOption Single.toJson c.temperature),
    ("max_tokens", Json.ofOption Settings.wordJson c.maxTokens),
    ("top_p", Json.ofOption Single.toJson c.topP),
    ("top_k", Json.ofOption Settings.wordJson c.topK), ("stop", .array (c.stop.map .text)),
    ("include_thoughts", .bool c.includeThoughts), ("http", c.http.toJson),
    ("stream", c.stream.toJson)]

/-- The checks before a model is built: key, model and address, in this order. -/
def validate (c : Config) : Result Unit := do
  Setting.requireText c.apiKey "api_key" typeName
  Setting.requireText c.model "model" typeName
  Setting.requireBaseUrl c.baseUrl typeName

/-- The settings that every vendor has. -/
def settings (c : Config) : Settings :=
  { model := c.model, temperature := c.temperature, maxTokens := c.maxTokens, topP := c.topP,
    stop := c.stop }

/-- How the settings are shown to people. -/
def summary (c : Config) : String :=
  Setting.summary "GeminiConfig" [("base_url", Setting.quoted c.baseUrl),
    ("model", Setting.quoted c.model)]

end Config

end ChatRelay.Gemini
