import ChatRelay.Config.Http
import ChatRelay.Config.Setting
import ChatRelay.Config.Streaming
import ChatRelay.Request.Settings

/-!
# Settings of Ollama

Models on a machine of one's own, so there is no API key.
-/

namespace ChatRelay.Ollama

def typeName : String := "Ollama"

/-- The settings of Ollama. -/
structure Config where
  baseUrl : String := "http://localhost:11434"
  model : String := ""
  temperature : Option Single := none
  maxTokens : Option UInt32 := none
  topP : Option Single := none
  topK : Option UInt32 := none
  stop : List String := []
  /-- How long the model stays loaded after a call. -/
  keepAlive : Option String := none
  /-- Whether the model reports its thoughts. -/
  think : Option Bool := none
  http : HttpConfig
  stream : StreamConfig := {}
deriving DecidableEq, Repr

namespace Config

/-- Settings with a model, all else being as it is where nothing is said. -/
def ofModel (e : Environment) (model : String) : Config :=
  { model, http := .default e }

/-- Settings whose address comes from the environment, if it has one that is not blank. -/
def ofEnvironment (e : Environment) (model : String) : Config :=
  match (e.valueOf? "OLLAMA_HOST").filter (!Text.isBlankText ·) with
  | some host => { ofModel e model with baseUrl := host }
  | none => ofModel e model

/-- Settings from a document. -/
def read? {ν : Type} [Document ν] (e : Environment) (v : ν) : Option Config := do
  let d := ofModel e ""
  let f ← Document.fields? ["base_url", "model", "temperature", "max_tokens", "top_p", "top_k",
    "stop", "keep_alive", "think", "http", "stream"] v
  let baseUrl ← Document.field d.baseUrl Document.text? (f "base_url")
  let model ← Document.field d.model Document.text? (f "model")
  let temperature ← Document.option Document.single? (f "temperature")
  let maxTokens ← Document.option Document.word32? (f "max_tokens")
  let topP ← Document.option Document.single? (f "top_p")
  let topK ← Document.option Document.word32? (f "top_k")
  let stop ← Document.field d.stop Document.texts? (f "stop")
  let keepAlive ← Document.option Document.text? (f "keep_alive")
  let think ← Document.option Document.flag? (f "think")
  let http ← Document.field d.http (HttpConfig.read? e) (f "http")
  let stream ← Document.field d.stream StreamConfig.read? (f "stream")
  return { baseUrl, model, temperature, maxTokens, topP, topK, stop, keepAlive, think, http,
           stream }

/-- The document of the settings. -/
def toJson (c : Config) : Json :=
  .ofMembers [("base_url", .text c.baseUrl), ("model", .text c.model),
    ("temperature", Json.ofOption Single.toJson c.temperature),
    ("max_tokens", Json.ofOption Settings.wordJson c.maxTokens),
    ("top_p", Json.ofOption Single.toJson c.topP),
    ("top_k", Json.ofOption Settings.wordJson c.topK), ("stop", .array (c.stop.map .text)),
    ("keep_alive", Json.ofOption .text c.keepAlive), ("think", Json.ofOption .bool c.think),
    ("http", c.http.toJson), ("stream", c.stream.toJson)]

/-- The checks before a model is built: model and address, in this order. -/
def validate (c : Config) : Result Unit := do
  Setting.requireText c.model "model" typeName
  Setting.requireBaseUrl c.baseUrl typeName

/-- The settings that every vendor has. -/
def settings (c : Config) : Settings :=
  { model := c.model, temperature := c.temperature, maxTokens := c.maxTokens, topP := c.topP,
    stop := c.stop }

end Config

end ChatRelay.Ollama
