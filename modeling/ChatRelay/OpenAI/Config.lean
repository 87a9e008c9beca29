import ChatRelay.Config.Http
import ChatRelay.Config.Setting
import ChatRelay.Config.Streaming
import ChatRelay.Request.Settings

/-!
# Settings of the OpenAI family

Several vendors take chat completions in the form that OpenAI defined. A preset holds what sets them
apart: name, address, and where the API key is found.

## Main definitions

* `OpenAI.Preset` — the vendors of the family
* `OpenAI.Config` — the settings, with `read?`, `toJson`, `validate` and `ofEnvironment`
-/

namespace ChatRelay.OpenAI

/-- The vendors of the family. -/
inductive Preset where
  | openAI
  | deepSeek
  | qwen
  | grok
deriving DecidableEq, Repr, Inhabited

namespace Preset

def all : List Preset := [openAI, deepSeek, qwen, grok]

def typeName : Preset → String
  | openAI => "OpenAI"
  | deepSeek => "DeepSeek"
  | qwen => "Qwen"
  | grok => "Grok"

def baseUrl : Preset → String
  | openAI => "https://api.openai.com/v1"
  | deepSeek => "https://api.deepseek.com/v1"
  | qwen => "https://dashscope.aliyuncs.com/compatible-mode/v1"
  | grok => "https://api.x.ai/v1"

/-- The environment variable of the API key. -/
def keyVariable : Preset → String
  | openAI => "OPENAI_API_KEY"
  | deepSeek => "DEEPSEEK_API_KEY"
  | qwen => "DASHSCOPE_API_KEY"
  | grok => "XAI_API_KEY"

/-- The user of the keyring entry of the API key. -/
def keyringUser : Preset → String
  | openAI => "openai"
  | deepSeek => "deepseek"
  | qwen => "qwen"
  | grok => "grok"

/-- The name in documents. -/
def name : Preset → String
  | openAI => "open_ai"
  | deepSeek => "deep_seek"
  | qwen => "qwen"
  | grok => "grok"

/-- The name in summaries. -/
def title : Preset → String
  | openAI => "OpenAi"
  | deepSeek => "DeepSeek"
  | qwen => "Qwen"
  | grok => "Grok"

def ofName? (s : String) : Option Preset :=
  all.find? (·.name == s)

end Preset

/-- The settings of a vendor of the family. -/
structure Config where
  preset : Preset
  apiKey : String := ""
  /-- The address, if it is not that of the preset. -/
  address : Option String := none
  model : String := ""
  temperature : Option Single := none
  maxTokens : Option UInt32 := none
  topP : Option Single := none
  stop : List String := []
  presencePenalty : Option Single := none
  frequencyPenalty : Option Single := none
  seed : Option Int := none
  user : Option String := none
  organization : Option String := none
  http : HttpConfig
  stream : StreamConfig := {}
deriving DecidableEq, Repr

namespace Config

/-- Settings with a key and a model, all else being as it is where nothing is said. -/
def ofKey (e : Environment) (preset : Preset) (apiKey model : String) : Config :=
  { preset, apiKey, model, http := .default e }

/-- Settings whose key comes from the environment. -/
def ofEnvironment (e : Environment) (preset : Preset) (model : String) : Result Config :=
  (e.requireApiKey preset.typeName preset.keyringUser preset.keyVariable).map fun key =>
    ofKey e preset key model

/-- Settings from a document, for a preset if the document names none. -/
def read? {ν : Type} [Document ν] (e : Environment) (preset : Preset) (v : ν) : Option Config := do
  let d := ofKey e preset "" ""
  let f ← Document.fields? ["provider", "api_key", "base_url", "model", "temperature", "max_tokens",
    "top_p", "stop", "presence_penalty", "frequency_penalty", "seed", "user", "organization",
    "http", "stream"] v
  let preset ← Document.field d.preset (fun v => (Document.name? v).bind Preset.ofName?)
    (f "provider")
  let apiKey ← Document.field d.apiKey Document.text? (f "api_key")
  let address ← Document.option Document.text? (f "base_url")
  let model ← Document.field d.model Document.text? (f "model")
  let temperature ← Document.option Document.single? (f "temperature")
  let maxTokens ← Document.option Document.word32? (f "max_tokens")
  let topP ← Document.option Document.single? (f "top_p")
  let stop ← Document.field d.stop Document.texts? (f "stop")
  let presencePenalty ← Document.option Document.single? (f "presence_penalty")
  let frequencyPenalty ← Document.option Document.single? (f "frequency_penalty")
  let seed ← Document.option Document.integer? (f "seed")
  let user ← Document.option Document.text? (f "user")
  let organization ← Document.option Document.text? (f "organization")
  let http ← Document.field d.http (HttpConfig.read? e) (f "http")
  let stream ← Document.field d.stream StreamConfig.read? (f "stream")
  return { preset, apiKey, address, model, temperature, maxTokens, topP, stop, presencePenalty,
           frequencyPenalty, seed, user, organization, http, stream }

/-- The address in effect. -/
def baseUrl (c : Config) : String :=
  c.address.getD c.preset.baseUrl

/-- The document of the settings. It leaves the API key out. -/
def toJson (c : Config) : Json :=
  .ofMembers [("provider", .text c.preset.name), ("base_url", Json.ofOption .text c.address),
    ("model", .text c.model), ("temperature", Json.ofOption Single.toJson c.temperature),
    ("max_tokens", Json.ofOption Settings.wordJson c.maxTokens),
    ("top_p", Json.ofOption Single.toJson c.topP), ("stop", .array (c.stop.map .text)),
    ("presence_penalty", Json.ofOption Single.toJson c.presencePenalty),
    ("frequency_penalty", Json.ofOption Single.toJson c.frequencyPenalty),
    ("seed", Json.ofOption (fun n => .number (.integer n)) c.seed),
    ("user", Json.ofOption .text c.user), ("organization", Json.ofOption .text c.organization),
    ("http", c.http.toJson), ("stream", c.stream.toJson)]

/-- The checks before a model is built: key, model and address, in this order. -/
def validate (c : Config) : Result Unit := do
  Setting.requireText c.apiKey "api_key" c.preset.typeName
  Setting.requireText c.model "model" c.preset.typeName
  Setting.requireBaseUrl c.baseUrl c.preset.typeName

/-- The settings that every vendor has. -/
def settings (c : Config) : Settings :=
  { model := c.model, temperature := c.temperature, maxTokens := c.maxTokens, topP := c.topP,
    stop := c.stop }

/-- How the settings are shown to people. -/
def summary (c : Config) : String :=
  Setting.summary "OpenAiConfig" [("provider", c.preset.title),
    ("base_url", Setting.quoted c.baseUrl), ("model", Setting.quoted c.model)]

end Config

end ChatRelay.OpenAI
