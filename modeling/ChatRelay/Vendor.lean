import ChatRelay.Claude.Reply
import ChatRelay.Claude.Request
import ChatRelay.Gemini.Reply
import ChatRelay.Gemini.Request
import ChatRelay.Ollama.Reply
import ChatRelay.Ollama.Request
import ChatRelay.OpenAI.Reply
import ChatRelay.OpenAI.Request
import ChatRelay.Stream.JsonLines

/-!
# Vendors

## Main definitions

* `Vendor` — a vendor with its settings
* `Vendor.request`, `Vendor.reply`, `Vendor.fragment` — requests and replies in the vendor's form
* `Vendor.validate` — the checks that every request must pass first

## Design notes

None of this touches a network. What a vendor cannot do is an error, and never dropped in silence.
-/

namespace ChatRelay

/-- A vendor with its settings. -/
inductive Vendor where
  | openAI (config : OpenAI.Config)
  | claude (config : Claude.Config)
  | gemini (config : Gemini.Config)
  | ollama (config : Ollama.Config)
deriving DecidableEq, Repr

namespace Vendor

/-- The name of a vendor in messages. -/
def typeName : Vendor → String
  | openAI c => c.preset.typeName
  | claude _ => Claude.typeName
  | gemini _ => Gemini.typeName
  | ollama _ => Ollama.typeName

/-- How streams are framed. -/
def format : Vendor → StreamFormat
  | ollama _ => .jsonLines
  | _ => .events

/-- Whether a tool choice can be expressed. -/
def supports : Vendor → ToolChoice → Bool
  | ollama _, .forced => false
  | _, _ => true

/-- The arguments of a streamed call that got none, for a vendor whose whole replies state them. -/
def emptyArguments : Vendor → Option String
  | claude _ => some Claude.emptyArguments
  | _ => none

/-- What is sent for a request. -/
def request : Vendor → ChatRequest → (stream : Bool) → Result WireRequest
  | openAI c, r, stream => OpenAI.request c r stream
  | claude c, r, stream => Claude.request c r stream
  | gemini c, r, stream => Gemini.request c r stream
  | ollama c, r, stream => Ollama.request c r stream

/-- The message of a whole body. -/
def reply : Vendor → Json → Result Message
  | openAI c, body => OpenAI.reply c.preset.typeName body
  | claude _, body => Claude.reply body
  | gemini _, body => Gemini.reply body
  | ollama _, body => Ollama.reply body

/-- The fragment of one value of a stream; many values carry none. -/
def fragment : Vendor → Json → Result (Option Message)
  | openAI c, chunk => OpenAI.fragment c.preset.typeName chunk
  | claude _, chunk => Claude.fragment chunk
  | gemini _, chunk => Gemini.fragment chunk
  | ollama _, chunk => Ollama.fragment chunk

/-! ### Settings -/

def settings : Vendor → Settings
  | openAI c => c.settings
  | claude c => c.settings
  | gemini c => c.settings
  | ollama c => c.settings

def http : Vendor → HttpConfig
  | openAI c => c.http
  | claude c => c.http
  | gemini c => c.http
  | ollama c => c.http

def stream : Vendor → StreamConfig
  | openAI c => c.stream
  | claude c => c.stream
  | gemini c => c.stream
  | ollama c => c.stream

def apiKey : Vendor → String
  | openAI c => c.apiKey
  | claude c => c.apiKey
  | gemini c => c.apiKey
  | ollama _ => ""

def baseUrl : Vendor → String
  | openAI c => c.baseUrl
  | claude c => c.baseUrl
  | gemini c => c.baseUrl
  | ollama c => c.baseUrl

/-- The document of the settings. -/
def configJson : Vendor → Json
  | openAI c => c.toJson
  | claude c => c.toJson
  | gemini c => c.toJson
  | ollama c => c.toJson

/-- The checks of the settings before a model is built. -/
def validateConfig : Vendor → Result Unit
  | openAI c => c.validate
  | claude c => c.validate
  | gemini c => c.validate
  | ollama c => c.validate

/-- Whether the summary of the settings holds the API key. A key may be a word of the summary. -/
def summaryHoldsKey (v : Vendor) : Bool :=
  let summary :=
    match v with
    | openAI c => c.summary
    | claude c => c.summary
    | gemini c => c.summary
    | ollama _ => ""
  !v.apiKey.isEmpty && Setting.occursIn v.apiKey.toList summary.toList

/-! ### Validation -/

/-- The context of an error about a request. -/
def requestContext (field : String) : ErrorContext :=
  { field := some field, source := some "request_translator" }

/-- The checks of a tool choice. -/
def validateChoice (v : Vendor) (r : ChatRequest) (choice : ToolChoice) : Result Unit :=
  if choice = .forced && r.tools.isEmpty then
    .error (.validation "tool choice is forced but no tools are bound"
      (requestContext "options.tool_choice"))
  else if !v.supports choice then
    .error (.validation (v.typeName ++ " does not support tool choice " ++ choice.title)
      (requestContext "options.tool_choice"))
  else .ok ()

/-- The checks that every request must pass: model, messages and tool choice, in this order. -/
def validate (v : Vendor) (r : ChatRequest) : Result Unit :=
  if Text.isBlankText r.settings.model then
    .error (.validation "model is required" (requestContext "options.model"))
  else if r.messages.isEmpty then
    .error (.validation "at least one message is required" (requestContext "messages"))
  else
    match r.toolChoice with
    | some choice => v.validateChoice r choice
    | none => .ok ()

end Vendor

end ChatRelay
