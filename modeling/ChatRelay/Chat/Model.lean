import ChatRelay.Callback.Handler
import ChatRelay.Http.Proxy
import ChatRelay.Retry
import ChatRelay.Vendor

/-!
# Chat models

A chat model is a vendor with everything that its calls share. It never changes: binding tools makes
another one.

## Main definitions

* `ChatModel` — vendor, defaults, tools, handlers
* `ChatModel.Plan`, `ChatModel.build` — a model from its parts
* `ChatModel.ofVendor` — a model from the settings of its vendor
* `ChatModel.bindTools` — a model with tools
-/

namespace ChatRelay

/-- A vendor with everything that calls share. -/
structure ChatModel where
  /-- The name that handlers are told. -/
  name : String
  vendor : Vendor
  defaults : Settings
  tools : List ToolInfo := []
  toolChoice : Option ToolChoice := none
  handlers : List Handler := []
  retry : RetryPolicy
  streaming : StreamConfig

namespace ChatModel

/-- The parts of a model. -/
structure Plan where
  vendor : Vendor
  /-- The name, if it is not that of the vendor. -/
  name : Option String := none
  defaults : Settings
  http : HttpConfig
  streaming : StreamConfig
  handlers : List Handler := []
  /-- The policy, if it is not the one of the settings of HTTP requests. -/
  retry : Option RetryPolicy := none

/-- The parts that the settings of a vendor describe. -/
def Plan.ofVendor (v : Vendor) : Plan where
  vendor := v
  defaults := v.settings
  http := v.http
  streaming := v.stream

/-- The error of a stream without any room. -/
def noCapacity : Error :=
  .configuration "stream channel capacity must be at least 1"
    { field := some "config.stream.channel_capacity" }

/-- The checks of the parts: model and room, in this order. -/
def Plan.validate (p : Plan) : Result Unit := do
  Setting.requireText p.defaults.model "model" p.vendor.typeName
  if p.streaming.channelCapacity = 0 then .error noCapacity else .ok ()

/-- An error of the making of a model. -/
def inMaking {α : Type} (v : Vendor) (r : Result α) : Result α :=
  r.mapError (·.withComponent v.typeName "new")

/-- A model from its parts. -/
def build (p : Plan) : Result ChatModel := do
  inMaking p.vendor p.validate
  return {
    name := p.name.getD p.vendor.typeName
    vendor := p.vendor
    defaults := p.defaults
    handlers := p.handlers
    retry := p.retry.getD (.ofHttp p.http)
    streaming := p.streaming }

/-- A model from the settings of its vendor: they are checked, then the parts, then the proxy. -/
def ofVendor (v : Vendor) : Result ChatModel := do
  inMaking v v.validateConfig
  let model ← build (.ofVendor v)
  inMaking v (Http.requireProxy v.http.proxy)
  return model

/-- The error of a binding. -/
def bindingError (v : Vendor) (message : String) : Error :=
  (Error.validation message { field := some "tools", source := some "bind_tools" }).withComponent
    v.typeName "with_tools"

/-- What is wrong with a list of tools, given the names before it and its position. -/
def toolsFault? (seen : List String) (position : Nat) : List ToolInfo → Option String
  | [] => none
  | t :: ts =>
    if Text.isBlankText t.name then some ("tool #" ++ toString position ++ " has an empty name")
    else if seen.contains t.name then some ("duplicate tool name '" ++ t.name ++ "'")
    else toolsFault? (t.name :: seen) (position + 1) ts

/-- What is wrong with a binding. -/
def bindingFault? (v : Vendor) (tools : List ToolInfo) (choice : ToolChoice) : Option String :=
  if tools.isEmpty then some "no tools to bind"
  else
    match toolsFault? [] 0 tools with
    | some fault => some fault
    | none =>
      if v.supports choice then none
      else some (v.typeName ++ " does not support tool choice " ++ choice.title)

/-- The model with tools in place of those that it had. -/
def bindTools (m : ChatModel) (tools : List ToolInfo) (choice : ToolChoice) : Result ChatModel :=
  match bindingFault? m.vendor tools choice with
  | some fault => .error (bindingError m.vendor fault)
  | none => .ok { m with tools, toolChoice := some choice }

end ChatModel

end ChatRelay
