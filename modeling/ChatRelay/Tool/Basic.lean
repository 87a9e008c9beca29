import ChatRelay.Json.Reader
import ChatRelay.Text.Blank

/-!
# Tools and tool calls

## Main definitions

* `ToolInfo` — a tool that a model may call
* `ToolChoice` — whether the model must not, may or must call tools
* `ToolCall` — a call of a tool, or a fragment of one while a reply is streamed
-/

namespace ChatRelay

/-- A tool: its name, what it does, and the JSON Schema of its parameters. -/
structure ToolInfo where
  name : String
  description : Option String := none
  parameters : Option Json := none
deriving DecidableEq, Repr, Inhabited

/-- The schema of an object without properties. -/
def ToolInfo.emptySchema : Json :=
  .ofMembers [("type", .text "object"), ("properties", .empty)]

/-- The schema of the parameters, that of an empty object if none is given. -/
def ToolInfo.schema (t : ToolInfo) : Json :=
  t.parameters.getD emptySchema

/-- Whether the model must not, may or must call the tools it is given. -/
inductive ToolChoice where
  | forbidden
  | allowed
  | forced
deriving DecidableEq, Repr, Inhabited

namespace ToolChoice

/-- The name of a choice in documents. -/
def name : ToolChoice → String
  | forbidden => "forbidden"
  | allowed => "allowed"
  | forced => "forced"

/-- The name of a choice in messages. -/
def title : ToolChoice → String
  | forbidden => "Forbidden"
  | allowed => "Allowed"
  | forced => "Forced"

def all : List ToolChoice := [forbidden, allowed, forced]

/-- The choice of a name. -/
def ofName? (s : String) : Option ToolChoice :=
  all.find? (·.name == s)

end ToolChoice

/-- The function that is called and the JSON text of its arguments. -/
structure FunctionCall where
  name : String := ""
  arguments : String := ""
deriving DecidableEq, Repr, Inhabited

/-- A call of a tool. While a reply is streamed, fragments of one call carry the same index. -/
structure ToolCall where
  index : Option UInt32 := none
  id : String := ""
  kind : String := ""
  function : FunctionCall := {}
deriving DecidableEq, Repr, Inhabited

namespace ToolCall

/-- A call of a function. -/
def ofFunction (id name arguments : String) : ToolCall :=
  { id, kind := "function", function := { name, arguments } }

/-- The same call with an index. -/
def withIndex (c : ToolCall) (i : UInt32) : ToolCall :=
  { c with index := some i }

/-- The id of a call that the vendor sent without one: its position among the calls of the reply. -/
def positionalId (position : Nat) : String :=
  "call_" ++ toString position

/-- The arguments as a value, blank ones being the empty object, or the text that is not JSON. -/
def argumentsValue (c : ToolCall) : Except String Json :=
  let text := Text.trim c.function.arguments
  if text.isEmpty then .ok .empty
  else
    match Json.read? text with
    | some v => .ok v
    | none => .error c.function.arguments

end ToolCall

end ChatRelay
