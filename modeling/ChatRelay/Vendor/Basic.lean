import ChatRelay.Error
import ChatRelay.Request.Basic
import ChatRelay.Text.Lowercase

/-!
# What all vendors share

## Main definitions

* `Vendor.argumentsOf` — the arguments of a call as a value
* `Vendor.unsupported` — the error for a part that a vendor does not take
* `Vendor.reportOf`, `Vendor.contentful?` — the report of a reply, and a fragment worth passing on
-/

namespace ChatRelay.Vendor

/-- The part of the library that writes requests for a vendor, as errors name it. -/
def requestWriter (vendor : String) : String :=
  Text.lowercase vendor ++ "_translator"

/-- The arguments of a call, for a vendor that takes them as a value. -/
def argumentsOf (vendor : String) (c : ToolCall) : Result Json :=
  match c.argumentsValue with
  | .ok v => .ok v
  | .error raw =>
    .error (.validation
      ("tool call '" ++ c.function.name ++ "' has non-JSON arguments: " ++ raw)
      { field := some "messages.tool_calls.function.arguments"
        source := some (requestWriter vendor) })

/-- The error for a part that a vendor does not take. -/
def unsupported (vendor what : String) : Error :=
  .validation (vendor ++ " does not accept " ++ what)
    { field := some "messages.multi_content", source := some (requestWriter vendor) }

/-- What a vendor reported, if it reported anything. -/
def reportOf (finishReason : Option String) (usage : Option TokenUsage) : Option ResponseInfo :=
  if finishReason.isNone && usage.isNone then none else some { finishReason, usage }

/-- A fragment, or none if it carries neither content nor a report. -/
def contentful? (f : Message) : Option Message :=
  if f.isEmptyFragment && f.info.isNone then none else some f

/-- A text that is not empty, as an optional field. -/
def nonEmpty? (s : String) : Option String :=
  if s.isEmpty then none else some s

/-- The text at the end of a path, empty where there is none. -/
def textAt (path : List String) (v : Json) : String :=
  (v.textAt? path).getD ""

/-- Texts as a value. -/
def textsJson (texts : List String) : Json :=
  .array (texts.map .text)

/-- Texts as an optional member that an empty list leaves out. -/
def textsJson? (texts : List String) : Option Json :=
  if texts.isEmpty then none else some (textsJson texts)

/-- Members as an optional object that is left out if it has none. -/
def object? (members : List (String × Option Json)) : Option Json :=
  if members.all (·.2.isNone) then none else some (.record members)

/-- The tools of a request as an optional member that an empty list leaves out. -/
def toolsJson? (write : ToolInfo → Json) (tools : List ToolInfo) : Option Json :=
  if tools.isEmpty then none else some (.array (tools.map write))

end ChatRelay.Vendor
