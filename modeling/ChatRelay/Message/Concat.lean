import ChatRelay.Error
import ChatRelay.Message.Basic
import ChatRelay.Tool.Assembler

/-!
# Concatenation of fragments

A reply that came in fragments is put together field by field: texts and parts are joined in order,
tool calls are assembled by index, the last finish reason wins, and token counts are merged by
maximum, as vendors report them cumulatively and some split them over several reports.

## Main definitions

* `Merge` — the message under construction
* `Merge.add` — one more fragment, or why it does not fit
* `Message.concat` — the message of a list of fragments
-/

namespace ChatRelay

/-- The counts of two reports about one reply. The total is at least the sum of the parts, unless
that sum wraps around. -/
def TokenUsage.merge (a b : TokenUsage) : TokenUsage :=
  let prompt := max a.promptTokens b.promptTokens
  let completion := max a.completionTokens b.completionTokens
  ⟨prompt, completion, max (max a.totalTokens b.totalTokens) (prompt + completion)⟩

/-- The later of two finish reasons, an empty one not counting. -/
def ResponseInfo.lastReason (current later : Option String) : Option String :=
  match later with
  | some r => if r.isEmpty then current else some r
  | none => current

/-- The reports of an earlier fragment and a later one. -/
def ResponseInfo.merge (a b : ResponseInfo) : ResponseInfo where
  finishReason := lastReason a.finishReason b.finishReason
  usage :=
    match a.usage, b.usage with
    | some u, some v => some (u.merge v)
    | none, some v => some v
    | u, none => u

/-- A message under construction. -/
structure Merge where
  role : Option Role := none
  content : String := ""
  reasoning : String := ""
  parts : List Part := []
  calls : Assembler := {}
  toolCallId : Option String := none
  toolName : Option String := none
  info : Option ResponseInfo := none
deriving DecidableEq, Repr

namespace Merge

/-- The context of every error of this module. -/
def context (field : Option String) : ErrorContext :=
  { field, source := some "concat_messages" }

/-- The common role of the fragments so far and one more. -/
def addRole (current : Option Role) (role : Role) : Result (Option Role) :=
  match current with
  | none => .ok (some role)
  | some r =>
    if r = role then .ok (some r)
    else .error (.validation
      ("cannot concatenate fragments with different roles: " ++ r.name ++ " vs " ++ role.name)
      (context (some "role")))

/-- A field that at most one value may be given for; an empty text gives none. -/
def addOnce (field : String) (current incoming : Option String) : Result (Option String) :=
  match incoming with
  | none => .ok current
  | some v =>
    if v.isEmpty then .ok current
    else
      match current with
      | none => .ok (some v)
      | some u =>
        if u = v then .ok (some u)
        else .error (.validation ("conflicting " ++ field ++ ": '" ++ u ++ "' vs '" ++ v ++ "'")
          (context (some field)))

/-- The reports so far and those of one more fragment. -/
def addInfo (current incoming : Option ResponseInfo) : Option ResponseInfo :=
  match incoming with
  | none => current
  | some i => some ((current.getD {}).merge i)

/-- One more fragment. -/
def add (m : Merge) (f : Message) : Result Merge := do
  let role ← addRole m.role f.role
  let calls ← m.calls.pushAll f.toolCalls
  let toolCallId ← addOnce "tool_call_id" m.toolCallId f.toolCallId
  let toolName ← addOnce "tool_name" m.toolName f.toolName
  return {
    role, calls, toolCallId, toolName
    content := m.content ++ f.content
    reasoning := m.reasoning ++ f.reasoning.getD ""
    parts := m.parts ++ f.parts
    info := addInfo m.info f.info }

/-- The message; reasoning that is empty is absent. -/
def finish (m : Merge) : Message where
  role := m.role.getD .user
  content := m.content
  parts := m.parts
  toolCalls := m.calls.calls
  toolCallId := m.toolCallId
  toolName := m.toolName
  reasoning := if m.reasoning.isEmpty then none else some m.reasoning
  info := m.info

end Merge

/-- The message of a list of fragments. A single fragment is taken as it is. -/
def Message.concat : List Message → Result Message
  | [] => .error (.validation "cannot concatenate an empty fragment list" (Merge.context none))
  | [f] => .ok f
  | fs => (fs.foldlM Merge.add {}).map Merge.finish

@[simp] theorem Message.concat_singleton (f : Message) : Message.concat [f] = .ok f := rfl

end ChatRelay
