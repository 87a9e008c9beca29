import ChatRelay.Error
import ChatRelay.Tool.Basic

/-!
# Assembly of tool calls

Fragments with an index are merged per index; a fragment without one is a whole call.

## Main definitions

* `Assembler` — the calls so far, indexed ones ascending
* `Assembler.push` — one more fragment, and the conflict that it causes, if any
* `Assembler.calls` — the indexed calls, then the others in order of arrival

## Design notes

A fragment is merged field by field: id, name, kind, arguments. A conflict ends the merge, and what
was merged before it stays, so `push` returns a state also when it fails.
-/

namespace ChatRelay

/-- The calls put together so far. -/
structure Assembler where
  /-- The calls with an index, in ascending order of it. -/
  indexed : List (UInt32 × ToolCall) := []
  /-- The calls without an index, in order of arrival. -/
  whole : List ToolCall := []
deriving DecidableEq, Repr, Inhabited

namespace Assembler

/-- The conflict between two texts given for one field of a call. -/
def conflict (field : String) (index : UInt32) (current incoming : String) : Error :=
  .validation
    ("conflicting tool call " ++ field ++ " at index " ++ toString index.toNat ++ ": '" ++
      current ++ "' vs '" ++ incoming ++ "'")
    { field := some ("tool_calls[" ++ toString index.toNat ++ "]." ++ field)
      source := some "tool_call_assembler" }

/-- The first non-empty one of two texts that must not differ. -/
def mergeText (field : String) (index : UInt32) (current incoming : String) : Result String :=
  if incoming.isEmpty then .ok current
  else if current.isEmpty then .ok incoming
  else if current = incoming then .ok current
  else .error (conflict field index current incoming)

/-- A call and a further fragment of it. -/
def mergeCall (index : UInt32) (call fragment : ToolCall) : ToolCall × Option Error :=
  match mergeText "id" index call.id fragment.id with
  | .error e => (call, some e)
  | .ok id =>
    let call := { call with id }
    match mergeText "name" index call.function.name fragment.function.name with
    | .error e => (call, some e)
    | .ok name =>
      ({ call with
          kind := if call.kind.isEmpty then fragment.kind else call.kind
          function :=
            { name, arguments := call.function.arguments ++ fragment.function.arguments } },
        none)

/-- Merges a fragment into the call of its index, or puts it where its index belongs. -/
def insert (index : UInt32) (fragment : ToolCall) :
    List (UInt32 × ToolCall) → List (UInt32 × ToolCall) × Option Error
  | [] => ([(index, fragment)], none)
  | (i, call) :: rest =>
    if i = index then
      let (call, e) := mergeCall index call fragment
      ((i, call) :: rest, e)
    else if index < i then ((index, fragment) :: (i, call) :: rest, none)
    else
      let (rest, e) := insert index fragment rest
      ((i, call) :: rest, e)

/-- One more fragment. -/
def push (a : Assembler) (fragment : ToolCall) : Assembler × Option Error :=
  match fragment.index with
  | none => ({ a with whole := a.whole ++ [fragment] }, none)
  | some i =>
    let (indexed, e) := insert i fragment a.indexed
    ({ a with indexed }, e)

/-- All fragments of a list, up to the first conflict. -/
def pushAll (a : Assembler) : List ToolCall → Result Assembler
  | [] => .ok a
  | c :: cs =>
    match a.push c with
    | (a, none) => a.pushAll cs
    | (_, some e) => .error e

/-- The assembled calls. -/
def calls (a : Assembler) : List ToolCall :=
  a.indexed.map Prod.snd ++ a.whole

@[simp] theorem pushAll_nil (a : Assembler) : a.pushAll [] = .ok a := rfl

@[simp] theorem calls_empty : ({} : Assembler).calls = [] := rfl

end Assembler

end ChatRelay
