import ChatRelay.Message.Concat

/-!
# Fragments of a stream

What a vendor streams is repaired before a consumer sees it:

* a call without an index in the fragment that finishes the reply continues the call whose index was
  seen last;
* a call that starts without an id gets the id of its position in the whole reply;
* a call that never got arguments is closed with the arguments that the vendor leaves out;
* a fragment without content waits for the next one with content.

## Main definitions

* `Accumulator` — what is remembered between fragments
* `Accumulator.push` — one fragment of the vendor, and the fragment to pass on
* `Accumulator.finish` — the end of the stream, and the last fragment to pass on
-/

namespace ChatRelay

/-- What is remembered of one stream. -/
structure Accumulator where
  /-- The index seen last. -/
  lastIndex : Option UInt32 := none
  /-- The number of calls that have started. -/
  started : Nat := 0
  /-- The indexed calls in ascending order, and whether any arguments came for them. -/
  arguments : List (UInt32 × Bool) := []
  /-- The arguments that close a call without any. -/
  emptyArguments : Option String := none
  /-- The fragments without content that wait, oldest first. -/
  pending : List Message := []
deriving DecidableEq, Repr, Inhabited

namespace Accumulator

/-- Whether a fragment finishes the reply. -/
def isFinishing (f : Message) : Bool :=
  !(f.finishReason?.getD "").isEmpty

/-- Gives an index to the calls that lack one, in a finishing fragment; follows the indices seen. -/
def repairIndices (finishing : Bool) (last : Option UInt32) :
    List ToolCall → Option UInt32 × List ToolCall
  | [] => (last, [])
  | c :: cs =>
    match c.index with
    | some i =>
      let (last, cs) := repairIndices finishing (some i) cs
      (last, c :: cs)
    | none =>
      let c := if finishing then { c with index := last } else c
      let (last, cs) := repairIndices finishing last cs
      (last, c :: cs)

/-- Notes for an index whether arguments came, keeping indices ascending. -/
def noteArguments (index : UInt32) (given : Bool) : List (UInt32 × Bool) → List (UInt32 × Bool)
  | [] => [(index, given)]
  | (i, g) :: rest =>
    if i = index then (i, g || given) :: rest
    else if index < i then (index, given) :: (i, g) :: rest
    else (i, g) :: noteArguments index given rest

/-- A call with a name starts; one that starts without an id gets the id of its position. -/
def trackCall (a : Accumulator) (c : ToolCall) : Accumulator × ToolCall :=
  let starts := !c.function.name.isEmpty
  let c := if starts && c.id.isEmpty then { c with id := ToolCall.positionalId a.started } else c
  ({ a with
      started := if starts then a.started + 1 else a.started
      arguments :=
        match c.index with
        | some i => noteArguments i (!c.function.arguments.isEmpty) a.arguments
        | none => a.arguments },
    c)

/-- All calls of a fragment in order. -/
def trackCalls (a : Accumulator) : List ToolCall → Accumulator × List ToolCall
  | [] => (a, [])
  | c :: cs =>
    let (a, c) := a.trackCall c
    let (a, cs) := a.trackCalls cs
    (a, c :: cs)

/-- The fragments that close the calls without arguments, each at most once. -/
def closeCalls (a : Accumulator) : Accumulator × List ToolCall :=
  match a.emptyArguments with
  | none => (a, [])
  | some text =>
    ({ a with arguments := a.arguments.map fun (i, _) => (i, true) },
      (a.arguments.filter fun (_, given) => !given).map fun (i, _) =>
        (ToolCall.ofFunction "" "" text).withIndex i)

/-- The fragment as it is passed on: indices repaired, ids given, calls closed. -/
def repair (a : Accumulator) (f : Message) : Accumulator × Message :=
  let finishing := isFinishing f
  let (last, calls) := repairIndices finishing a.lastIndex f.toolCalls
  let (a, calls) := { a with lastIndex := last }.trackCalls calls
  if finishing then
    let (a, closing) := a.closeCalls
    (a, { f with toolCalls := calls ++ closing })
  else (a, { f with toolCalls := calls })

/-- One fragment. It is passed on together with those that wait, or waits itself if it has no
content. -/
def push (a : Accumulator) (f : Message) : Result (Option Message) × Accumulator :=
  let (a, f) := a.repair f
  if f.isEmptyFragment then (.ok none, { a with pending := a.pending ++ [f] })
  else if a.pending.isEmpty then (.ok (some f), a)
  else ((Message.concat (a.pending ++ [f])).map some, { a with pending := [] })

/-- The end of the stream: calls are closed, and what waits is passed on. -/
def finish (a : Accumulator) : Result (Option Message) × Accumulator :=
  let (a, closing) := a.closeCalls
  let pending :=
    if closing.isEmpty then a.pending
    else a.pending ++ [{ Message.assistant "" with toolCalls := closing }]
  if pending.isEmpty then (.ok none, { a with pending := [] })
  else ((Message.concat pending).map some, { a with pending := [] })

end Accumulator

end ChatRelay
