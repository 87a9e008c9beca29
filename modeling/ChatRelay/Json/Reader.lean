import ChatRelay.Json.Token

/-!
# Reading JSON

A value is built from its tokens with a stack of the containers that are still open.

## Main definitions

* `Builder.step` — one token
* `Json.read?` — the value of a text that is JSON as RFC 8259 has it, with at most `maxDepth`
  containers inside one another

## Design notes

Both passes are folds, one over characters and one over tokens: what is read after some prefix
depends on the prefix only through the state reached.
-/

namespace ChatRelay.Json

/-- A container that is not closed yet, its contents newest first. An object also holds the key
whose value comes next. -/
inductive Frame where
  | array (items : List Json)
  | object (members : List (String × Json)) (key : String)
deriving Repr

/-- What may come next. -/
inductive Expect where
  | value
  /-- A value or the end of the array just opened. -/
  | itemOrEnd
  | key
  /-- A key or the end of the object just opened. -/
  | keyOrEnd
  | colon
  /-- A value is complete; a comma or an end may follow. -/
  | separator (value : Json)
deriving Repr

namespace Builder

structure State where
  stack : List Frame
  expect : Expect
deriving Repr

def start : State := ⟨[], .value⟩

/-- The most containers inside one another. -/
def maxDepth : Nat := 127

/-- A token where a value is due. -/
def beginValue (s : State) : Token → Option State
  | .text t => some { s with expect := .separator (.text t) }
  | .scalar v => some { s with expect := .separator v }
  | .openArray =>
    if s.stack.length < maxDepth then some ⟨.array [] :: s.stack, .itemOrEnd⟩ else none
  | .openObject =>
    if s.stack.length < maxDepth then some ⟨.object [] "" :: s.stack, .keyOrEnd⟩ else none
  | _ => none

/-- One token. -/
def step (s : State) (t : Token) : Option State :=
  match s.expect, s.stack, t with
  | .value, _, t => beginValue s t
  | .itemOrEnd, .array items :: below, .closeArray =>
    some ⟨below, .separator (.array items.reverse)⟩
  | .itemOrEnd, _, t => beginValue s t
  | .keyOrEnd, .object members _ :: below, .closeObject =>
    some ⟨below, .separator (ofMembers members.reverse)⟩
  | .keyOrEnd, .object members _ :: below, .text key => some ⟨.object members key :: below, .colon⟩
  | .key, .object members _ :: below, .text key => some ⟨.object members key :: below, .colon⟩
  | .colon, stack, .colon => some ⟨stack, .value⟩
  | .separator v, .array items :: below, .comma => some ⟨.array (v :: items) :: below, .value⟩
  | .separator v, .array items :: below, .closeArray =>
    some ⟨below, .separator (.array (v :: items).reverse)⟩
  | .separator v, .object members key :: below, .comma =>
    some ⟨.object ((key, v) :: members) key :: below, .key⟩
  | .separator v, .object members key :: below, .closeObject =>
    some ⟨below, .separator (ofMembers ((key, v) :: members).reverse)⟩
  | _, _, _ => none

/-- The value, if it is complete and no container is open. -/
def finish (s : State) : Option Json :=
  match s.expect, s.stack with
  | .separator v, [] => some v
  | _, _ => none

end Builder

/-- The value of some tokens. -/
def ofTokens? (ts : List Token) : Option Json :=
  (ts.foldlM Builder.step Builder.start).bind Builder.finish

/-- The value of a text. -/
def read? (s : String) : Option Json :=
  (tokens? s.toList).bind ofTokens?

/-- What stands in a message for the wording of a syntax error. -/
def syntaxErrorText : String := "<json>"

end ChatRelay.Json
