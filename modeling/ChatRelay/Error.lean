/-!
# Errors

One type for everything that can go wrong in a call, by cause. The causes follow the life of a call:
settings are refused when a model is built, a request before anything is sent, the network and the
vendor while it is sent, and a chunk while a stream is read.

## Main definitions

* `Error` — the causes; `Error.component` puts the name of a component and its operation in front
  of another error
* `Error.root` — the error behind all such names
* `Error.message` — the wording
* `Error.isRetryable`, `Error.isMalformedChunk`, `Error.isCancelled` — decisions, which look at the
  root only
-/

namespace ChatRelay

/-- Where an error arose: a field or setting, further details, the part of the library. -/
structure ErrorContext where
  field : Option String := none
  details : Option String := none
  source : Option String := none
deriving DecidableEq, Repr, Inhabited

inductive Error where
  /-- A setting is missing or wrong. -/
  | configuration (message : String) (context : ErrorContext)
  /-- A request or a message is wrong. -/
  | validation (message : String) (context : ErrorContext)
  /-- A chunk of a stream is not in the stream's format. -/
  | decoding (message : String)
  /-- A chunk lacks a field that it must have. -/
  | missingField (name : String) (hint : Option String)
  /-- The connection failed; `transient` if it could not be opened or took too long. -/
  | connection (transient : Bool)
  /-- Any other failure to exchange bytes. -/
  | transport (message : String)
  /-- The vendor answered with a status other than success. -/
  | remote (status : Nat) (statusClass : String) (message : String) (retryable : Bool)
      (retryAfterMs : Option Nat)
  /-- A successful answer that carries an error of the vendor. -/
  | vendor (provider : String) (code : Option String) (message : String)
  /-- A file could not be read. -/
  | file (message : String)
  /-- A text is not JSON. -/
  | malformedJson
  /-- The library gave up for a reason of its own. -/
  | runtime (message : String) (context : ErrorContext)
  /-- The consumer of a stream cancelled it. -/
  | cancelled
  /-- An error of an operation of a component. -/
  | component (name operation : String) (source : Error)
deriving DecidableEq, Repr, Inhabited

/-- What stands in a message for the wording of the operating system. -/
def systemErrorText : String := "<os>"

/-- What stands in a message for the wording of a failed connection. -/
def connectionErrorText : String := "<http>"

namespace ErrorContext

/-- The parts of a context that are present, in parentheses, or nothing. -/
def render (c : ErrorContext) : String :=
  let parts := [c.field.map ("field: " ++ ·), c.details.map ("details: " ++ ·),
    c.source.map ("source: " ++ ·)].filterMap id
  if parts.isEmpty then "" else " (" ++ ", ".intercalate parts ++ ")"

end ErrorContext

namespace Error

/-- The wording of an error. -/
def message : Error → String
  | .configuration m c => "Configuration error: " ++ m ++ c.render
  | .validation m c => "Validation error: " ++ m ++ c.render
  | .decoding m => "Pipeline processing error: Decoder error: " ++ m
  | .missingField name hint =>
    "Pipeline processing error: Missing required field: " ++ name ++
      (hint.map fun h => " (hint: " ++ h ++ ")").getD ""
  | .connection _ => "Network transport error: HTTP error: " ++ connectionErrorText
  | .transport m => "Network transport error: Transport error: " ++ m
  | .remote status statusClass m _ _ =>
    "Remote error: HTTP " ++ toString status ++ " (" ++ statusClass ++ "): " ++ m
  | .vendor provider code m =>
    "Vendor error from " ++ provider ++ (code.map fun c => " [" ++ c ++ "]").getD "" ++ ": " ++ m
  | .file m => "I/O error: " ++ m
  | .malformedJson => "Serialization error: <json>"
  | .runtime m c => "Runtime error: " ++ m ++ c.render
  | .cancelled => "Stream cancelled by consumer"
  | .component name operation source =>
    "[" ++ name ++ "] " ++ operation ++ " failed: " ++ source.message

/-- Puts the name of a component and its operation in front, unless a name stands there already. -/
def withComponent (e : Error) (name operation : String) : Error :=
  match e with
  | .component n o s => .component n o s
  | e => .component name operation e

/-- The error behind all names of components. -/
def root : Error → Error
  | .component _ _ source => source.root
  | e => e

/-- The context of the root, if its cause carries one. -/
def context? (e : Error) : Option ErrorContext :=
  match e.root with
  | .configuration _ c | .validation _ c | .runtime _ c => some c
  | _ => none

/-- Whether the same request may succeed when it is sent again. -/
def isRetryable (e : Error) : Bool :=
  match e.root with
  | .connection transient => transient
  | .remote _ _ _ retryable _ => retryable
  | _ => false

/-- Whether the error is about one chunk that could not be decoded or understood. -/
def isMalformedChunk (e : Error) : Bool :=
  match e.root with
  | .malformedJson | .decoding _ | .missingField .. => true
  | _ => false

/-- Whether the consumer cancelled. -/
def isCancelled (e : Error) : Bool :=
  match e.root with
  | .cancelled => true
  | _ => false

@[simp] theorem root_component (name operation : String) (e : Error) :
    (component name operation e).root = e.root := rfl

@[simp] theorem withComponent_component (n o name operation : String) (e : Error) :
    (component n o e).withComponent name operation = component n o e := rfl

@[simp] theorem root_withComponent (e : Error) (name operation : String) :
    (e.withComponent name operation).root = e.root := by
  cases e <;> rfl

end Error

/-- The outcome of a step that may fail. -/
abbrev Result (α : Type) := Except Error α

end ChatRelay
