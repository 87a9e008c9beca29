import ChatRelay.Config.Document
import ChatRelay.Error
import ChatRelay.Yaml.Node
import ChatRelay.Yaml.Number

/-!
# Settings in YAML

## Main definitions

* `Yaml` — a node together with the document that its references point into
* `Yaml.load`, `Yaml.loadFile` — settings from a text and from a file

## Design notes

A flag or a number is a plain text, or a literal block whose tag says so; a text may be written in
any way. Nothing at all, as after a colon at the end of a line, is an empty list, a record without
fields, an empty text, or an absent setting.
-/

namespace ChatRelay

/-- A node together with the document that its references point into. -/
structure Yaml where
  root : Yaml.Node
  focus : Yaml.Node
deriving Repr, Inhabited

namespace Yaml

/-- Another node of the same document. -/
def sibling (v : Yaml) (n : Node) : Yaml :=
  { v with focus := n }

/-- The node that is meant: a reference means the last node with its anchor. -/
def target (v : Yaml) : Node :=
  match v.focus with
  | .reference number => (v.root.anchored number).getLast?.getD .void
  | n => n

/-- Whether nothing at all is written. -/
def isNothing (v : Yaml) : Bool :=
  match v.target with
  | .void => true
  | .scalar _ _ style text => style = .plain && text.isEmpty
  | _ => false

def text? (v : Yaml) : Option String :=
  match v.target with
  | .scalar _ _ _ text => some text
  | _ => none

/-- A text that may stand for a flag or a number of some kind. -/
def wordOf? (kind : String) (v : Yaml) : Option String :=
  match v.target with
  | .scalar _ tag style text =>
    if style = .plain || (style = .literal && tag = some ("tag:yaml.org,2002:" ++ kind)) then
      some text
    else none
  | _ => none

/-- Whether a value stands for an absent setting. A text that its tag calls null must be one of the
spellings of null. -/
def absent? (v : Yaml) : Option Bool :=
  match v.target with
  | .void => some true
  | .scalar _ tag style text =>
    if style ≠ .plain then some false
    else
      match tag with
      | none => some (text.isEmpty || isNullWord text)
      | some "tag:yaml.org,2002:null" => if isNullWord text then some true else none
      | some _ => some false
  | _ => some false

/-- A name: a text, or a tag of the document's own before nothing. -/
def name? (v : Yaml) : Option String :=
  match v.target with
  | .scalar _ (some tag) style text =>
    match tag.toList with
    | '!' :: name =>
      if style = .plain && (text.isEmpty || isNullWord text) then some (String.ofList name)
      else none
    | _ => some text
  | .scalar _ none _ text => some text
  | _ => none

def items? (v : Yaml) : Option (List Yaml) :=
  match v.target with
  | .sequence _ items => some (items.map v.sibling)
  | _ => if v.isNothing then some [] else none

/-- The members of a mapping by name. -/
def members? (v : Yaml) : Option (List (String × Yaml)) :=
  match v.target with
  | .mapping _ members =>
    members.mapM fun (key, value) => (v.sibling key).text?.map (·, v.sibling value)
  | _ => if v.isNothing then some [] else none

/-- The fields of a record. None of them may be given twice; others are passed over. -/
def fields? (names : List String) (v : Yaml) : Option (String → Option Yaml) := do
  let members ← v.members?
  let known := (members.map (·.1)).filter (names.contains ·)
  if known.length = known.eraseDups.length then return fun name => members.lookup name else none

instance : Document Yaml where
  fields? := fields?
  absent? := absent?
  text? := text?
  flag? v := (v.wordOf? "bool").bind flagOf?
  natural? v := (v.wordOf? "int").bind naturalOf?
  integer? v := (v.wordOf? "int").bind integerOf?
  single? v := (v.wordOf? "float").bind singleOf?
  name? := name?
  items? := items?

/-! ### Loading -/

variable {α : Type}

/-- Settings from a text. -/
def read? (read : Yaml → Option α) (text : String) : Option α :=
  (document? text).bind fun n => read ⟨n, n⟩

/-- What is wrong with a text is not told apart. -/
def invalid (path : Option String) : Error :=
  .configuration "invalid YAML config: <yaml>" { details := path, source := some "config_loader" }

def load (read : Yaml → Option α) (text : String) : Result α :=
  match read? read text with
  | some a => .ok a
  | none => .error (invalid none)

/-- Settings from a file, which may be missing. -/
def loadFile (read : Yaml → Option α) (path : String) : Option String → Result α
  | none => .error (.file systemErrorText)
  | some text =>
    match read? read text with
    | some a => .ok a
    | none => .error (invalid (some path))

end Yaml

end ChatRelay
