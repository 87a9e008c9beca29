import ChatRelay.Yaml.Token

/-!
# Nodes

A YAML document is a tree of texts, sequences and mappings. A node can carry an anchor, and a
reference stands for the node with its anchor.

## Main definitions

* `Yaml.Node` — a node of a document
* `Yaml.Node.anchored` — the nodes with an anchor, in the order in which they start
* `Yaml.Reading` — a step of reading nodes from tokens
* `Yaml.node` — one node, with all that is in it
* `Yaml.document?` — the only document of a text

## Design notes

Anchors are numbered by how many different names have been given before. A name that is given again
takes a new number, which the next new name may then share; a reference keeps the number that its
name had where it stands, and means the last node with that number.
-/

namespace ChatRelay.Yaml

/-- A node of a document. -/
inductive Node where
  | scalar (anchor : Option Nat) (tag : Option String) (style : ScalarStyle) (text : String)
  | sequence (anchor : Option Nat) (items : List Node)
  | mapping (anchor : Option Nat) (members : List (Node × Node))
  | reference (number : Nat)
  /-- A text without any document. -/
  | void
deriving Repr, Inhabited

/-- What stands where nothing is written. -/
def Node.empty : Node := .scalar none none .plain ""

/-! ### Anchors -/

/-- The node alone, if it carries an anchor. -/
def Node.self (number : Nat) (anchor : Option Nat) (n : Node) : List Node :=
  if anchor = some number then [n] else []

mutual

/-- The nodes with an anchor, in the order in which they start. -/
def Node.anchored (number : Nat) : Node → List Node
  | .scalar a tag style text => Node.self number a (.scalar a tag style text)
  | .sequence a items => Node.self number a (.sequence a items) ++ Node.anchoredItems number items
  | .mapping a members =>
    Node.self number a (.mapping a members) ++ Node.anchoredMembers number members
  | .reference _ => []
  | .void => []

def Node.anchoredItems (number : Nat) : List Node → List Node
  | [] => []
  | n :: rest => n.anchored number ++ Node.anchoredItems number rest

def Node.anchoredMembers (number : Nat) : List (Node × Node) → List Node
  | [] => []
  | (key, value) :: rest =>
    key.anchored number ++ value.anchored number ++ Node.anchoredMembers number rest

end

/-! ### Reading -/

/-- What is still to be read, and the names known so far. -/
structure Outlook where
  tokens : List Token
  /-- What tag handles stand for. -/
  handles : List (String × String)
  /-- The numbers of anchors. -/
  anchors : List (String × Nat) := []

/-- A step of reading nodes from tokens. -/
abbrev Reading := StateT Outlook Option

namespace Reading

def peek : Reading (Option Token) :=
  return (← get).tokens.head?

def skip : Reading Unit :=
  modify fun o => { o with tokens := o.tokens.tail }

/-- Whether the next token is one of some. -/
def sees (ts : List Token) : Reading Bool :=
  return (← peek).any (ts.contains ·)

/-- Past a token, if it comes next. -/
def skipIf (t : Token) : Reading Bool := do
  if ← sees [t] then
    skip
    return true
  return false

/-- Past a token that must come next. -/
def expect (t : Token) : Reading Unit := do
  if !(← skipIf t) then failure

/-- An empty node before some tokens, and what is read elsewhere. -/
def unlessAt (ts : List Token) (read : Reading Node) : Reading Node := do
  if ← sees ts then return .empty
  read

/-- The value of a member, which is empty if no colon comes next. -/
def valueBefore (ts : List Token) (read : Reading Node) : Reading Node := do
  if ← skipIf .value then unlessAt ts read else return .empty

/-- The number of an anchor that has been given. -/
def anchorNumber (name : String) : Reading Nat := do
  match (← get).anchors.lookup name with
  | some n => return n
  | none => failure

/-- A number for an anchor. -/
def giveAnchor (name : String) : Reading Nat := do
  let anchors := (← get).anchors
  let n := anchors.length
  modify fun o => { o with anchors := (name, n) :: anchors.filter (·.1 != name) }
  return n

/-- The full text of a tag. -/
def fullTag (t : TagText) : Reading String := do
  if t.handle.isEmpty then return t.suffix
  match (← get).handles.lookup t.handle with
  | some start => return start ++ t.suffix
  | none => failure

def anchorName : Reading (Option String) := do
  match ← peek with
  | some (.anchor name) => do skip; return some name
  | _ => return none

def tagText : Reading (Option TagText) := do
  match ← peek with
  | some (.tag t) => do skip; return some t
  | _ => return none

/-- The anchor and the tag of a node, in either order. -/
def properties : Reading (Option Nat × Option String) := do
  let first ← anchorName
  let tag ← tagText
  let name ← if first.isNone && tag.isSome then anchorName else pure first
  let tag ← tag.mapM fullTag
  return (← name.mapM giveAnchor, tag)

end Reading

open Reading

mutual

/-- A node. Blocks count as nodes only where `block` holds, and items without a block of their own
only where `loose` holds. -/
def node : Nat → Bool → Bool → Reading Node
  | 0, _, _ => failure
  | fuel + 1, block, loose => do
    match ← peek with
    | some (.reference name) => do
      skip
      return .reference (← anchorNumber name)
    | _ => do
      let (anchor, tag) ← properties
      match ← peek, block, loose with
      | some .item, _, true => return .sequence anchor (← looseItems fuel)
      | some (.scalar style text), _, _ => do
        skip
        return .scalar anchor (tag.filter (· != "!")) style text
      | some .flowSequence, _, _ => do
        skip
        return .sequence anchor (← flowItems fuel true)
      | some .flowMapping, _, _ => do
        skip
        return .mapping anchor (← flowMembers fuel true)
      | some .blockSequence, true, _ => do
        skip
        return .sequence anchor (← blockItems fuel)
      | some .blockMapping, true, _ => do
        skip
        return .mapping anchor (← blockMembers fuel)
      | _, _, _ =>
        if anchor.isSome || tag.isSome then return .scalar anchor tag .plain "" else failure

/-- The items of a block. -/
def blockItems : Nat → Reading (List Node)
  | 0 => failure
  | fuel + 1 => do
    if ← skipIf .blockEnd then return []
    expect .item
    let x ← unlessAt [.item, .blockEnd] (node fuel true false)
    return x :: (← blockItems fuel)

/-- Items that stand in the block of the key before them. -/
def looseItems : Nat → Reading (List Node)
  | 0 => failure
  | fuel + 1 => do
    if !(← skipIf .item) then return []
    let x ← unlessAt [.item, .key, .value, .blockEnd] (node fuel true false)
    return x :: (← looseItems fuel)

/-- The members of a block. -/
def blockMembers : Nat → Reading (List (Node × Node))
  | 0 => failure
  | fuel + 1 => do
    if ← skipIf .blockEnd then return []
    expect .key
    let ends := [.key, .value, .blockEnd]
    let key ← unlessAt ends (node fuel true true)
    let value ← valueBefore ends (node fuel true true)
    return (key, value) :: (← blockMembers fuel)

/-- The rest of the items between brackets. An item may be a single member. -/
def flowItems : Nat → Bool → Reading (List Node)
  | 0, _ => failure
  | fuel + 1, first => do
    if ← skipIf .flowSequenceEnd then return []
    if !first then expect .separator
    if ← skipIf .flowSequenceEnd then return []
    let x ← if ← skipIf .key then flowMember fuel else node fuel false false
    return x :: (← flowItems fuel false)

/-- A single member between the brackets of a sequence. Where its key is missing, so is the token
that follows. -/
def flowMember : Nat → Reading Node
  | 0 => failure
  | fuel + 1 => do
    let keyless ← sees [.value, .separator, .flowSequenceEnd]
    let key ← if keyless then do skip; pure .empty else node fuel false false
    let value ← valueBefore [.separator, .flowSequenceEnd] (node fuel false false)
    return .mapping none [(key, value)]

/-- The rest of the members between braces. A key without a mark has no value. -/
def flowMembers : Nat → Bool → Reading (List (Node × Node))
  | 0, _ => failure
  | fuel + 1, first => do
    if ← skipIf .flowMappingEnd then return []
    if !first then expect .separator
    if ← skipIf .flowMappingEnd then return []
    let marked ← skipIf .key
    let key ←
      if marked then unlessAt [.value, .separator, .flowMappingEnd] (node fuel false false)
      else node fuel false false
    let value ←
      if marked then valueBefore [.separator, .flowMappingEnd] (node fuel false false)
      else pure .empty
    return (key, value) :: (← flowMembers fuel false)

end

/-! ### Documents -/

/-- The handles that every document has. -/
def defaultHandles : List (String × String) :=
  [("!", "!"), ("!!", "tag:yaml.org,2002:")]

/-- What the directives of a document say, up to its start. They may state the version once, and
each handle once. -/
def directives? (versioned : Bool) (handles : List (String × String)) :
    List Token → Option (List (String × String) × List Token)
  | .documentStart :: rest => some (handles, rest)
  | .directive (.version major minor) :: rest =>
    if versioned || major != 1 || !(minor == 1 || minor == 2) then none
    else directives? true handles rest
  | .directive (.handle name start) :: rest =>
    if (handles.lookup name).isSome then none
    else directives? versioned (handles ++ [(name, start)]) rest
  | _ => none

/-- A text holds at most one document, which ends at the latest where another could start. -/
def document? (text : String) : Option Node := do
  let tokens ← tokens? text
  let fuel := 4 * (tokens.length + 2)
  let (n, o) ←
    match tokens with
    | [] => return .void
    | .documentStart :: _ | .directive _ :: _ => do
      let (handles, tokens) ← directives? false [] tokens
      let content :=
        if tokens.isEmpty then pure .empty
        else unlessAt [.documentStart, .documentEnd] (node fuel true false)
      content.run { tokens, handles := handles ++ defaultHandles }
    | _ => (node fuel true false).run { tokens, handles := defaultHandles }
  if o.tokens.all (· == .documentEnd) then return n else none

end ChatRelay.Yaml
