import ChatRelay.Yaml.Tag

/-!
# Tokens

The marks and texts of a YAML document, with the blocks that its indentation opens and closes.

A mapping key is known as one only at the colon after it. Until then every node that may be a key
is remembered with the number of tokens before it, and at the colon the mark of the key is put in
there.

## Main definitions

* `Yaml.Token` — a mark, a text, or the start or end of a block
* `Yaml.Lexer` — the tokens so far and the place where the next one starts
* `Yaml.Lexer.tokenAt?` — one token more
* `Yaml.tokens?` — the tokens of a text
-/

namespace ChatRelay.Yaml

/-- A mark, a text, or the start or end of a block of lines. -/
inductive Token where
  | directive (directive : Directive)
  | documentStart
  | documentEnd
  | blockSequence
  | blockMapping
  | blockEnd
  | flowSequence
  | flowSequenceEnd
  | flowMapping
  | flowMappingEnd
  /-- The hyphen before an item. -/
  | item
  /-- The comma between brackets. -/
  | separator
  /-- A key follows. -/
  | key
  /-- A value follows. -/
  | value
  | reference (name : String)
  | anchor (name : String)
  | tag (tag : TagText)
  | scalar (style : ScalarStyle) (text : String)
deriving DecidableEq, Repr

/-- A place where a key may have started. -/
structure KeyStart where
  /-- How many tokens stand before it. -/
  before : Nat
  index : Nat
  line : Nat
  column : Nat
  /-- Whether nothing but a key can stand there. -/
  required : Bool
deriving Repr

/-- A key ends on the line where it starts and has at most 1024 characters. -/
def KeyStart.isPast (k : KeyStart) (c : Cursor) : Bool :=
  k.line < c.line || k.index + 1024 < c.index

/-- The tokens so far and the place where the next one starts. -/
structure Lexer where
  cursor : Cursor
  tokens : Array Token := #[]
  /-- The columns of the blocks that are open, innermost first. -/
  blocks : List Nat := []
  /-- Whether a key may start here. -/
  keyAllowed : Bool := true
  /-- Where a key may have started, between the innermost brackets. -/
  keyStart : Option KeyStart := none
  /-- The same for the brackets around them. -/
  outerKeyStarts : List (Option KeyStart) := []

namespace Lexer

/-- Whether brackets are open. -/
def inFlow (s : Lexer) : Bool :=
  !s.outerKeyStarts.isEmpty

/-- The column of the innermost block; negative if there is none. -/
def indent (s : Lexer) : Int :=
  match s.blocks with
  | [] => -1
  | column :: _ => column

def push (s : Lexer) (t : Token) : Lexer :=
  { s with tokens := s.tokens.push t }

/-- A token put in before all but the first `n`. -/
def insert (s : Lexer) (n : Nat) (t : Token) : Lexer :=
  { s with tokens := (s.tokens.extract 0 n).push t ++ s.tokens.extract n s.tokens.size }

/-- A token of `n` characters. -/
def mark (s : Lexer) (t : Token) (n : Nat) : Lexer :=
  { s.push t with cursor := s.cursor.skip n }

/-! ### Keys -/

/-- A key can no longer have started here. -/
def dropKeyStart? (s : Lexer) : Option Lexer :=
  if s.keyStart.any (·.required) then none else some { s with keyStart := none }

/-- A key may start here, if one is allowed. -/
def addKeyStart? (s : Lexer) : Option Lexer :=
  if !s.keyAllowed then some s
  else do
    let c := s.cursor
    let required := !s.inFlow && s.indent = c.column
    let s ← s.dropKeyStart?
    return { s with keyStart := some ⟨s.tokens.size, c.index, c.line, c.column, required⟩ }

/-- What remains of a place where a key may have started; none if nothing but a key could stand
there. -/
def freshKeyStart? (c : Cursor) (k : Option KeyStart) : Option (Option KeyStart) :=
  match k with
  | none => some none
  | some k => if !k.isPast c then some (some k) else if k.required then none else some none

def dropPastKeys? (s : Lexer) : Option Lexer := do
  let keyStart ← freshKeyStart? s.cursor s.keyStart
  let outerKeyStarts ← s.outerKeyStarts.mapM (freshKeyStart? s.cursor)
  return { s with keyStart, outerKeyStarts }

/-! ### Blocks -/

/-- The blocks end that are indented further than a column. -/
def closeBlocks (s : Lexer) (column : Int) : Lexer :=
  if s.inFlow then s
  else
    let closed := s.blocks.takeWhile fun (block : Nat) => column < (block : Int)
    { s with
      tokens := s.tokens ++ Array.replicate closed.length Token.blockEnd
      blocks := s.blocks.drop closed.length }

/-- A block starts before all but the first `n` tokens, if it is indented further than the one
around it. -/
def openBlock (s : Lexer) (column n : Nat) (t : Token) : Lexer :=
  if s.inFlow || column ≤ s.indent then s
  else { s.insert n t with blocks := column :: s.blocks }

/-- A block starts here unless brackets are open; none if no key may start. -/
def openBlockHere? (s : Lexer) (t : Token) : Option Lexer :=
  if s.inFlow then some s
  else if s.keyAllowed then some (s.openBlock s.cursor.column s.tokens.size t)
  else none

/-! ### Single tokens -/

/-- The start or the end of a document, or a directive. -/
def boundary? (s : Lexer) (t : Token) (after : Cursor) : Option Lexer := do
  let s ← (s.closeBlocks (-1)).dropKeyStart?
  return { s.push t with cursor := after, keyAllowed := false }

def openFlow? (s : Lexer) (t : Token) : Option Lexer := do
  let s ← s.addKeyStart?
  return { s.mark t 1 with
    keyStart := none, outerKeyStarts := s.keyStart :: s.outerKeyStarts, keyAllowed := true }

def closeFlow? (s : Lexer) (t : Token) : Option Lexer := do
  let s ← s.dropKeyStart?
  let s := { s.mark t 1 with keyAllowed := false }
  match s.outerKeyStarts with
  | [] => return s
  | keyStart :: outerKeyStarts => return { s with keyStart, outerKeyStarts }

def separator? (s : Lexer) : Option Lexer := do
  let s ← s.dropKeyStart?
  return { s.mark .separator 1 with keyAllowed := true }

def item? (s : Lexer) : Option Lexer := do
  let s ← s.openBlockHere? .blockSequence
  let s ← s.dropKeyStart?
  return { s.mark .item 1 with keyAllowed := true }

def key? (s : Lexer) : Option Lexer := do
  let s ← s.openBlockHere? .blockMapping
  let s ← s.dropKeyStart?
  return { s.mark .key 1 with keyAllowed := !s.inFlow }

def value? (s : Lexer) : Option Lexer :=
  match s.keyStart with
  | some k =>
    let s := (s.insert k.before .key).openBlock k.column k.before .blockMapping
    some { s.mark .value 1 with keyStart := none, keyAllowed := false }
  | none => do
    let s ← s.openBlockHere? .blockMapping
    return { s.mark .value 1 with keyAllowed := !s.inFlow }

/-- A token that may start a key, read from here. -/
def node? (s : Lexer) (read : Cursor → Option (Token × Cursor)) : Option Lexer := do
  let s ← s.addKeyStart?
  let (t, cursor) ← read s.cursor
  return { s.push t with cursor, keyAllowed := false }

def quoted? (s : Lexer) (quote : Char) : Option Lexer :=
  s.node? fun c => (Yaml.quoted? quote c).map fun (text, c) =>
    (.scalar .quoted (String.ofList text), c)

def block? (s : Lexer) (style : ScalarStyle) : Option Lexer := do
  let s ← s.dropKeyStart?
  let (text, cursor) ← Yaml.block? (style = .folded) s.indent s.cursor
  return { s.push (.scalar style (String.ofList text)) with cursor, keyAllowed := true }

def plain? (s : Lexer) : Option Lexer := do
  let s ← s.addKeyStart?
  let word ← Yaml.plain? s.inFlow (s.indent + 1) s.cursor
  return { s.push (.scalar .plain (String.ofList word.text)) with
    cursor := word.cursor, keyAllowed := word.broken }

/-- The characters with which no plain text starts. -/
def isMark (c : Char) : Bool :=
  c ∈ ['-', '?', ':', ',', '[', ']', '\x7b', '\x7d', '#', '&', '*', '!', '|', '>', '\'', '"', '%',
    '@', '\x60']

/-- Whether a plain text starts here. -/
def atPlain (s : Lexer) : Bool :=
  let c := s.cursor
  match c.peek? with
  | none => false
  | some x =>
    !(isBlank x || isBreak x || isMark x) || (x = '-' && !c.seesAt 1 isBlank) ||
      (!s.inFlow && (x = '?' || x = ':') && !c.gapAt 1)

/-! ### Steps -/

/-- Past blanks, comments and line ends. Tabs count as blanks only where no key may start. -/
def skipGaps : Nat → Lexer → Lexer
  | 0, s => s
  | fuel + 1, s =>
    let c := if s.cursor.index = 0 && s.cursor.sees (· == '\ufeff') then s.cursor.next else s.cursor
    let tabs := s.inFlow || !s.keyAllowed
    let c := c.skipWhile fun x => x = ' ' || (tabs && x = '\t')
    let c := if c.sees (· == '#') then c.skipWhile (!isBreak ·) else c
    if c.sees isBreak then
      skipGaps fuel { s with cursor := c.skipBreak, keyAllowed := s.keyAllowed || !s.inFlow }
    else { s with cursor := c }

/-- The token that starts with a character. -/
def tokenAt? (s : Lexer) (x : Char) : Option Lexer :=
  let c := s.cursor
  let gap := s.inFlow || c.gapAt 1
  if c.column = 0 && x = '%' then do
    let (d, after) ← directive? c
    s.boundary? (.directive d) after
  else if c.atMark '-' then s.boundary? .documentStart (c.skip 3)
  else if c.atMark '.' then s.boundary? .documentEnd (c.skip 3)
  else if x = '[' then s.openFlow? .flowSequence
  else if x = '\x7b' then s.openFlow? .flowMapping
  else if x = ']' then s.closeFlow? .flowSequenceEnd
  else if x = '\x7d' then s.closeFlow? .flowMappingEnd
  else if x = ',' then s.separator?
  else if x = '-' && c.gapAt 1 then s.item?
  else if x = '?' && gap then s.key?
  else if x = ':' && gap then s.value?
  else if x = '*' then s.node? fun c => (anchorName? c).map fun (name, c) => (.reference name, c)
  else if x = '&' then s.node? fun c => (anchorName? c).map fun (name, c) => (.anchor name, c)
  else if x = '!' then s.node? fun c => (tagText? s.inFlow c).map fun (tag, c) => (.tag tag, c)
  else if x = '|' && !s.inFlow then s.block? .literal
  else if x = '>' && !s.inFlow then s.block? .folded
  else if x = '\'' || x = '"' then s.quoted? x
  else if s.atPlain then s.plain?
  else none

/-- Up to the next token or the end of the text. -/
def advance? (s : Lexer) : Option Lexer :=
  (s.skipGaps (s.cursor.rest.length + 1)).dropPastKeys?

/-- The tokens up to the end of the text, with which all blocks end. -/
def run? : Nat → Lexer → Option (List Token)
  | 0, _ => none
  | fuel + 1, s => do
    let s ← s.advance?
    match s.cursor.peek? with
    | none => return (← (s.closeBlocks (-1)).dropKeyStart?).tokens.toList
    | some x => run? fuel (← (s.closeBlocks s.cursor.column).tokenAt? x)

end Lexer

/-- The tokens of a text. -/
def tokens? (text : String) : Option (List Token) :=
  let chars := text.toList
  if chars.all isAllowed then Lexer.run? (chars.length + 1) { cursor := { rest := chars } }
  else none

end ChatRelay.Yaml
