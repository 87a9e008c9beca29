import ChatRelay.Text.Digit
import ChatRelay.Yaml.Cursor

/-!
# Scalars

The texts of a YAML document: plain, in quotes, or in blocks of lines.

In plain and quoted texts a line end counts as a blank and further ones count as they are. In a
literal block all line ends count; in a folded one those between two lines of text count as blanks.

## Main definitions

* `Yaml.Gap` — blanks and line ends between two words
* `Yaml.plain?`, `Yaml.quoted?`, `Yaml.block?` — a text, and the place after it
-/

namespace ChatRelay.Yaml

/-- How a text is written. -/
inductive ScalarStyle where
  | plain
  | quoted
  | literal
  | folded
deriving DecidableEq, Repr, Inhabited

/-! ### Gaps -/

/-- What stands between two words. -/
structure Gap where
  blanks : List Char := []
  /-- Whether a line has ended. -/
  broken : Bool := false
  firstBreak : List Char := []
  laterBreaks : List Char := []
deriving Repr

namespace Gap

/-- What a gap counts as. -/
def text (g : Gap) : List Char :=
  if !g.broken then g.blanks
  else if g.firstBreak = ['\n'] then
    if g.laterBreaks.isEmpty then [' '] else g.laterBreaks
  else g.firstBreak ++ g.laterBreaks

/-- The gap from a place on. Up to a column, no line may start with a tab. -/
def scan? (column : Int) : Nat → Gap → Cursor → Option (Gap × Cursor)
  | 0, g, c => some (g, c)
  | fuel + 1, g, c =>
    match c.peek? with
    | none => some (g, c)
    | some x =>
      if isBlank x then
        if g.broken then
          if x = '\t' && c.column < column then none else scan? column fuel g c.next
        else scan? column fuel { g with blanks := g.blanks ++ [x] } c.next
      else if isBreak x then
        let (ending, c) := c.nextLine
        if g.broken then scan? column fuel { g with laterBreaks := g.laterBreaks ++ ending } c
        else scan? column fuel { g with blanks := [], broken := true, firstBreak := ending } c
      else some (g, c)

end Gap

/-! ### Plain texts -/

/-- The characters that have a meaning of their own between brackets. -/
def isFlowMark (c : Char) : Bool :=
  c = ',' || c = '[' || c = ']' || c = '\x7b' || c = '\x7d'

/-- The characters that must not follow a colon between brackets. -/
def isBadAfterColon (c : Char) : Bool :=
  c = '?' || isFlowMark c

/-- The word at the front of a text, up to a gap or a character with a meaning of its own. -/
def plainWord? (flow : Bool) : List Char → Option (List Char)
  | [] => some []
  | x :: rest =>
    if isBlank x || isBreak x then some []
    else if flow && x = ':' && rest.head?.any isBadAfterColon then none
    else if x = ':' && rest.head?.all (fun y => isBlank y || isBreak y) then some []
    else if flow && isFlowMark x then some []
    else (plainWord? flow rest).map (x :: ·)

/-- A plain text and the place after it. -/
structure PlainText where
  text : List Char
  /-- Whether a line ended after the last word. -/
  broken : Bool
  cursor : Cursor

/-- The rest of a plain text, given its words so far and the gap after them. Its lines start at or
after a column, unless it stands between brackets. -/
def plainFrom? (flow : Bool) (column : Int) : Nat → List Char → Gap → Cursor → Option PlainText
  | 0, _, _, _ => none
  | fuel + 1, text, gap, c =>
    if c.atDocumentMark || c.sees (· == '#') then some ⟨text, gap.broken, c⟩
    else do
      let word ← plainWord? flow c.rest
      let c := c.skip word.length
      let (text, gap) := if word.isEmpty then (text, gap) else (text ++ gap.text ++ word, {})
      if !c.sees (fun x => isBlank x || isBreak x) then return ⟨text, gap.broken, c⟩
      let (gap, c) ← Gap.scan? column c.rest.length {} c
      if !flow && c.column < column then return ⟨text, gap.broken, c⟩
      plainFrom? flow column fuel text gap c

/-- The plain text at a place. -/
def plain? (flow : Bool) (column : Int) (c : Cursor) : Option PlainText :=
  plainFrom? flow column (c.rest.length + 1) [] {} c

/-! ### Texts in quotes -/

/-- What a character after a backslash stands for. -/
def simpleEscape? (c : Char) : Option Char :=
  match c with
  | '0' => some '\x00'
  | 'a' => some '\x07'
  | 'b' => some '\x08'
  | 't' | '\t' => some '\t'
  | 'n' => some '\n'
  | 'v' => some '\x0b'
  | 'f' => some '\x0c'
  | 'r' => some '\r'
  | 'e' => some '\x1b'
  | ' ' | '"' | '/' | '\\' => some c
  | 'N' => some '\u0085'
  | '_' => some '\u00a0'
  | 'L' => some '\u2028'
  | 'P' => some '\u2029'
  | _ => none

/-- How many hexadecimal digits follow a character after a backslash. -/
def escapeDigits? (c : Char) : Option Nat :=
  match c with
  | 'x' => some 2
  | 'u' => some 4
  | 'U' => some 8
  | _ => none

/-- The character of a number; the halves of pairs are none. -/
def charOfNumber? (n : Nat) : Option Char :=
  if h : n.isValidChar then some (Char.ofNatAux n h) else none

/-- What follows a backslash: a character, and how many characters name it. -/
def escape? (rest : List Char) : Option (Char × Nat) := do
  let x ← rest.head?
  match simpleEscape? x, escapeDigits? x with
  | some y, _ => return (y, 1)
  | none, some n =>
    let digits := (rest.drop 1).take n
    if digits.length = n then
      let y ← (Text.digitsIn? 16 digits).bind charOfNumber?
      return (y, n + 1)
    else none
  | none, none => none

/-- A word in quotes. -/
structure QuotedWord where
  text : List Char
  cursor : Cursor
  /-- Whether it ends with a line end that does not count. -/
  joined : Bool

/-- The rest of a word in quotes, up to a gap or the closing quote. -/
def quotedWord? (quote : Char) : Nat → List Char → Cursor → Option QuotedWord
  | 0, _, _ => none
  | fuel + 1, text, c =>
    match c.rest with
    | [] => some ⟨text, c, false⟩
    | x :: rest =>
      if isBlank x || isBreak x then some ⟨text, c, false⟩
      else if quote = '\'' && x = '\'' && rest.head? = some '\'' then
        quotedWord? quote fuel (text ++ ['\'']) (c.skip 2)
      else if x = quote then some ⟨text, c, false⟩
      else if quote = '"' && x = '\\' then
        if rest.head?.any isBreak then some ⟨text, c.next.skipBreak, true⟩
        else do
          let (y, n) ← escape? rest
          quotedWord? quote fuel (text ++ [y]) (c.skip (n + 1))
      else quotedWord? quote fuel (text ++ [x]) c.next

/-- The rest of a text in quotes, and the place after the closing quote. -/
def quotedFrom? (quote : Char) : Nat → List Char → Cursor → Option (List Char × Cursor)
  | 0, _, _ => none
  | fuel + 1, text, c =>
    if c.atDocumentMark || c.atEnd then none
    else do
      let word ← quotedWord? quote (c.rest.length + 1) text c
      if word.cursor.peek? = some quote then return (word.text, word.cursor.next)
      let (gap, c) ← Gap.scan? 0 word.cursor.rest.length { broken := word.joined } word.cursor
      quotedFrom? quote fuel (word.text ++ gap.text) c

/-- The text in quotes that starts at a place with its quote. -/
def quoted? (quote : Char) (c : Cursor) : Option (List Char × Cursor) :=
  quotedFrom? quote (c.rest.length + 1) [] c.next

/-! ### Blocks of lines -/

/-- Which line ends at the end of a block count. -/
inductive Chomping where
  | strip
  | clip
  | keep
deriving DecidableEq, Repr

/-- The head of a block: the line ends that count, and the indentation of its lines if stated. -/
structure BlockHead where
  chomping : Chomping := .clip
  increment : Option Nat := none

def chomping? (c : Char) : Option Chomping :=
  if c = '+' then some .keep else if c = '-' then some .strip else none

/-- A digit other than zero; none if it is zero. -/
def increment? (c : Char) : Option Nat :=
  if c = '0' then none else some (c.toNat - 48)

/-- The head of a block, its two parts in either order. -/
def blockHead? (c : Cursor) : Option (BlockHead × Cursor) :=
  match c.peek?.bind chomping? with
  | some chomping =>
    let c := c.next
    match c.peek?.filter Char.isDigit with
    | some d => (increment? d).map fun n => (⟨chomping, some n⟩, c.next)
    | none => some (⟨chomping, none⟩, c)
  | none =>
    match c.peek?.filter Char.isDigit with
    | some d => (increment? d).map fun n =>
      let c := c.next
      match c.peek?.bind chomping? with
      | some chomping => (⟨chomping, some n⟩, c.next)
      | none => (⟨.clip, some n⟩, c)
    | none => some ({}, c)

/-- The empty lines from a place on, and the indentation before the next line that is not empty. An
indentation of zero is not known yet; `widest` is the widest one so far. -/
def emptyLines? (indent : Nat) : Nat → List Char → Nat → Cursor → Option (List Char × Nat × Cursor)
  | 0, breaks, widest, c => some (breaks, widest, c)
  | fuel + 1, breaks, widest, c =>
    let spaces := (c.rest.takeWhile (· == ' ')).length
    let c := c.skip (if indent = 0 then spaces else min spaces (indent - c.column))
    let widest := max widest c.column
    if (indent = 0 || c.column < indent) && c.sees (· == '\t') then none
    else if c.sees isBreak then
      let (ending, c) := c.nextLine
      emptyLines? indent fuel (breaks ++ ending) widest c
    else some (breaks, widest, c)

/-- The lines of a block so far. -/
structure BlockText where
  text : List Char := []
  /-- The end of the last line. -/
  lastBreak : List Char := []
  /-- The empty lines after it. -/
  emptyBreaks : List Char := []
  /-- Whether the last line starts with a blank. -/
  indented : Bool := false

/-- One more line. In a folded block the end of the line before it counts as a blank, or not at all
if empty lines follow it, unless one of the two lines starts with a blank. -/
def BlockText.add (folded : Bool) (b : BlockText) (line ending : List Char) : BlockText :=
  let indented := line.head?.any isBlank
  let glue :=
    if folded && b.lastBreak = ['\n'] && !b.indented && !indented then
      if b.emptyBreaks.isEmpty then [' '] else []
    else b.lastBreak
  { text := b.text ++ glue ++ b.emptyBreaks ++ line, lastBreak := ending, indented }

/-- The text of a block. -/
def BlockText.close (b : BlockText) : Chomping → List Char
  | .strip => b.text
  | .clip => b.text ++ b.lastBreak
  | .keep => b.text ++ b.lastBreak ++ b.emptyBreaks

/-- The rest of the lines of a block with a known indentation. -/
def blockLines? (folded : Bool) (indent : Nat) :
    Nat → BlockText → Cursor → Option (BlockText × Cursor)
  | 0, _, _ => none
  | fuel + 1, b, c =>
    if c.column = indent && !c.atEnd then do
      let line := c.rest.takeWhile (!isBreak ·)
      let (ending, c) := (c.skip line.length).nextLine
      let (breaks, _, c) ← emptyLines? indent (c.rest.length + 1) [] 0 c
      blockLines? folded indent fuel { b.add folded line ending with emptyBreaks := breaks } c
    else some (b, c)

/-- The block of lines that starts at a place with its mark, in a surrounding with an indentation,
which is negative at the outermost level. -/
def block? (folded : Bool) (outer : Int) (c : Cursor) : Option (List Char × Cursor) := do
  let (head, c) ← blockHead? c.next
  let c ← c.restOfLine?
  let stated := (head.increment.map fun n => (max outer 0).toNat + n).getD 0
  let (breaks, widest, c) ← emptyLines? stated (c.rest.length + 1) [] 0 c
  let indent := if stated = 0 then max (max widest (outer + 1).toNat) 1 else stated
  let (b, c) ← blockLines? folded indent (c.rest.length + 1) { emptyBreaks := breaks } c
  return (b.close head.chomping, c)

end ChatRelay.Yaml
