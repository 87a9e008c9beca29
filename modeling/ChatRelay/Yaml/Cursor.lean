/-!
# Places in a YAML text

The meaning of a YAML text hangs on lines and columns, so whoever reads it keeps track of them.

## Main definitions

* `Yaml.isBlank`, `Yaml.isBreak` — blanks, and characters that end a line
* `Yaml.Cursor` — a place in a text and what follows it
* `Yaml.Cursor.next`, `Yaml.Cursor.nextLine` — past one character, past the end of a line
-/

namespace ChatRelay.Yaml

def isBlank (c : Char) : Bool :=
  c = ' ' || c = '\t'

/-- Line feed, carriage return, next line, line and paragraph separator. -/
def isBreak (c : Char) : Bool :=
  c = '\n' || c = '\r' || c = '\u0085' || c = '\u2028' || c = '\u2029'

/-- Letters, digits, underscore and hyphen. -/
def isWordChar (c : Char) : Bool :=
  c.isAlphanum || c = '_' || c = '-'

/-- The characters that a text may hold at all. -/
def isAllowed (c : Char) : Bool :=
  let n := c.toNat
  c = '\t' || c = '\n' || c = '\r' || (0x20 ≤ n && n ≤ 0x7e) || n = 0x85 ||
    (0xa0 ≤ n && n != 0xfffe && n != 0xffff)

/-- A place in a text. Lines and columns are counted from zero. -/
structure Cursor where
  /-- What follows. -/
  rest : List Char
  index : Nat := 0
  line : Nat := 0
  column : Nat := 0
deriving Repr

namespace Cursor

def peek? (c : Cursor) : Option Char :=
  c.rest.head?

/-- Whether the next character satisfies a condition. -/
def sees (c : Cursor) (p : Char → Bool) : Bool :=
  c.rest.head?.any p

/-- Whether the character `n` places on satisfies a condition. -/
def seesAt (c : Cursor) (n : Nat) (p : Char → Bool) : Bool :=
  (c.rest[n]?).any p

def atEnd (c : Cursor) : Bool :=
  c.rest.isEmpty

/-- Whether the end of a line or of the text stands `n` places on. -/
def lineEndsAt (c : Cursor) (n : Nat) : Bool :=
  (c.rest[n]?).all isBreak

/-- Whether a blank, the end of a line or that of the text stands `n` places on. -/
def gapAt (c : Cursor) (n : Nat) : Bool :=
  (c.rest[n]?).all fun x => isBlank x || isBreak x

/-- Past one character. -/
def next (c : Cursor) : Cursor :=
  { c with rest := c.rest.tail, index := c.index + 1, column := c.column + 1 }

/-- Past some characters of one line. -/
def skip (c : Cursor) (n : Nat) : Cursor :=
  { c with rest := c.rest.drop n, index := c.index + n, column := c.column + n }

/-- Past all characters of a kind, none of which ends a line. -/
def skipWhile (c : Cursor) (p : Char → Bool) : Cursor :=
  c.skip (c.rest.takeWhile p).length

/-- Past `n` characters that end one line. -/
def breakAfter (c : Cursor) (n : Nat) : Cursor :=
  { rest := c.rest.drop n, index := c.index + n, line := c.line + 1, column := 0 }

/-- The end of a line as it counts in a text, and what follows it. Where none stands there is
nothing. -/
def nextLine (c : Cursor) : List Char × Cursor :=
  match c.rest with
  | '\r' :: '\n' :: _ => (['\n'], c.breakAfter 2)
  | x :: _ =>
    if x = '\u2028' || x = '\u2029' then ([x], c.breakAfter 1)
    else if isBreak x then (['\n'], c.breakAfter 1)
    else ([], c)
  | [] => ([], c)

/-- Past the end of a line, if one stands here. -/
def skipBreak (c : Cursor) : Cursor :=
  c.nextLine.2

/-- Past blanks and a comment, up to the end of the line; none if something else stands there. -/
def restOfLine? (c : Cursor) : Option Cursor :=
  let c := c.skipWhile isBlank
  let c := if c.sees (· == '#') then c.skipWhile (!isBreak ·) else c
  if c.lineEndsAt 0 then some c.skipBreak else none

/-- Whether a mark of three equal characters stands at the start of the line. -/
def atMark (c : Cursor) (mark : Char) : Bool :=
  c.column = 0 && c.rest.take 3 = [mark, mark, mark] && c.gapAt 3

/-- Whether a document starts or ends here. -/
def atDocumentMark (c : Cursor) : Bool :=
  c.atMark '-' || c.atMark '.'

end Cursor

end ChatRelay.Yaml
