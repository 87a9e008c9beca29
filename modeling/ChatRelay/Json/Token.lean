import ChatRelay.Json.Basic
import ChatRelay.Number.Decimal
import ChatRelay.Text.Digit

/-!
# Tokens of a JSON text

The characters of a text are read one at a time by a small machine that completes tokens.

## Main definitions

* `Token` — a bracket, a colon, a comma, a text, or any other scalar
* `Lexer.Mode` — where in a token the machine stands
* `Lexer.step` — one character
* `tokens?` — the tokens of a text, if every character belongs to one

## Design notes

A word (a name or a number) is collected up to the next character that cannot belong to it and only
then judged. Nothing of the grammar of values is known here.
-/

namespace ChatRelay.Json

inductive Token where
  | openArray
  | closeArray
  | openObject
  | closeObject
  | colon
  | comma
  | text (value : String)
  | scalar (value : Json)
deriving DecidableEq, Repr

namespace Lexer

/-! ### Words -/

/-- The digits at the front, and the rest. -/
def takeDigits (cs : List Char) : List Char × List Char :=
  (cs.takeWhile Char.isDigit, cs.dropWhile Char.isDigit)

/-- The exponent of a number, read to the end: sign and digits after `e` or `E`. -/
def exponent? : List Char → Option Int
  | [] => none
  | c :: cs =>
    let (sign, ds) : Int × List Char :=
      if c == '+' then (1, cs) else if c == '-' then (-1, cs) else (1, c :: cs)
    if !ds.isEmpty && ds.all Char.isDigit then some (sign * Number.digitsValue ds) else none

/-- The part of a number after its whole digits: whether there is any, the fraction and the
exponent. -/
def numberTail? (cs : List Char) : Option (List Char × Option Int) := do
  let (fraction, rest) ←
    match cs with
    | '.' :: cs =>
      let (ds, rest) := takeDigits cs
      if ds.isEmpty then none else some (ds, rest)
    | cs => some ([], cs)
  match rest with
  | [] => some (fraction, none)
  | c :: cs => if c == 'e' || c == 'E' then (exponent? cs).map (fraction, some ·) else none

/-- A number: sign, whole digits without a needless zero, fraction, exponent. One without fraction
and exponent that fits 64 bits is an integer, except that `-0` is the double. -/
def number? (cs : List Char) : Option Numeral := do
  let (negative, cs) :=
    match cs with
    | '-' :: cs => (true, cs)
    | cs => (false, cs)
  let (whole, rest) := takeDigits cs
  if whole.isEmpty || (whole.head? == some '0' && whole.length != 1) then none
  else
    let (fraction, exponent) ← numberTail? rest
    let n := Number.digitsValue whole
    let isInteger := fraction.isEmpty && exponent.isNone &&
      (if negative then n != 0 && n ≤ Nat.pow 2 63 else n < UInt64.size)
    if isInteger then some (.integer (if negative then -n else n))
    else ((Number.Literal.mk negative whole fraction (exponent.getD 0)).scaled?).map .real

/-- The scalar that a word stands for. -/
def word? (cs : List Char) : Option Json :=
  if cs == "null".toList then some .null
  else if cs == "true".toList then some (.bool true)
  else if cs == "false".toList then some (.bool false)
  else (number? cs).map .number

/-! ### The machine -/

/-- Where the machine stands. Collected characters are held newest first. -/
inductive Mode where
  | between
  /-- Inside a name or number. -/
  | word (sofar : List Char)
  /-- Inside a text. -/
  | text (sofar : List Char)
  /-- After a backslash in a text. -/
  | escape (sofar : List Char)
  /-- Inside a four-digit escape with `left` digits to come. -/
  | code (sofar : List Char) (left value : Nat)
  /-- After a leading surrogate: the second escape must follow. -/
  | paired (sofar : List Char) (high : Nat)
  /-- After a leading surrogate and a backslash. -/
  | pairedEscape (sofar : List Char) (high : Nat)
  /-- Inside the second escape of a pair. -/
  | pairedCode (sofar : List Char) (high left value : Nat)
deriving DecidableEq, Repr

/-- The machine between two characters: its mode and the tokens completed, newest first. -/
structure State where
  mode : Mode
  done : List Token
deriving DecidableEq, Repr

def start : State := ⟨.between, []⟩

/-- The blanks of the format. -/
def isSpace (c : Char) : Bool :=
  c == ' ' || c == '\t' || c == '\n' || c == '\r'

/-- The character that a one-letter escape stands for. -/
def unescape? (c : Char) : Option Char :=
  if c == '"' then some '"'
  else if c == '\\' then some '\\'
  else if c == '/' then some '/'
  else if c == 'b' then some '\x08'
  else if c == 'f' then some '\x0c'
  else if c == 'n' then some '\n'
  else if c == 'r' then some '\r'
  else if c == 't' then some '\t'
  else none

/-- The bracket or separator that a character is. -/
def punctuation? (c : Char) : Option Token :=
  if c == '[' then some .openArray
  else if c == ']' then some .closeArray
  else if c == '\x7b' then some .openObject
  else if c == '\x7d' then some .closeObject
  else if c == ':' then some .colon
  else if c == ',' then some .comma
  else none

/-- A character that stands between tokens or opens one. -/
def openWith (done : List Token) (c : Char) : State :=
  if isSpace c then ⟨.between, done⟩
  else if c == '"' then ⟨.text [], done⟩
  else
    match punctuation? c with
    | some t => ⟨.between, t :: done⟩
    | none => ⟨.word [c], done⟩

/-- A complete four-digit escape: a character, the first half of a pair, or a lone second half. -/
def codeUnit? (sofar : List Char) (value : Nat) : Option Mode :=
  if 0xDC00 ≤ value && value ≤ 0xDFFF then none
  else if 0xD800 ≤ value && value ≤ 0xDBFF then some (.paired sofar value)
  else some (.text (Char.ofNat value :: sofar))

/-- One character. -/
def step (s : State) (c : Char) : Option State :=
  match s.mode with
  | .between => some (openWith s.done c)
  | .word w =>
    if isSpace c || c == '"' || (punctuation? c).isSome then
      (word? w.reverse).map fun v => openWith (.scalar v :: s.done) c
    else some { s with mode := .word (c :: w) }
  | .text t =>
    if c == '"' then some ⟨.between, .text (String.ofList t.reverse) :: s.done⟩
    else if c == '\\' then some { s with mode := .escape t }
    else if c.toNat < 0x20 then none
    else some { s with mode := .text (c :: t) }
  | .escape t =>
    if c == 'u' then some { s with mode := .code t 4 0 }
    else (unescape? c).map fun d => { s with mode := .text (d :: t) }
  | .code t left value =>
    (Text.digit? 16 c).bind fun h =>
      let value := value * 16 + h
      if left ≤ 1 then (codeUnit? t value).map fun m => { s with mode := m }
      else some { s with mode := .code t (left - 1) value }
  | .paired t high => if c == '\\' then some { s with mode := .pairedEscape t high } else none
  | .pairedEscape t high =>
    if c == 'u' then some { s with mode := .pairedCode t high 4 0 } else none
  | .pairedCode t high left value =>
    (Text.digit? 16 c).bind fun h =>
      let value := value * 16 + h
      if 1 < left then some { s with mode := .pairedCode t high (left - 1) value }
      else if 0xDC00 ≤ value && value ≤ 0xDFFF then
        let point := 0x10000 + (high - 0xD800) * 0x400 + (value - 0xDC00)
        some { s with mode := .text (Char.ofNat point :: t) }
      else none

/-- The tokens at the end of the text, oldest first; nothing if the end cuts a text. -/
def finish (s : State) : Option (List Token) :=
  match s.mode with
  | .between => some s.done.reverse
  | .word w => (word? w.reverse).map fun v => (.scalar v :: s.done).reverse
  | _ => none

end Lexer

/-- The tokens of a text. -/
def tokens? (cs : List Char) : Option (List Token) :=
  (cs.foldlM Lexer.step Lexer.start).bind Lexer.finish

end ChatRelay.Json
