import ChatRelay.Json.Basic
import ChatRelay.Number.Decimal

/-!
# Writing JSON

The compact text of a value: no blanks, members in the order in which the value holds them, and
only those characters escaped that must be.
-/

namespace ChatRelay.Json

/-- A digit of a hexadecimal number, in lower case. -/
def hexDigit (n : Nat) : Char :=
  Char.ofNat (if n < 10 then n + 48 else n + 87)

/-- The written form of one character of a text. -/
def escapeChar (c : Char) : List Char :=
  if c == '"' then ['\\', '"']
  else if c == '\\' then ['\\', '\\']
  else if c == '\x08' then ['\\', 'b']
  else if c == '\x0c' then ['\\', 'f']
  else if c == '\n' then ['\\', 'n']
  else if c == '\r' then ['\\', 'r']
  else if c == '\t' then ['\\', 't']
  else if c.toNat < 0x20 then
    ['\\', 'u', '0', '0', hexDigit (c.toNat / 16), hexDigit (c.toNat % 16)]
  else [c]

/-- The written form of a text, quotes included. -/
def writeText (s : String) : List Char :=
  '"' :: (s.toList.flatMap escapeChar ++ ['"'])

/-- The written form of a number. -/
def writeNumeral : Numeral → List Char
  | .integer n => (toString n).toList
  | .real x => (Number.write x).toList

mutual

/-- The characters of a value. -/
def writeChars : Json → List Char
  | .null => "null".toList
  | .bool true => "true".toList
  | .bool false => "false".toList
  | .number n => writeNumeral n
  | .text s => writeText s
  | .array items => '[' :: (writeItems items ++ [']'])
  | .object members => '\x7b' :: (writeMembers members ++ ['\x7d'])

/-- The items of an array with commas between them. -/
def writeItems : List Json → List Char
  | [] => []
  | [v] => writeChars v
  | v :: w :: vs => writeChars v ++ ',' :: writeItems (w :: vs)

/-- The members of an object with commas between them. -/
def writeMembers : List (String × Json) → List Char
  | [] => []
  | [(k, v)] => writeText k ++ ':' :: writeChars v
  | (k, v) :: m :: ms => writeText k ++ ':' :: (writeChars v ++ ',' :: writeMembers (m :: ms))

end

/-- The compact text of a value. -/
def write (v : Json) : String :=
  String.ofList (writeChars v)

end ChatRelay.Json
