import ChatRelay.Number.Decimal
import ChatRelay.Text.Utf8
import ChatRelay.Yaml.Scalar

/-!
# Tags, anchors and directives

The names that can stand before a node, and the lines before a document that say how to read it.

## Main definitions

* `Yaml.anchorName?` — the name after `&` or `*`
* `Yaml.TagText`, `Yaml.tagText?` — a tag as it is written
* `Yaml.Directive`, `Yaml.directive?` — a line that starts with `%`
-/

namespace ChatRelay.Yaml

/-! ### Anchors -/

/-- Whether an anchor may end before a character. -/
def endsAnchor (c : Char) : Bool :=
  isBlank c || isBreak c || c = '?' || c = ':' || c = ',' || c = ']' || c = '\x7d' || c = '%' ||
    c = '@' || c = '\x60'

/-- The name that follows the mark at a place. -/
def anchorName? (c : Cursor) : Option (String × Cursor) :=
  let c := c.next
  let name := c.rest.takeWhile isWordChar
  let c := c.skip name.length
  if name.isEmpty || !c.peek?.all endsAnchor then none else some (String.ofList name, c)

/-! ### Tags -/

/-- The characters of an address. Between angle brackets there are some more. -/
def isAddressChar (verbatim : Bool) (c : Char) : Bool :=
  isWordChar c || ";/?:@&=+$.!~*'()".toList.contains c || (verbatim && ",[]".toList.contains c)

/-- The bytes of an address, of which some may be written as `%` and two hexadecimal digits, and
how many characters they take. -/
def addressBytes? (verbatim : Bool) : List Char → Option (List UInt8 × Nat)
  | '%' :: a :: b :: rest => do
    let byte ← Text.hexByte? a b
    let (bytes, n) ← addressBytes? verbatim rest
    return (byte :: bytes, n + 3)
  | c :: rest =>
    if c = '%' then none
    else if isAddressChar verbatim c then do
      let (bytes, n) ← addressBytes? verbatim rest
      return (UInt8.ofNat c.toNat :: bytes, n + 1)
    else some ([], 0)
  | [] => some ([], 0)

/-- The address at a place. -/
def address? (verbatim : Bool) (c : Cursor) : Option (String × Cursor) := do
  let (bytes, n) ← addressBytes? verbatim c.rest
  let text ← Utf8.decode? bytes
  return (text, c.skip n)

/-- A tag as it is written: its handle, and what follows. -/
structure TagText where
  handle : String
  suffix : String
deriving DecidableEq, Repr, Inhabited

/-- A handle: an exclamation mark, perhaps followed by a word and another one. -/
def handle? (c : Cursor) : Option (List Char × Cursor) :=
  if c.peek? != some '!' then none
  else
    let word := c.next.rest.takeWhile isWordChar
    let after := c.next.skip word.length
    if after.peek? = some '!' then some ('!' :: word ++ ['!'], after.next)
    else some ('!' :: word, after)

/-- The tag at a place, which starts with an exclamation mark. -/
def tagBody? (c : Cursor) : Option (TagText × Cursor) :=
  if c.seesAt 1 (· == '<') then do
    let (suffix, c) ← address? true (c.skip 2)
    if suffix.isEmpty || c.peek? != some '>' then none else return (⟨"", suffix⟩, c.next)
  else do
    let (handle, after) ← handle? c
    if handle.length > 1 && handle.getLast? = some '!' then
      let (suffix, c) ← address? false after
      if suffix.isEmpty then none else return (⟨String.ofList handle, suffix⟩, c)
    else
      let (suffix, c) ← address? false after
      let suffix := String.ofList handle.tail ++ suffix
      return (if suffix.isEmpty then ⟨"", "!"⟩ else ⟨"!", suffix⟩, c)

/-- The tag at a place. A gap follows it, or a comma between brackets. -/
def tagText? (flow : Bool) (c : Cursor) : Option (TagText × Cursor) := do
  let (tag, c) ← tagBody? c
  if c.gapAt 0 || (flow && c.peek? = some ',') then return (tag, c) else none

/-! ### Directives -/

/-- What a line before a document says. -/
inductive Directive where
  /-- The version of the language. -/
  | version (major minor : Nat)
  /-- What a handle stands for. -/
  | handle (name start : String)
deriving DecidableEq, Repr

/-- A number of at most nine digits. -/
def versionNumber? (c : Cursor) : Option (Nat × Cursor) :=
  let digits := c.rest.takeWhile Char.isDigit
  if digits.isEmpty || digits.length > 9 then none
  else some (Number.digitsValue digits, c.skip digits.length)

def versionDirective? (c : Cursor) : Option (Directive × Cursor) := do
  let (major, c) ← versionNumber? c
  if c.peek? != some '.' then none
  else
    let (minor, c) ← versionNumber? c.next
    return (.version major minor, c)

def handleDirective? (c : Cursor) : Option (Directive × Cursor) := do
  let (handle, c) ← handle? c
  if handle.getLast? != some '!' || !c.sees isBlank then none
  else
    let (start, c) ← address? true (c.skipWhile isBlank)
    if start.isEmpty || !c.gapAt 0 then none else return (.handle (String.ofList handle) start, c)

/-- The directive at a place, which takes the whole line. -/
def directive? (c : Cursor) : Option (Directive × Cursor) := do
  let c := c.next
  let name := c.rest.takeWhile isWordChar
  let c := c.skip name.length
  if !c.gapAt 0 then none
  else
    let arguments := c.skipWhile isBlank
    let (directive, c) ←
      if name = "YAML".toList then versionDirective? arguments
      else if name = "TAG".toList then handleDirective? arguments
      else none
    return (directive, ← c.restOfLine?)

end ChatRelay.Yaml
