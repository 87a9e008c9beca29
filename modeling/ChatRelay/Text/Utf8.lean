/-!
# UTF-8

Bytes arrive from a vendor in pieces and may be damaged. Reading them never fails: every maximal
run of bytes that starts a character but does not complete it becomes one replacement character.

## Main definitions

* `Utf8.step` — one byte of the reading machine
* `Utf8.decode` — all characters of a byte list, damaged ones replaced
* `Utf8.encode` — the bytes of a text
* `Utf8.decode?` — the text, if no byte is damaged
-/

namespace ChatRelay.Utf8

/-- What stands where bytes form no character. -/
def replacement : Char := Char.ofNat 0xFFFD

/-- Between characters, or inside one: the bits so far, the bytes still to come, and the range of
the next one. -/
inductive State where
  | start
  | inside (bits left low high : Nat)
deriving DecidableEq, Repr

/-- The characters completed by a byte that starts a new one. -/
def first (b : Nat) : List Char × State :=
  if b < 0x80 then ([Char.ofNat b], .start)
  else if b < 0xC2 then ([replacement], .start)
  else if b < 0xE0 then ([], .inside (b - 0xC0) 1 0x80 0xBF)
  else if b == 0xE0 then ([], .inside 0 2 0xA0 0xBF)
  else if b == 0xED then ([], .inside 0xD 2 0x80 0x9F)
  else if b < 0xF0 then ([], .inside (b - 0xE0) 2 0x80 0xBF)
  else if b == 0xF0 then ([], .inside 0 3 0x90 0xBF)
  else if b < 0xF4 then ([], .inside (b - 0xF0) 3 0x80 0xBF)
  else if b == 0xF4 then ([], .inside 4 3 0x80 0x8F)
  else ([replacement], .start)

/-- One byte. A byte that cannot continue the character at hand ends it and is read afresh. -/
def step (s : State) (byte : UInt8) : List Char × State :=
  let b := byte.toNat
  match s with
  | .start => first b
  | .inside bits left low high =>
    if low ≤ b && b ≤ high then
      let bits := bits * 64 + (b - 0x80)
      if left ≤ 1 then ([Char.ofNat bits], .start) else ([], .inside bits (left - 1) 0x80 0xBF)
    else
      let (cs, s) := first b
      (replacement :: cs, s)

/-- The characters that the bytes complete from state `s` on. -/
def decodeFrom (s : State) : List UInt8 → List Char
  | [] => match s with
    | .start => []
    | .inside .. => [replacement]
  | b :: bs =>
    let (cs, s) := step s b
    cs ++ decodeFrom s bs

/-- The text of a byte list, with a replacement character for every damaged run. -/
def decode (bytes : List UInt8) : String :=
  String.ofList (decodeFrom .start bytes)

/-- The bytes of a text. -/
def encode (s : String) : List UInt8 :=
  s.toList.flatMap String.utf8EncodeChar

/-- The text of a byte list that is undamaged. -/
def decode? (bytes : List UInt8) : Option String :=
  let text := decode bytes
  if encode text == bytes then some text else none

end ChatRelay.Utf8
