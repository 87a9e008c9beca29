/-!
# Base64

The standard alphabet with padding, three bytes to four letters.
-/

namespace ChatRelay.Base64

/-- The letter of a six-bit group. -/
def letter (n : Nat) : Char :=
  let n := n % 64
  if n < 26 then Char.ofNat (n + 65)
  else if n < 52 then Char.ofNat (n - 26 + 97)
  else if n < 62 then Char.ofNat (n - 52 + 48)
  else if n == 62 then '+' else '/'

/-- The letters of the bytes, the last group filled up with `=`. -/
def encodeBytes : List UInt8 → List Char
  | [] => []
  | [a] =>
    let n := a.toNat * 16
    [letter (n / 64), letter n, '=', '=']
  | [a, b] =>
    let n := (a.toNat * 256 + b.toNat) * 4
    [letter (n / 4096), letter (n / 64), letter n, '=']
  | a :: b :: c :: rest =>
    let n := (a.toNat * 256 + b.toNat) * 256 + c.toNat
    letter (n / 262144) :: letter (n / 4096) :: letter (n / 64) :: letter n :: encodeBytes rest

/-- The Base64 text of some bytes. -/
def encode (bytes : List UInt8) : String :=
  String.ofList (encodeBytes bytes)

end ChatRelay.Base64
