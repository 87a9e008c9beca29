/-!
# Digits

Numbers are written in bases up to sixteen in addresses, in JSON escapes and in YAML. The letters
that stand for the digits from ten on may be small or capital.

## Main definitions

* `digit?` — the value of one digit of a base
* `digitsIn?` — the number that some digits of a base stand for
* `hexByte?` — the byte of two hexadecimal digits
-/

namespace ChatRelay.Text

/-- The value of a digit, which is below its base. -/
def digit? (base : Nat) (c : Char) : Option Nat :=
  let value :=
    if c.isDigit then some (c.toNat - 48)
    else if 'a' ≤ c && c ≤ 'f' then some (c.toNat - 87)
    else if 'A' ≤ c && c ≤ 'F' then some (c.toNat - 55)
    else none
  value.filter (· < base)

/-- The number that some digits stand for, the first of them counting most; zero if there are
none. -/
def digitsIn? (base : Nat) (digits : List Char) : Option Nat :=
  digits.foldlM (fun n c => (digit? base c).map (n * base + ·)) 0

/-- The byte that two hexadecimal digits stand for. -/
def hexByte? (high low : Char) : Option UInt8 :=
  (digitsIn? 16 [high, low]).map UInt8.ofNat

end ChatRelay.Text
