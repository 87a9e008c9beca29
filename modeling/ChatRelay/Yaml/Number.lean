import ChatRelay.Number.Decimal
import ChatRelay.Number.Single
import ChatRelay.Text.Digit

/-!
# Numbers and flags in YAML

What the plain texts `on`, `0x10`, `1e3` or `.inf` stand for where a flag or a number is due.

## Main definitions

* `Yaml.flagOf?` — a flag
* `Yaml.naturalOf?`, `Yaml.integerOf?` — numbers of 64 bits, without and with sign
* `Yaml.singleOf?` — a number in single precision
-/

namespace ChatRelay.Yaml

/-- Each of the two words in three spellings. -/
def flagOf? (text : String) : Option Bool :=
  if text ∈ ["true", "True", "TRUE"] then some true
  else if text ∈ ["false", "False", "FALSE"] then some false
  else none

/-- The spellings of nothing. -/
def isNullWord (text : String) : Bool :=
  text ∈ ["null", "Null", "NULL", "~"]

/-! ### Integers -/

/-- The number of some digits, of which there must be one. -/
def digitsOf? (base : Nat) (digits : List Char) : Option Nat :=
  if digits.isEmpty then none else Text.digitsIn? base digits

/-- A number without sign: in base sixteen, eight or two after a mark, else in base ten and then
without leading zeros. -/
def magnitude? : List Char → Option Nat
  | '0' :: 'x' :: digits => digitsOf? 16 digits
  | '0' :: 'o' :: digits => digitsOf? 8 digits
  | '0' :: 'b' :: digits => digitsOf? 2 digits
  | digits => if digits.length > 1 && digits.head? = some '0' then none else digitsOf? 10 digits

/-- A number without its plus sign. -/
def withoutPlus : List Char → List Char
  | '+' :: rest => rest
  | cs => cs

/-- A natural number of 64 bits. -/
def naturalOf? (text : String) : Option Nat :=
  (magnitude? (withoutPlus text.toList)).filter (· < UInt64.size)

/-- An integer of 64 bits with sign. -/
def integerOf? (text : String) : Option Int :=
  match text.toList with
  | '-' :: rest => ((magnitude? rest).filter (· ≤ Nat.pow 2 63)).map fun n => -(n : Int)
  | cs => ((magnitude? (withoutPlus cs)).filter (· < Nat.pow 2 63)).map fun n => (n : Int)

/-! ### Reals -/

/-- An exponent: a sign or none, and digits. -/
def exponent? (cs : List Char) : Option Int :=
  match cs with
  | '-' :: digits => (digitsOf? 10 digits).map fun n => -(n : Int)
  | '+' :: digits => (digitsOf? 10 digits).map fun n => (n : Int)
  | digits => (digitsOf? 10 digits).map fun n => (n : Int)

/-- A decimal number: digits before or after a point, or both, and perhaps an exponent. -/
def literal? (cs : List Char) : Option Number.Literal := do
  let negative := cs.head? = some '-'
  let cs := if negative then cs.tail else cs
  let whole := cs.takeWhile Char.isDigit
  let rest := cs.drop whole.length
  let fraction :=
    match rest with
    | '.' :: ds => ds.takeWhile Char.isDigit
    | _ => []
  let rest := if rest.head? = some '.' then rest.drop (fraction.length + 1) else rest
  if whole.isEmpty && fraction.isEmpty then none
  else
    match rest with
    | [] => return ⟨negative, whole, fraction, 0⟩
    | e :: ds =>
      if e = 'e' || e = 'E' then return ⟨negative, whole, fraction, ← exponent? ds⟩ else none

/-- The spellings of the infinities and of what is no number. -/
def isBeyondWord (text : String) : Bool :=
  text ∈ [".inf", ".Inf", ".INF", "+.inf", "+.Inf", "+.INF", "-.inf", "-.Inf", "-.INF", ".nan",
    ".NaN", ".NAN"]

/-- A number in single precision: the double nearest to a decimal, rounded once more. -/
def singleOf? (text : String) : Option Single :=
  if isBeyondWord text then some .beyond
  else
    let cs := text.toList
    let unsigned := withoutPlus cs
    if cs.head? = some '+' && unsigned.head? = some '-' then none
    else ((literal? unsigned).bind (·.nearest?)).map Single.ofBinary

end ChatRelay.Yaml
