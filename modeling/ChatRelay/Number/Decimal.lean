import ChatRelay.Number.Binary

/-!
# Decimal texts of numbers

How a double is written and how decimal texts are read.

## Main definitions

* `shortest` — the fewest decimal digits that read back as the same double, and of those the
  nearest ones
* `write` — the text of a double: positional from `0.00001` up to sixteen places before the point,
  with an exponent otherwise, and always with a fraction or an exponent
* `Literal` — sign, digits and exponent of a decimal text
* `Literal.nearest?` — the double nearest to a literal
* `Literal.scaled?` — the double that a reader gets which keeps the digits that fit 64 bits and
  scales them by one power of ten
-/

namespace ChatRelay.Number

/-! ### Shortest digits -/

/-- The number of digits before the point of `num / den ≥ 1`, or minus the number of zeros that
follow the point of a smaller one. `fuel` bounds the zeros. -/
def leadingPlace (num den : Nat) : Nat → Int
  | 0 => 0
  | fuel + 1 =>
    if den ≤ num then (Nat.toDigits 10 (num / den)).length
    else if den ≤ num * 10 then 0
    else leadingPlace (num * 10) den fuel - 1

/-- The reals that round to `x`, as quotients over a common denominator: lower end, value, upper
end, denominator. -/
def neighbourhood (x : Binary) : Nat × Nat × Nat × Nat :=
  let m := x.significand
  -- Below a power of two the grid is twice as fine.
  let below := if m == Nat.pow 2 52 && x.exponent != Layout.double.smallest then 1 else 2
  let e := x.exponent - 2
  if 0 ≤ e then
    let s := Nat.pow 2 e.toNat
    ((4 * m - below) * s, 4 * m * s, (4 * m + 2) * s, 1)
  else (4 * m - below, 4 * m, 4 * m + 2, Nat.pow 2 (-e).toNat)

/-- Of the two neighbours of `x` among the multiples of `10 ^ place`, the nearest one that rounds
to `x`, if there is one. Of two equally near ones the even one is taken. -/
def gridHit? (x : Binary) (place : Int) : Option Nat :=
  let (low, value, high, den) := neighbourhood x
  let (up, down) :=
    if 0 ≤ place then (1, Nat.pow 10 place.toNat) else (Nat.pow 10 (-place).toNat, 1)
  -- `n · down / up` is the grid point `n`; it is compared with `v / den`.
  let inside (n : Nat) : Bool :=
    let p := n * down * den
    if x.significand % 2 == 0 then low * up ≤ p && p ≤ high * up
    else low * up < p && p < high * up
  let n := value * up / (den * down)
  let twice := 2 * (value * up % (den * down))
  let order :=
    if twice < den * down then [n, n + 1]
    else if den * down < twice then [n + 1, n]
    else if n % 2 == 0 then [n, n + 1] else [n + 1, n]
  order.find? fun n => n != 0 && inside n

/-- The first hit on the grids `place, place - 1, …`, with its place. -/
def firstHit (x : Binary) (place : Int) : Nat → Nat × Int
  | 0 => (0, 0)
  | fuel + 1 =>
    match gridHit? x place with
    | some n => (n, place)
    | none => firstHit x (place - 1) fuel

/-- The digits of the shortest decimal that reads back as `x`, and the place of the last one. -/
def shortest (x : Binary) : Nat × Int :=
  if x.isZero then (0, 0)
  else
    let (num, den) := x.quotient
    -- One grid more than the leading place: `9.6` may be shortest as `1e1`.
    firstHit x (leadingPlace num den 400) 20

/-! ### Writing -/

/-- The text of a double. -/
def write (x : Binary) : String :=
  let sign := if x.negative then "-" else ""
  let (n, place) := shortest x
  if n == 0 then sign ++ "0.0"
  else
    -- A trailing zero of the digits belongs to the place.
    let digits := (toString n).toList
    let zeros := (digits.reverse.takeWhile (· == '0')).length
    let digits := digits.take (digits.length - zeros)
    let place := place + zeros
    let point : Int := digits.length + place
    let text :=
      if 0 ≤ place && point ≤ 16 then digits ++ List.replicate place.toNat '0' ++ ['.', '0']
      else if 0 < point && point ≤ 16 then
        digits.take point.toNat ++ '.' :: digits.drop point.toNat
      else if -5 < point && point ≤ 0 then
        '0' :: '.' :: List.replicate (-point).toNat '0' ++ digits
      else
        let exponent := point - 1
        let fraction := if digits.length == 1 then [] else '.' :: digits.drop 1
        digits.take 1 ++ fraction ++ 'e' :: (if exponent < 0 then '-' else '+') ::
          (toString exponent.natAbs).toList
    sign ++ String.ofList text

/-! ### Reading -/

/-- The value of a decimal digit. -/
def digitValue (c : Char) : Nat :=
  c.toNat - 48

/-- The number that some decimal digits stand for. -/
def digitsValue (ds : List Char) : Nat :=
  ds.foldl (fun n c => n * 10 + digitValue c) 0

/-- A decimal text taken apart: the digits before and after the point, and the exponent. -/
structure Literal where
  negative : Bool
  whole : List Char
  fraction : List Char
  exponent : Int
deriving DecidableEq, Repr

namespace Literal

/-- The double nearest to the literal; nothing if it is beyond every double. -/
def nearest? (l : Literal) : Option Binary :=
  let digits := digitsValue (l.whole ++ l.fraction)
  let e := l.exponent - l.fraction.length
  let size : Int := (l.whole ++ l.fraction).length + e
  if digits == 0 then some ⟨l.negative, 0, Layout.double.smallest⟩
  -- Far outside the range there is no need to form the power.
  else if size < -400 then some ⟨l.negative, 0, Layout.double.smallest⟩
  else if 400 < size - (l.whole ++ l.fraction).length then none
  else if 0 ≤ e then Binary.ofQuotient? .double l.negative (digits * Nat.pow 10 e.toNat) 1
  else Binary.ofQuotient? .double l.negative digits (Nat.pow 10 (-e).toNat)

/-- The largest significand that is kept while digits are read. -/
def significandLimit : Nat := UInt64.size - 1

/-- Reads digits into a significand while it fits: the significand and the number of digits left
out. -/
def keepDigits (n : Nat) : List Char → Nat × List Char
  | [] => (n, [])
  | c :: cs =>
    let next := n * 10 + digitValue c
    if next ≤ significandLimit then keepDigits next cs else (n, c :: cs)

/-- The double nearest to `10 ^ n`. -/
def powerOfTen? (n : Nat) : Option Binary :=
  Binary.ofQuotient? .double false (Nat.pow 10 n) 1

/-- Scales a double by a power of ten, one rounding per step; very small scales take several steps
of `10 ^ -308`. -/
def scaleBy (x : Binary) (e : Int) : Nat → Option Binary
  | 0 => none
  | fuel + 1 =>
    if e.natAbs ≤ 308 then
      (powerOfTen? e.natAbs).bind fun p => if 0 ≤ e then x.mul? p else x.div? p
    else if x.isZero then some x
    else if 0 ≤ e then none
    else (powerOfTen? 308).bind fun p => (x.div? p).bind fun y => scaleBy y (e + 308) fuel

/-- The double that comes of keeping the leading digits that fit 64 bits, rounding them, and scaling
by one power of ten. A digit dropped before the point raises the exponent. Nothing if the result is
beyond every double. -/
def scaled? (l : Literal) : Option Binary :=
  let (n, droppedWhole) := keepDigits 0 l.whole
  let (n, droppedFraction) := keepDigits n l.fraction
  let kept := l.fraction.length - droppedFraction.length
  let e : Int := l.exponent + droppedWhole.length - kept
  let limit : Int := 2147483647
  if limit < l.exponent.natAbs then
    if n == 0 || l.exponent < 0 then some ⟨l.negative, 0, Layout.double.smallest⟩ else none
  else
    (Binary.ofNat? n).bind fun x => scaleBy { x with negative := l.negative } (max e (-limit - 1)) 9

end Literal

end ChatRelay.Number
