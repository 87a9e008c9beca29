/-!
# Binary floating point, exactly

A finite floating-point number is `±significand · 2 ^ exponent`. All arithmetic here is exact
arithmetic on naturals followed by one rounding, so nothing depends on a machine's unit.

## Main definitions

* `Layout` — the width of a significand and the range of exponents; `Layout.double`,
  `Layout.single`
* `Layout.round` — the magnitude nearest to a quotient, a half going to the even neighbour
* `Binary` — a finite number with its sign

## Design notes

Numbers are kept in the form that rounding gives: the significand has its full width unless the
exponent is the smallest one. Two finite numbers are then equal exactly when they are the same
value and sign, and `-0` differs from `0`.
-/

namespace ChatRelay.Number

/-- A binary layout: the width of the significand, the smallest exponent, and a bound `b` such that
every finite magnitude lies below `2 ^ b`. -/
structure Layout where
  width : Nat
  smallest : Int
  bound : Int
deriving DecidableEq, Repr

/-- Double precision. -/
def Layout.double : Layout := ⟨53, -1074, 1024⟩

/-- Single precision. -/
def Layout.single : Layout := ⟨24, -149, 128⟩

/-- A finite number `±significand · 2 ^ exponent`. -/
structure Binary where
  negative : Bool
  significand : Nat
  exponent : Int
deriving DecidableEq, Repr, Inhabited

/-- The quotient `num / den`, rounded to the nearest natural; a half goes to the even one. -/
def roundHalfEven (num den : Nat) : Nat :=
  let q := num / den
  let twice := 2 * (num % den)
  if twice < den then q
  else if den < twice then q + 1
  else if q % 2 == 0 then q else q + 1

/-- The quotient `num / (den · 2 ^ e)` in naturals. -/
def scaled (num den : Nat) (e : Int) : Nat × Nat :=
  if 0 ≤ e then (num, den * Nat.pow 2 e.toNat) else (num * Nat.pow 2 (-e).toNat, den)

/-- The exponent at which `num / den` has a significand of the layout's width. -/
def Layout.exponentFor (l : Layout) (num den : Nat) : Int :=
  let guess : Int := (num.log2 : Int) - den.log2 - l.width
  let (n, d) := scaled num den guess
  max l.smallest (if n / d < Nat.pow 2 l.width then guess else guess + 1)

/-- The significand and exponent nearest to `num / den`, or nothing when that is beyond the layout's
range. -/
def Layout.round (l : Layout) (num den : Nat) : Option (Nat × Int) :=
  if num == 0 then some (0, l.smallest)
  else
    let e := l.exponentFor num den
    let (n, d) := scaled num den e
    let m := roundHalfEven n d
    let (m, e) := if m < Nat.pow 2 l.width then (m, e) else (m / 2, e + 1)
    if Nat.pow 2 (l.width - 1) ≤ m && l.bound < e + l.width then none else some (m, e)

namespace Binary

/-- The magnitude as a quotient of naturals. -/
def quotient (x : Binary) : Nat × Nat :=
  if 0 ≤ x.exponent then (x.significand * Nat.pow 2 x.exponent.toNat, 1)
  else (x.significand, Nat.pow 2 (-x.exponent).toNat)

/-- The number of a layout nearest to `±num / den`. -/
def ofQuotient? (l : Layout) (negative : Bool) (num den : Nat) : Option Binary :=
  (l.round num den).map fun (m, e) => ⟨negative, m, e⟩

/-- The number of another layout nearest to `x`. -/
def toLayout? (l : Layout) (x : Binary) : Option Binary :=
  let (num, den) := x.quotient
  ofQuotient? l x.negative num den

/-- The double nearest to a natural number. -/
def ofNat? (n : Nat) : Option Binary :=
  ofQuotient? .double false n 1

/-- The double nearest to the product of two magnitudes, with the sign of the first. -/
def mul? (x y : Binary) : Option Binary :=
  let (a, b) := x.quotient
  let (c, d) := y.quotient
  ofQuotient? .double x.negative (a * c) (b * d)

/-- The double nearest to the quotient of two magnitudes, with the sign of the first. -/
def div? (x y : Binary) : Option Binary :=
  let (a, b) := x.quotient
  let (c, d) := y.quotient
  ofQuotient? .double x.negative (a * d) (b * c)

/-- The magnitude without its fraction. -/
def floor (x : Binary) : Nat :=
  let (num, den) := x.quotient
  num / den

def isZero (x : Binary) : Bool :=
  x.significand == 0

end Binary

end ChatRelay.Number
