import ChatRelay.Json.Basic

/-!
# Single-precision settings

Sampling settings are held in single precision. A number that is given for one is rounded, and the
setting is written as the double that equals it, so `0.1` is written `0.10000000149011612`.
-/

namespace ChatRelay

/-- A number in single precision. -/
inductive Single where
  /-- A finite number, as the double that equals it. -/
  | finite (value : Number.Binary)
  /-- An infinity, or no number at all. -/
  | beyond
deriving DecidableEq, Repr, Inhabited

namespace Single

/-- The single-precision number nearest to `±num / den`. -/
def ofQuotient (negative : Bool) (num den : Nat) : Single :=
  match (Number.Binary.ofQuotient? .single negative num den).bind (·.toLayout? .double) with
  | some x => .finite x
  | none => .beyond

/-- The single-precision number nearest to a double. -/
def ofBinary (x : Number.Binary) : Single :=
  let (num, den) := x.quotient
  ofQuotient x.negative num den

/-- The single-precision number nearest to a numeral. -/
def ofNumeral : Numeral → Single
  | .integer n => ofQuotient (n < 0) n.natAbs 1
  | .real x => ofBinary x

/-- The value that is written; there is none for an infinity. -/
def toJson : Single → Json
  | .finite x => .number (.real x)
  | .beyond => .null

end Single

end ChatRelay
