import ChatRelay.Json.Basic
import ChatRelay.Number.Single

/-!
# Records in JSON

How a structure is read from a value.

## Main definitions

* `Json.fields?` — the fields of a record by name
* `Json.required`, `Json.orElse`, `Json.optional` — a field that must be there, one with a default,
  and one that may be absent
* `Json.itemsOf`, `Json.below?`, `Json.name?`, … — readers of single values

## Design notes

A record is an object, or an array of its fields in order. Fields that a record does not have are
passed over. Null counts as absent for an optional field and is wrong for every other.
-/

namespace ChatRelay.Json

/-- The fields of a record with the given names. An array may leave out last fields but has no
others. -/
def fields? (names : List String) : Json → Option (String → Option Json)
  | .object members => some fun name => members.lookup name
  | .array items =>
    if items.length ≤ names.length then some fun name => (names.zip items).lookup name else none
  | _ => none

variable {α : Type}

/-- A field that must be there. -/
def required (read : Json → Option α) (field : Option Json) : Option α :=
  field.bind read

/-- A field with a default. -/
def orElse (default : α) (read : Json → Option α) : Option Json → Option α
  | none => some default
  | some v => read v

/-- A field that may be absent or null. -/
def optional (read : Json → Option α) : Option Json → Option (Option α)
  | none => some none
  | some .null => some none
  | some v => (read v).map some

/-- A list of values. -/
def itemsOf (read : Json → Option α) (v : Json) : Option (List α) :=
  v.asArray?.bind fun items => items.mapM read

/-- A natural number below a bound. -/
def below? (bound : Nat) (v : Json) : Option Nat :=
  v.asCount?.filter (· < bound)

/-- A natural number of 32 bits. -/
def word32? (v : Json) : Option UInt32 :=
  (below? UInt32.size v).map UInt32.ofNat

/-- A natural number of 64 bits. -/
def word64? (v : Json) : Option Nat :=
  below? UInt64.size v

/-- An integer of 64 bits. -/
def signed64? (v : Json) : Option Int :=
  v.asInteger?.filter fun n => Int64.minValue.toInt ≤ n && n ≤ Int64.maxValue.toInt

/-- A number in single precision. -/
def single? : Json → Option Single
  | .number n => some (.ofNumeral n)
  | _ => none

/-- One name of a fixed list, or an object with null under that name alone. -/
def name? : Json → Option String
  | .text s => some s
  | .object [(s, .null)] => some s
  | _ => none

/-- The value of an optional field, null where it is absent. -/
def ofOption (write : α → Json) : Option α → Json
  | none => .null
  | some a => write a

end ChatRelay.Json
