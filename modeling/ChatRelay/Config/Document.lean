import ChatRelay.Json.Record

/-!
# Documents

Settings are read from JSON and from YAML. The two agree on what a record of settings is and differ
in what counts as a text, a number or an absent value.

## Main definitions

* `Document` — what a format of documents must offer
* `Document.field`, `Document.option` — a setting with a default, and one that may be absent
-/

namespace ChatRelay

/-- A format of documents in which settings are written. -/
class Document (ν : Type) where
  /-- The fields of a record by name. -/
  fields? : List String → ν → Option (String → Option ν)
  /-- Whether a value stands for an absent setting. -/
  absent? : ν → Option Bool
  text? : ν → Option String
  flag? : ν → Option Bool
  /-- A natural number of at most 64 bits. -/
  natural? : ν → Option Nat
  /-- An integer of 64 bits with sign. -/
  integer? : ν → Option Int
  single? : ν → Option Single
  /-- One name of a fixed list. -/
  name? : ν → Option String
  items? : ν → Option (List ν)

instance : Document Json where
  fields? := Json.fields?
  absent? v := some v.isNull
  text? := Json.asText?
  flag? := Json.asBool?
  natural? := Json.word64?
  integer? := Json.signed64?
  single? := Json.single?
  name? := Json.name?
  items? := Json.asArray?

namespace Document

variable {ν α : Type} [Document ν]

/-- A setting with a default. -/
def field (default : α) (read : ν → Option α) : Option ν → Option α
  | none => some default
  | some v => read v

/-- A setting that may be absent. -/
def option (read : ν → Option α) : Option ν → Option (Option α)
  | none => some none
  | some v => do
    if ← absent? v then return none
    return some (← read v)

/-- A natural number of 32 bits. -/
def word32? (v : ν) : Option UInt32 :=
  ((natural? v).filter (· < UInt32.size)).map UInt32.ofNat

/-- A list of texts. -/
def texts? (v : ν) : Option (List String) :=
  (items? v).bind fun items => items.mapM text?

end Document

end ChatRelay
