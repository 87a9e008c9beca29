import ChatRelay.Number.Binary

/-!
# JSON values

## Main definitions

* `Json` — a value; an integer stays an integer and any other number is a double
* `Json.ofMembers` — an object from members in any order: keys ascend, of equal keys the last wins
* `Json.get?`, `Json.at?` — the member under a key, the value at the end of a path
* `Json.asText?`, `Json.asCount?`, … — views of a value as plain data

## Design notes

Members are kept in ascending order of their keys, as the writer prints them. Values built by
`Json.ofMembers` have this form, so equal objects are equal terms.
-/

namespace ChatRelay

/-- A number of a JSON text: an integer if it is written as one, a double otherwise. -/
inductive Numeral where
  | integer (value : Int)
  | real (value : Number.Binary)
deriving DecidableEq, Repr, Inhabited

/-- A JSON value. -/
inductive Json where
  | null
  | bool (value : Bool)
  | number (value : Numeral)
  | text (value : String)
  | array (items : List Json)
  | object (members : List (String × Json))
deriving Repr, Inhabited

namespace Json

mutual

/-- Equality of values is decidable. -/
def decEq : (a b : Json) → Decidable (a = b)
  | .null, .null => isTrue rfl
  | .bool a, .bool b =>
    if h : a = b then isTrue (h ▸ rfl) else isFalse fun e => h (by injection e)
  | .number a, .number b =>
    if h : a = b then isTrue (h ▸ rfl) else isFalse fun e => h (by injection e)
  | .text a, .text b =>
    if h : a = b then isTrue (h ▸ rfl) else isFalse fun e => h (by injection e)
  | .array a, .array b =>
    match decEqItems a b with
    | isTrue h => isTrue (h ▸ rfl)
    | isFalse h => isFalse fun e => h (by injection e)
  | .object a, .object b =>
    match decEqMembers a b with
    | isTrue h => isTrue (h ▸ rfl)
    | isFalse h => isFalse fun e => h (by injection e)
  | .null, .bool _ | .null, .number _ | .null, .text _ | .null, .array _ | .null, .object _
  | .bool _, .null | .bool _, .number _ | .bool _, .text _ | .bool _, .array _
  | .bool _, .object _ | .number _, .null | .number _, .bool _ | .number _, .text _
  | .number _, .array _ | .number _, .object _ | .text _, .null | .text _, .bool _
  | .text _, .number _ | .text _, .array _ | .text _, .object _ | .array _, .null
  | .array _, .bool _ | .array _, .number _ | .array _, .text _ | .array _, .object _
  | .object _, .null | .object _, .bool _ | .object _, .number _ | .object _, .text _
  | .object _, .array _ => isFalse nofun

/-- Equality of item lists is decidable. -/
def decEqItems : (a b : List Json) → Decidable (a = b)
  | [], [] => isTrue rfl
  | x :: xs, y :: ys =>
    match decEq x y, decEqItems xs ys with
    | isTrue h, isTrue k => isTrue (h ▸ k ▸ rfl)
    | isFalse h, _ => isFalse fun e => h (by injection e)
    | _, isFalse k => isFalse fun e => k (by injection e)
  | [], _ :: _ | _ :: _, [] => isFalse nofun

/-- Equality of member lists is decidable. -/
def decEqMembers : (a b : List (String × Json)) → Decidable (a = b)
  | [], [] => isTrue rfl
  | (k, x) :: xs, (l, y) :: ys =>
    if hk : k = l then
      match decEq x y, decEqMembers xs ys with
      | isTrue h, isTrue r => isTrue (hk ▸ h ▸ r ▸ rfl)
      | isFalse h, _ => isFalse fun e => h (by injection e with e _; injection e)
      | _, isFalse r => isFalse fun e => r (by injection e)
    else isFalse fun e => hk (by injection e with e _; injection e)
  | [], _ :: _ | _ :: _, [] => isFalse nofun

end

instance : DecidableEq Json := decEq

/-! ### Building -/

/-- Puts a member into ascending members, in place of one with the same key. -/
def insertMember (key : String) (value : Json) : List (String × Json) → List (String × Json)
  | [] => [(key, value)]
  | (k, v) :: rest =>
    if key < k then (key, value) :: (k, v) :: rest
    else if key = k then (key, value) :: rest
    else (k, v) :: insertMember key value rest

/-- The ascending members of a list in which the last of equal keys wins. -/
def ascending (members : List (String × Json)) : List (String × Json) :=
  members.foldl (fun acc (k, v) => insertMember k v acc) []

/-- The object with the given members. -/
def ofMembers (members : List (String × Json)) : Json :=
  .object (ascending members)

/-- The object with those of the given members that are present. -/
def record (members : List (String × Option Json)) : Json :=
  ofMembers (members.filterMap fun (k, v) => v.map (k, ·))

/-- A natural number as a value. -/
def ofNat (n : Nat) : Json :=
  .number (.integer n)

/-- The empty object. -/
def empty : Json := .object []

/-! ### Looking inside -/

/-- The member under a key, if the value is an object that has it. -/
def get? (key : String) : Json → Option Json
  | .object members => members.lookup key
  | _ => none

/-- The position that a path element names in an array: plain decimal digits, no leading zero. -/
def position? (element : String) : Option Nat :=
  let cs := element.toList
  if cs.isEmpty || !cs.all Char.isDigit || (cs.length != 1 && cs.head? == some '0') then none
  else element.toNat?

/-- The value at the end of a path of keys; in an array an element of the path is a position. -/
def at? : List String → Json → Option Json
  | [], v => some v
  | key :: path, .object members => (members.lookup key).bind (at? path)
  | element :: path, .array items =>
    (position? element).bind fun i => (items[i]?).bind (at? path)
  | _ :: _, _ => none

/-- The member under a key, or null where there is none. -/
def getD (key : String) (v : Json) : Json :=
  (v.get? key).getD .null

/-! ### Views -/

def asText? : Json → Option String
  | .text s => some s
  | _ => none

def asBool? : Json → Option Bool
  | .bool b => some b
  | _ => none

def asArray? : Json → Option (List Json)
  | .array items => some items
  | _ => none

/-- An integer, if the number is written as one. -/
def asInteger? : Json → Option Int
  | .number (.integer n) => some n
  | _ => none

/-- A natural number, if the number is written as one. -/
def asCount? : Json → Option Nat
  | .number (.integer n) => if 0 ≤ n then some n.toNat else none
  | _ => none

/-- A natural number of 64 bits, if the number is written as one. -/
def asWord? (v : Json) : Option UInt64 :=
  (v.asCount?.filter (· < UInt64.size)).map UInt64.ofNat

def isNull : Json → Bool
  | .null => true
  | _ => false

def isObject : Json → Bool
  | .object _ => true
  | _ => false

/-- The text at the end of a path. -/
def textAt? (path : List String) (v : Json) : Option String :=
  (v.at? path).bind asText?

/-- The natural number of 64 bits at the end of a path, zero where there is none. -/
def countAt (path : List String) (v : Json) : UInt64 :=
  ((v.at? path).bind asWord?).getD 0

@[simp] theorem get?_object (key : String) (members : List (String × Json)) :
    (Json.object members).get? key = members.lookup key := rfl

@[simp] theorem at?_nil (v : Json) : v.at? [] = some v := by
  cases v <;> rfl

end Json

end ChatRelay
