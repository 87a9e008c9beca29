import ChatRelay.Text.Blank
import ChatRelay.Text.Digit
import ChatRelay.Text.Lowercase
import ChatRelay.Text.Utf8

/-!
# Hosts of addresses

A host is an IPv6 address in brackets, an IPv4 address in any of its notations, or a domain name.
Only whether a host is well formed matters here, and why it is not.

## Main definitions

* `Url.Fault` — what can be wrong with an address
* `Url.checkIpv6`, `Url.checkIpv4` — the two kinds of numeric addresses
* `Url.checkHost` — the host of an address whose scheme is one of the web
* `Url.checkOpaqueHost` — the host of any other address
-/

namespace ChatRelay.Url

/-- What can be wrong with an address. -/
inductive Fault where
  | emptyHost
  | internationalName
  | port
  | ipv4
  | ipv6
  | domainCharacter
  | relative
deriving DecidableEq, Repr

/-- The wording of a fault. -/
def Fault.message : Fault → String
  | .emptyHost => "empty host"
  | .internationalName => "invalid international domain name"
  | .port => "invalid port number"
  | .ipv4 => "invalid IPv4 address"
  | .ipv6 => "invalid IPv6 address"
  | .domainCharacter => "invalid domain character"
  | .relative => "relative URL without a base"

/-- The pieces of a list between separators. -/
def splitOn (p : Char → Bool) : List Char → List (List Char)
  | [] => [[]]
  | c :: cs =>
    match splitOn p cs with
    | [] => [[]]
    | piece :: pieces => if p c then [] :: piece :: pieces else (c :: piece) :: pieces

/-! ### IPv4 -/

/-- The number that a part of an IPv4 address stands for: hexadecimal after `0x`, octal after `0`,
decimal otherwise. -/
def ipv4Number? (part : List Char) : Option Nat :=
  match part with
  | [] => none
  | '0' :: 'x' :: ds | '0' :: 'X' :: ds => Text.digitsIn? 16 ds
  | '0' :: d :: ds => Text.digitsIn? 8 (d :: ds)
  | ds => Text.digitsIn? 10 ds

/-- The labels of a name, without the empty one after a last dot. -/
def labels (name : List Char) : List (List Char) :=
  let parts := splitOn (· == '.') name
  if parts.getLast? == some [] then parts.dropLast else parts

/-- Whether a name must be an IPv4 address: its last label is a number. -/
def endsInNumber (name : List Char) : Bool :=
  match (labels name).getLast? with
  | none => false
  | some last => (!last.isEmpty && last.all Char.isDigit) || (ipv4Number? last).isSome

/-- Up to four numbers; all but the last fit a byte, and the last fills what is left. -/
def checkIpv4 (name : List Char) : Except Fault Unit :=
  let parts := labels name
  match if parts.length ≤ 4 then parts.mapM ipv4Number? else none with
  | none => .error .ipv4
  | some numbers =>
    let last := numbers.getLast?.getD 0
    let init := numbers.dropLast
    if init.all (· ≤ 255) && last < Nat.pow 256 (4 - init.length) then .ok () else .error .ipv4

/-! ### IPv6 -/

/-- Whether a piece is a group of one to four hexadecimal digits. -/
def isGroup (piece : List Char) : Bool :=
  !piece.isEmpty && piece.length ≤ 4 && piece.all fun c => (Text.digit? 16 c).isSome

/-- Whether a piece is a byte in decimal digits without a needless zero. -/
def isByte (piece : List Char) : Bool :=
  !piece.isEmpty && piece.length ≤ 3 && piece.all Char.isDigit &&
    (piece.length == 1 || piece.head? != some '0') && (Text.digitsIn? 10 piece).any (· ≤ 255)

/-- The number of 16-bit words that some pieces stand for, an IPv4 address being allowed as the last
one. -/
def words? (pieces : List (List Char)) : Option Nat :=
  match pieces.reverse with
  | [] => some 0
  | last :: init =>
    if !init.all isGroup then none
    else if isGroup last then some (init.length + 1)
    else
      let bytes := splitOn (· == '.') last
      if bytes.length == 4 && bytes.all isByte then some (init.length + 2) else none

/-- The pieces before and after the first `::`, if there is one. -/
def splitDouble : List Char → Option (List Char × List Char)
  | ':' :: ':' :: rest => some ([], rest)
  | c :: rest => (splitDouble rest).map fun (before, after) => (c :: before, after)
  | [] => none

/-- The pieces between colons; no piece where there is no character. -/
def pieces (cs : List Char) : List (List Char) :=
  if cs.isEmpty then [] else splitOn (· == ':') cs

/-- Eight words, or fewer with one gap. -/
def checkIpv6 (cs : List Char) : Except Fault Unit :=
  let fits :=
    match splitDouble cs with
    | none => (words? (pieces cs)).any (· == 8)
    | some (before, after) =>
      match (pieces before).all isGroup, words? (pieces after) with
      | true, some n => (pieces before).length + n ≤ 7
      | _, _ => false
  if fits then .ok () else .error .ipv6

/-! ### Domain names -/

/-- The bytes of a text in which `%` and two hexadecimal digits stand for one byte. -/
def percentDecode : List Char → List UInt8
  | '%' :: a :: b :: rest =>
    match Text.hexByte? a b with
    | some byte => byte :: percentDecode rest
    | none => String.utf8EncodeChar '%' ++ percentDecode (a :: b :: rest)
  | c :: rest => String.utf8EncodeChar c ++ percentDecode rest
  | [] => []

/-- The ASCII characters that no domain name holds. -/
def isForbiddenInDomain (c : Char) : Bool :=
  c.toNat ≤ 0x20 || c.toNat == 0x7F || "%#/:<>?@[\\]^|".toList.contains c

/-- The characters that a name is understood to hold for one that is written: capitals become small,
wide forms narrow, the ideographic stops a dot, and invisible marks nothing. -/
def foldChar (c : Char) : List Char :=
  let n := c.toNat
  if n < 0x80 then [Text.lowerChar c]
  else if n == 0x3002 || n == 0xFF0E || n == 0xFF61 then ['.']
  else if 0xFF01 ≤ n && n ≤ 0xFF5E then [Text.lowerChar (Char.ofNat (n - 0xFEE0))]
  else if n == 0xAD || n == 0x200B || n == 0x2060 || n == 0xFEFF || (0xFE00 ≤ n && n ≤ 0xFE0F) then
    []
  else if Text.isBlank c then [' ']
  else [Text.lowerChar c]

/-- The characters beyond ASCII that no domain name holds. -/
def isForbiddenBeyondAscii (c : Char) : Bool :=
  let n := c.toNat
  (0x80 ≤ n && n ≤ 0x9F) || (0x200C ≤ n && n ≤ 0x200F) || (0x202A ≤ n && n ≤ 0x202E) ||
    (0xE000 ≤ n && n ≤ 0xF8FF) || (0xFFF9 ≤ n && n ≤ 0xFFFF) || 0xE0000 ≤ n

/-- The insertion points of a label in its ASCII form: `none` if its digits are cut short or run
over. The state is the delta so far, the weight, and the position; `bias` follows the last delta. -/
def decodeDeltas (out : List Char) (n i bias : Nat) : Nat → List Char → Option (List Char)
  | 0, _ => none
  | _, [] => some out
  | fuel + 1, cs =>
    let rec delta (i weight k : Nat) : List Char → Option (Nat × List Char)
      | [] => none
      | c :: rest =>
        let d? :=
          if 'a' ≤ c && c ≤ 'z' then some (c.toNat - 97)
          else if '0' ≤ c && c ≤ '9' then some (c.toNat - 22) else none
        d?.bind fun d =>
          let i := i + d * weight
          let t := if k ≤ bias then 1 else if bias + 26 ≤ k then 26 else k - bias
          if UInt32.size ≤ i then none
          else if d < t then some (i, rest)
          else delta i (weight * (36 - t)) (k + 36) rest
    (delta i 1 36 cs).bind fun (i', rest) =>
      let size := out.length + 1
      let first := i == 0
      let d := if first then (i' - i) / 700 else (i' - i) / 2
      let d := d + d / size
      let rec adapt (d k : Nat) : Nat → Nat
        | 0 => k
        | f + 1 => if 455 < d then adapt (d / 35) (k + 36) f else k + 36 * d / (d + 38)
      let bias := adapt d 0 32
      let n := n + i' / size
      let at' := i' % size
      if 0x10FFFF < n || (0xD800 ≤ n && n ≤ 0xDFFF) then none
      else
        let out := out.take at' ++ Char.ofNat n :: out.drop at'
        decodeDeltas out n (at' + 1) bias fuel rest

/-- The label that the ASCII form after `xn--` stands for. -/
def decodeLabel? (cs : List Char) : Option (List Char) :=
  let (tail, head) := (cs.reverse.takeWhile (· != '-'), cs.reverse.dropWhile (· != '-'))
  let basic := (head.drop 1).reverse
  decodeDeltas basic 128 0 72 (cs.length + 1) tail.reverse

/-- Whether a label is one of a domain name: one in the ASCII form for other characters must stand
for a label that has some and is written as names are understood. -/
def isLabel (label : List Char) : Bool :=
  match "xn--".toList.isPrefixOf? label with
  | none => true
  | some code =>
    match decodeLabel? code with
    | none => false
    | some cs =>
      cs.any (fun c => 0x80 ≤ c.toNat) && cs.flatMap foldChar == cs &&
        !cs.any isForbiddenBeyondAscii && !cs.any isForbiddenInDomain

/-- The host of an address of the web. -/
def checkHost (host : List Char) : Except Fault Unit :=
  match host with
  | '[' :: inner =>
    if inner.getLast? == some ']' then checkIpv6 inner.dropLast else .error .ipv6
  | _ =>
    let name := (Utf8.decodeFrom .start (percentDecode host)).flatMap foldChar
    if name.any isForbiddenInDomain || name.any isForbiddenBeyondAscii ||
        !(splitOn (· == '.') name).all isLabel then .error .internationalName
    else if name.isEmpty then .error .emptyHost
    else if endsInNumber name then checkIpv4 name
    else .ok ()

/-- The characters that no host holds. -/
def isForbiddenInHost (c : Char) : Bool :=
  "\x00\t\n\r #/:<>?@[\\]^|".toList.contains c

/-- The host of an address that is not of the web. -/
def checkOpaqueHost (host : List Char) : Except Fault Unit :=
  match host with
  | '[' :: inner =>
    if inner.getLast? == some ']' then checkIpv6 inner.dropLast else .error .ipv6
  | _ => if host.any isForbiddenInHost then .error .domainCharacter else .ok ()

end ChatRelay.Url
