import ChatRelay.Error
import ChatRelay.Json.Reader
import ChatRelay.Text.Blank
import ChatRelay.Text.Utf8

/-!
# Server-sent events

A vendor streams a reply as events, each ended by an empty line; the data lines of an event hold one
JSON value. Bytes arrive in chunks that may end anywhere, inside a character too, so bytes are kept
until an event is complete.

## Main definitions

* `Events.cut` — the complete events at the front of some bytes, and the rest
* `Events.read` — what one event says
* `Events.decode` — the values of a sequence of chunks

## Design notes

Carriage returns are dropped before anything else, so both line ends mean the same. The signal that
ends a stream is an event like any other; what follows it is never looked at.
-/

namespace ChatRelay

/-- What the network delivers next: some bytes, or the error that ends the delivery. -/
abbrev Chunk := Result (List UInt8)

namespace Events

/-- The payload that ends a stream. -/
def doneSignal : String := "[DONE]"

def carriageReturn : UInt8 := 13

def newline : UInt8 := 10

/-- The bytes up to the first empty line and those after it, if there is one. -/
def cutFirst : List UInt8 → Option (List UInt8 × List UInt8)
  | [] => none
  | [_] => none
  | a :: b :: rest =>
    if a = newline && b = newline then some ([], rest)
    else (cutFirst (b :: rest)).map fun (frame, rest) => (a :: frame, rest)

/-- The complete events at the front of some bytes and the bytes after the last of them. `fuel`
bounds the number of events. -/
def cutAll : Nat → List UInt8 → List (List UInt8) × List UInt8
  | 0, bytes => ([], bytes)
  | fuel + 1, bytes =>
    match cutFirst bytes with
    | none => ([], bytes)
    | some (frame, rest) =>
      let (frames, rest) := cutAll fuel rest
      (frame :: frames, rest)

/-- The complete events at the front of some bytes and the bytes after the last of them. -/
def cut (bytes : List UInt8) : List (List UInt8) × List UInt8 :=
  cutAll bytes.length bytes

/-- The lines of a text, without the newlines between them. A newline at the end ends the last
line. -/
def lines : List Char → List (List Char)
  | [] => []
  | c :: cs =>
    if c = '\n' then [] :: lines cs
    else
      match lines cs with
      | [] => [[c]]
      | l :: ls => (c :: l) :: ls

/-- What a line says after `data:`, one blank after the colon not counting. -/
def lineData? (line : List Char) : Option (List Char) :=
  ("data:".toList.isPrefixOf? line).map fun
    | ' ' :: data => data
    | data => data

/-- The data lines of an event, joined; nothing if it has none. -/
def data? (text : List Char) : Option (List Char) :=
  match (lines text).filterMap lineData? with
  | [] => none
  | l :: ls => some ((l :: ls).intersperse ['\n']).flatten

/-- What an event says. -/
inductive Reading where
  | value (v : Json)
  | malformed (e : Error)
  /-- The stream is over. -/
  | done
  /-- Nothing. -/
  | silent
deriving DecidableEq, Repr

/-- The error of a payload that is not JSON. It quotes the first 120 characters. -/
def malformedPayload (payload : List Char) : Error :=
  .decoding ("invalid JSON in SSE event: " ++ Json.syntaxErrorText ++ " (payload: " ++
    String.ofList (payload.take 120) ++ ")")

/-- What the bytes of one event say. -/
def read (done : String) (frame : List UInt8) : Reading :=
  match data? (Utf8.decodeFrom .start frame) with
  | none => .silent
  | some data =>
    let payload := Text.trimChars data
    if payload.isEmpty then .silent
    else if payload = done.toList then .done
    else
      match Json.read? (String.ofList payload) with
      | some v => .value v
      | none => .malformed (malformedPayload payload)

/-- The items of some events up to the signal that ends the stream, and whether it was met. -/
def readAll (done : String) : List (List UInt8) → List (Result Json) × Bool
  | [] => ([], false)
  | frame :: frames =>
    match read done frame with
    | .done => ([], true)
    | .silent => readAll done frames
    | .value v =>
      let (items, ended) := readAll done frames
      (.ok v :: items, ended)
    | .malformed e =>
      let (items, ended) := readAll done frames
      (.error e :: items, ended)

/-- The items of the chunks to come, given the bytes that no event has taken yet. What stands after
the last empty line is one more event at the end of the chunks; an error drops it. -/
def decodeFrom (done : String) (kept : List UInt8) : List Chunk → List (Result Json)
  | [] => (readAll done [kept]).1
  | .error e :: _ => [.error e]
  | .ok bytes :: chunks =>
    let (frames, rest) := cut (kept ++ bytes.filter (· ≠ carriageReturn))
    let (items, ended) := readAll done frames
    if ended then items else items ++ decodeFrom done rest chunks

/-- The items of a sequence of chunks. -/
def decode (done : String) (chunks : List Chunk) : List (Result Json) :=
  decodeFrom done [] chunks

end Events

end ChatRelay
