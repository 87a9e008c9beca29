import ChatRelay.Stream.Events

/-!
# JSON lines

A vendor streams a reply as lines, each of them one JSON value.

## Main definitions

* `JsonLines.cut` — the complete lines at the front of some bytes, and the rest
* `JsonLines.read` — what one line says
* `JsonLines.decode` — the values of a sequence of chunks
-/

namespace ChatRelay.JsonLines

/-- The complete lines at the front of some bytes, without their ends, and the bytes after the last
of them. -/
def cut : List UInt8 → List (List UInt8) × List UInt8
  | [] => ([], [])
  | b :: bytes =>
    let (complete, rest) := cut bytes
    if b = Events.newline then ([] :: complete, rest)
    else
      match complete with
      | [] => ([], b :: rest)
      | l :: ls => ((b :: l) :: ls, rest)

/-- What a line says; a blank one says nothing. -/
def read (line : List UInt8) : Option (Result Json) :=
  let text := Text.trimChars (Utf8.decodeFrom .start line)
  if text.isEmpty then none
  else
    match Json.read? (String.ofList text) with
    | some v => some (.ok v)
    | none => some (.error .malformedJson)

/-- The items of the chunks to come, given the bytes of an unfinished line. The end of the chunks
ends the line; an error drops it. -/
def decodeFrom (kept : List UInt8) : List Chunk → List (Result Json)
  | [] => (read kept).toList
  | .error e :: _ => [.error e]
  | .ok bytes :: chunks =>
    let (complete, rest) := cut (kept ++ bytes)
    complete.filterMap read ++ decodeFrom rest chunks

/-- The items of a sequence of chunks. -/
def decode (chunks : List Chunk) : List (Result Json) :=
  decodeFrom [] chunks

end ChatRelay.JsonLines

namespace ChatRelay

/-- How a vendor frames the values of a stream. -/
inductive StreamFormat where
  | events
  | jsonLines
deriving DecidableEq, Repr, Inhabited

/-- The items of a sequence of chunks in a format. -/
def StreamFormat.decode : StreamFormat → List Chunk → List (Result Json)
  | .events => Events.decode Events.doneSignal
  | .jsonLines => JsonLines.decode

end ChatRelay
