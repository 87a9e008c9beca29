import ChatRelay.Config.Document

/-!
# Settings of streams

The buffer between a stream and its consumer, and what happens to malformed chunks.
-/

namespace ChatRelay

/-- What happens to a chunk that cannot be decoded or understood. -/
inductive MalformedChunks where
  /-- The stream ends with the error. -/
  | fail
  /-- The chunk is passed over. -/
  | skip
deriving DecidableEq, Repr, Inhabited

namespace MalformedChunks

def name : MalformedChunks → String
  | fail => "fail"
  | skip => "skip"

def ofName? (s : String) : Option MalformedChunks :=
  [fail, skip].find? (·.name == s)

end MalformedChunks

/-- The settings of streams. -/
structure StreamConfig where
  /-- How many items wait for the consumer at most. -/
  channelCapacity : Nat := 16
  malformedChunks : MalformedChunks := .fail
deriving DecidableEq, Repr, Inhabited

namespace StreamConfig

def read? {ν : Type} [Document ν] (v : ν) : Option StreamConfig := do
  let d : StreamConfig := {}
  let f ← Document.fields? ["channel_capacity", "malformed_chunks"] v
  let channelCapacity ← Document.field d.channelCapacity Document.natural? (f "channel_capacity")
  let malformedChunks ← Document.field d.malformedChunks
    (fun v => (Document.name? v).bind MalformedChunks.ofName?) (f "malformed_chunks")
  return { channelCapacity, malformedChunks }

def toJson (c : StreamConfig) : Json :=
  .ofMembers [("channel_capacity", .ofNat c.channelCapacity),
    ("malformed_chunks", .text c.malformedChunks.name)]

end StreamConfig

end ChatRelay
