import ChatRelay.Tool.Basic

/-!
# Messages

The format in which callers write conversations and receive replies, whatever the vendor. A fragment
of a streamed reply is a message of the same type.

## Main definitions

* `Message` — role, text, parts, tool calls, and what the vendor reported about the reply
* `Part` — a text, an image, a sound or a video
* `Message.isEmptyFragment` — a message without any content
-/

namespace ChatRelay

inductive Role where
  | system
  | user
  | assistant
  | tool
deriving DecidableEq, Repr, Inhabited

namespace Role

def name : Role → String
  | system => "system"
  | user => "user"
  | assistant => "assistant"
  | tool => "tool"

def all : List Role := [system, user, assistant, tool]

/-- The role of a name. -/
def ofName? (s : String) : Option Role :=
  all.find? (·.name == s)

end Role

/-- The tokens that a reply cost. Counts are numbers of 64 bits, and sums of them wrap around. -/
structure TokenUsage where
  promptTokens : UInt64
  completionTokens : UInt64
  totalTokens : UInt64
deriving DecidableEq, Repr, Inhabited

/-- The usage whose total is the sum. -/
def TokenUsage.ofCounts (prompt completion : UInt64) : TokenUsage :=
  ⟨prompt, completion, prompt + completion⟩

/-- What the vendor reported with a reply. -/
structure ResponseInfo where
  finishReason : Option String := none
  usage : Option TokenUsage := none
deriving DecidableEq, Repr, Inhabited

/-- A picture, sound or film: a remote address, or the data itself in a `data:` address. -/
structure Media where
  url : String
  mimeType : Option String := none
deriving DecidableEq, Repr, Inhabited

namespace Media

/-- The address that holds Base64 data itself. -/
def ofBase64 (data mime : String) : Media :=
  ⟨"data:" ++ mime ++ ";base64," ++ data, some mime⟩

/-- The type and the Base64 data of an address `data:TYPE;base64,DATA`. -/
def inlineData? (m : Media) : Option (String × String) := do
  let rest ← "data:".toList.isPrefixOf? m.url.toList
  let (head, data) := Text.splitAtFirst (· == ',') rest
  let data ← data
  let mime ← ";base64".toList.reverse.isPrefixOf? head.reverse
  some (String.ofList mime.reverse, String.ofList data)

end Media

/-- One part of a message that is more than a text. -/
inductive Part where
  | text (text : String)
  | image (source : Media)
  | audio (source : Media)
  | video (source : Media)
deriving DecidableEq, Repr, Inhabited

/-- The source of a part that is not a text. -/
def Part.media? : Part → Option Media
  | .text _ => none
  | .image m | .audio m | .video m => some m

/-- A message of a conversation, or a fragment of a reply. -/
structure Message where
  role : Role
  content : String := ""
  parts : List Part := []
  toolCalls : List ToolCall := []
  /-- For the result of a tool: the id of the call that it answers. -/
  toolCallId : Option String := none
  toolName : Option String := none
  reasoning : Option String := none
  info : Option ResponseInfo := none
deriving DecidableEq, Repr, Inhabited

namespace Message

def system (text : String) : Message := { role := .system, content := text }

def user (text : String) : Message := { role := .user, content := text }

def assistant (text : String) : Message := { role := .assistant, content := text }

/-- The result of the call with the given id. -/
def toolResult (text callId : String) : Message :=
  { role := .tool, content := text, toolCallId := some callId }

def finishReason? (m : Message) : Option String :=
  m.info.bind (·.finishReason)

def usage? (m : Message) : Option TokenUsage :=
  m.info.bind (·.usage)

/-- No text, no reasoning, no calls and no parts. What the vendor reported is no content. -/
def isEmptyFragment (m : Message) : Bool :=
  m.content.isEmpty && (m.reasoning.getD "").isEmpty && m.toolCalls.isEmpty && m.parts.isEmpty

/-- Whether some part is not a text. -/
def containsMedia (m : Message) : Bool :=
  m.parts.any fun p => p.media?.isSome

end Message

end ChatRelay
