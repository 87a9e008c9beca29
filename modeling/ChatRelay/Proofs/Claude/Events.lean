import ChatRelay.Proofs.Json.Writer
import ChatRelay.Proofs.Stream.Assembled

/-!
# Events of Claude

A stream tells of each block of a reply in turn: the block starts, it grows and it stops.  What the
events of such a group say, put together, is what the block says (`texts_of_group`), and the pieces
of a call gather to the call of the block, also when no arguments came and the call was closed
(`gather_group`).

## Main definitions

* `Claude.Group` — the events about one block
* `Claude.StreamsBlock` — a group that streams a block at a position
* `Claude.said` — what an event says
-/

namespace ChatRelay.Claude

open Vendor

/-! ### Views of blocks and events -/

def kind (v : Json) : Option String :=
  v.textAt? ["type"]

def text (v : Json) : String :=
  textAt ["text"] v

def thinking (v : Json) : String :=
  textAt ["thinking"] v

/-- The arguments of a call in a whole body. -/
def arguments (block : Json) : String :=
  ((block.get? "input").map Json.write).getD emptyArguments

theorem arguments_ne_empty (block : Json) : arguments block ≠ "" := by
  unfold arguments
  cases block.get? "input" with
  | none => decide
  | some input => exact Json.write_ne_empty input

/-- A block of text, of thinking, or a call with an id and a name. -/
def IsBlock (block : Json) : Prop :=
  kind block = some "text" ∨ kind block = some "thinking" ∨
    kind block = some "tool_use" ∧ textAt ["id"] block ≠ "" ∧ textAt ["name"] block ≠ ""

instance (block : Json) : Decidable (IsBlock block) :=
  inferInstanceAs (Decidable (_ ∨ _ ∨ _))

/-- An event of a kind about the block at a position. -/
def IsAbout (event : Json) (name : String) (position : Nat) : Prop :=
  kind event = some name ∧ (event.get? "index").bind Json.asCount? = some position

instance (event : Json) (name : String) (position : Nat) :
    Decidable (IsAbout event name position) :=
  inferInstanceAs (Decidable (_ ∧ _))

/-- The events about one block. -/
structure Group where
  start : Json
  deltas : List Json
  stop : Json

namespace Group

def events (g : Group) : List Json :=
  g.start :: (g.deltas ++ [g.stop])

/-- The block with which a group starts. -/
def block (g : Group) : Json :=
  g.start.getD "content_block"

/-- The growth of the block, step by step. -/
def growth (g : Group) : List Json :=
  g.deltas.map (·.getD "delta")

/-- All growth is of one kind. -/
def GrowsBy (g : Group) (name : String) : Prop :=
  ∀ delta ∈ g.growth, kind delta = some name

-- Statements about all members of a list are decided by running through the computed list.
instance (g : Group) (name : String) : Decidable (g.GrowsBy name) :=
  decidable_of_iff (g.growth.all fun delta => kind delta = some name)
    (by simp only [GrowsBy, List.all_eq_true, decide_eq_true_eq])

/-- The pieces by which the block grows, put together. -/
def pieces (g : Group) (key : String) : String :=
  String.join (g.growth.map (textAt [key]))

@[simp] theorem pieces_text (g : Group) : g.pieces "text" = String.join (g.growth.map text) := rfl

@[simp] theorem pieces_thinking (g : Group) :
    g.pieces "thinking" = String.join (g.growth.map thinking) := rfl

end Group

/-- What a group tells of its block.  A text starts with some of it.  The arguments of a call may be
left out if they are those of a call without any. -/
def Tells (block : Json) (g : Group) : Prop :=
  (kind block = some "text" ∧ g.GrowsBy "text_delta" ∧
    text g.block ++ g.pieces "text" = text block) ∨
  (kind block = some "thinking" ∧ g.GrowsBy "thinking_delta" ∧
    g.pieces "thinking" = thinking block) ∨
  (kind block = some "tool_use" ∧ g.GrowsBy "input_json_delta" ∧
    textAt ["id"] g.block = textAt ["id"] block ∧
    textAt ["name"] g.block = textAt ["name"] block ∧
    (g.pieces "partial_json" = arguments block ∨
      g.pieces "partial_json" = "" ∧ arguments block = emptyArguments))

instance (block : Json) (g : Group) : Decidable (Tells block g) :=
  inferInstanceAs (Decidable (_ ∨ _ ∨ _))

/-- The events of a group stream a block at a position. -/
@[mk_iff]
structure StreamsBlock (position : Nat) (block : Json) (g : Group) : Prop where
  start : IsAbout g.start "content_block_start" position
  deltas : ∀ event ∈ g.deltas, IsAbout event "content_block_delta" position
  stop : IsAbout g.stop "content_block_stop" position
  sameKind : kind g.block = kind block
  tells : Tells block g

instance (position : Nat) (block : Json) (g : Group) : Decidable (StreamsBlock position block g) :=
  decidable_of_iff' (IsAbout g.start "content_block_start" position ∧
      (g.deltas.all fun event => IsAbout event "content_block_delta" position) ∧
      IsAbout g.stop "content_block_stop" position ∧ kind g.block = kind block ∧ Tells block g)
    (by simp only [streamsBlock_iff, List.all_eq_true, decide_eq_true_eq])

/-! ### What an event says -/

/-- What an event says, if anything. -/
def said (event : Json) : Message :=
  ((kind event).bind (eventFragment? · event)).getD (.assistant "")

/-- What the start of a block says. -/
theorem blockStart_eq (block : Json) (index : UInt32) :
    blockStart block index =
      { Message.assistant (if kind block = some "text" then text block else "") with
        toolCalls := if kind block = some "tool_use" then [callOf block index ""] else [] } := by
  unfold blockStart
  split
  · next h => simp [kind, h, text, Message.assistant]
  · next h => simp [kind, h, Message.assistant]
  · next htext hcall =>
    have htext' : kind block ≠ some "text" := htext
    have hcall' : kind block ≠ some "tool_use" := hcall
    simp [htext', hcall', Message.assistant]

/-- A piece of the arguments of the call at an index. -/
def pieceOf (delta : Json) (index : UInt32) : ToolCall :=
  (ToolCall.ofFunction "" "" (textAt ["partial_json"] delta)).withIndex index

/-- What the growth of a block says. -/
theorem blockDelta_eq (delta : Json) (index : UInt32) :
    blockDelta delta index =
      { Message.assistant (if kind delta = some "text_delta" then text delta else "") with
        reasoning :=
          if kind delta = some "thinking_delta" then nonEmpty? (thinking delta) else none
        toolCalls :=
          if kind delta = some "input_json_delta" then [pieceOf delta index] else [] } := by
  unfold blockDelta
  split
  · next h => simp [kind, h, text, Message.assistant]
  · next h => simp [kind, h, thinking, textAt, bind_nonEmpty?, Message.assistant]
  · next h => simp [kind, h, pieceOf, Message.assistant]
  · next h₁ h₂ h₃ =>
    have h₁' : kind delta ≠ some "text_delta" := h₁
    have h₂' : kind delta ≠ some "thinking_delta" := h₂
    have h₃' : kind delta ≠ some "input_json_delta" := h₃
    simp [h₁', h₂', h₃', Message.assistant]

theorem blockIndex_of_isAbout {event : Json} {name : String} {position : Nat}
    (h : IsAbout event name position) : blockIndex event = UInt32.ofNat position := by
  simp [blockIndex, h.2]

variable {position : Nat} {event : Json}

theorem said_start (h : IsAbout event "content_block_start" position) :
    said event = blockStart (event.getD "content_block") (UInt32.ofNat position) := by
  simp [said, h.1, eventFragment?, blockIndex_of_isAbout h]

theorem said_delta (h : IsAbout event "content_block_delta" position) :
    said event = blockDelta (event.getD "delta") (UInt32.ofNat position) := by
  simp [said, h.1, eventFragment?, blockIndex_of_isAbout h]

theorem said_stop (h : IsAbout event "content_block_stop" position) :
    said event = .assistant "" := by
  simp [said, h.1, eventFragment?]

theorem fragment_eq (hkind : kind event ≠ none) (herror : kind event ≠ some "error") :
    fragment event = .ok (contentful? (said event)) := by
  have hfailure : failure? event = none := if_neg herror
  obtain ⟨name, hname⟩ := Option.ne_none_iff_exists'.mp hkind
  have htype : event.textAt? ["type"] = some name := hname
  have hempty : contentful? (.assistant "") = none := by decide
  simp only [fragment, hfailure, htype, said, hname, Option.bind_some]
  cases eventFragment? name event with
  | none => simp [hempty]
  | some f => rfl

/-! ### The events about one block -/

/-- What a block adds to the content. -/
def spoken (block : Json) : String :=
  if kind block = some "text" then text block else ""

/-- What a block adds to the reasoning. -/
def thought (block : Json) : String :=
  if kind block = some "thinking" then thinking block else ""

/-- The call of a block at an index, if it is one. -/
def call? (p : Json × Nat) : Option (UInt32 × ToolCall) :=
  if kind p.1 = some "tool_use" then
    some (UInt32.ofNat p.2, callOf p.1 (UInt32.ofNat p.2) (arguments p.1))
  else none

variable {block : Json} {g : Group}

theorem said_group (h : StreamsBlock position block g) :
    g.events.map said =
      blockStart g.block (UInt32.ofNat position) ::
        (g.growth.map (blockDelta · (UInt32.ofNat position)) ++ [.assistant ""]) := by
  have hdeltas : g.deltas.map said = g.growth.map (blockDelta · (UInt32.ofNat position)) := by
    rw [Group.growth, List.map_map]
    exact List.map_congr_left fun event hevent => said_delta (h.deltas event hevent)
  rw [Group.events, List.map_cons, List.map_append, hdeltas, said_start h.start,
    List.map_singleton, said_stop h.stop]
  rfl

/-- Growth of one kind says nothing of another. -/
theorem map_ite_of_growsBy {name : String} (h : g.GrowsBy name) {α : Type} (other : String)
    (f : Json → α) (b : α) :
    (g.growth.map fun delta => if kind delta = some other then f delta else b) =
      if name = other then g.growth.map f else g.growth.map fun _ => b := by
  by_cases hname : name = other
  · rw [if_pos hname]
    refine List.map_congr_left fun delta hdelta => ?_
    rw [if_pos (by rw [h delta hdelta, hname])]
  · rw [if_neg hname]
    refine List.map_congr_left fun delta hdelta => ?_
    rw [if_neg (by rw [h delta hdelta]; simpa using hname)]

/-- The group of a block says what the block says. -/
theorem texts_of_group (h : StreamsBlock position block g) :
    String.join ((g.events.map said).map Message.content) = spoken block ∧
      String.join ((g.events.map said).map fun f => f.reasoning.getD "") = thought block := by
  have hcontent : (g.events.map said).map Message.content =
      (if kind g.block = some "text" then text g.block else "") ::
        ((g.growth.map fun delta => if kind delta = some "text_delta" then text delta else "") ++
          [""]) := by
    rw [said_group h]
    simp [blockStart_eq, blockDelta_eq, Message.assistant, Function.comp_def]
  have hreasoning : ((g.events.map said).map fun f => f.reasoning.getD "") =
      "" :: ((g.growth.map fun delta =>
        if kind delta = some "thinking_delta" then thinking delta else "") ++ [""]) := by
    have hgetD (delta : Json) : (if kind delta = some "thinking_delta" then
        nonEmpty? (thinking delta) else none).getD "" =
          if kind delta = some "thinking_delta" then thinking delta else "" := by
      split
      · exact getD_nonEmpty? _
      · rfl
    rw [said_group h]
    simp [blockStart_eq, blockDelta_eq, Message.assistant, Function.comp_def, hgetD]
  rw [hcontent, hreasoning, h.sameKind, spoken, thought]
  -- A group grows in one way, so all its growth adds to one of the texts, or to none.
  rcases h.tells with ⟨hkind, hgrows, htext⟩ | ⟨hkind, hgrows, htext⟩ | ⟨hkind, hgrows, -⟩
  · rw [map_ite_of_growsBy hgrows, map_ite_of_growsBy hgrows, hkind]
    simpa [String.join_append] using htext
  · rw [map_ite_of_growsBy hgrows, map_ite_of_growsBy hgrows, hkind]
    simpa [String.join_append] using htext
  · rw [map_ite_of_growsBy hgrows, map_ite_of_growsBy hgrows, hkind]
    simp [String.join_append]

/-- The calls of a group are the start of the call and its pieces. -/
theorem calls_of_group (h : StreamsBlock position block g) :
    (g.events.map said).flatMap Message.toolCalls =
      if kind block = some "tool_use" then
        callOf block (UInt32.ofNat position) "" ::
          g.growth.map (pieceOf · (UInt32.ofNat position))
      else [] := by
  have hcalls : (g.events.map said).flatMap Message.toolCalls =
      (if kind g.block = some "tool_use" then
        [callOf g.block (UInt32.ofNat position) ""] else []) ++
      (g.growth.map fun delta => if kind delta = some "input_json_delta" then
        [pieceOf delta (UInt32.ofNat position)] else []).flatten := by
    rw [said_group h]
    simp [blockStart_eq, blockDelta_eq, Message.assistant, List.flatMap_def, Function.comp_def]
  rw [hcalls, h.sameKind]
  rcases h.tells with ⟨hkind, hgrows, -⟩ | ⟨hkind, hgrows, -⟩ | ⟨hkind, hgrows, hid, hname, -⟩
  · rw [map_ite_of_growsBy hgrows, hkind]
    simp
  · rw [map_ite_of_growsBy hgrows, hkind]
    simp
  · have hcall : callOf g.block (UInt32.ofNat position) "" =
        callOf block (UInt32.ofNat position) "" := by
      rw [callOf, callOf, hid, hname]
    have hpieces : (g.growth.map fun delta => [pieceOf delta (UInt32.ofNat position)]).flatten =
        g.growth.map (pieceOf · (UInt32.ofNat position)) := by
      rw [← List.flatMap_def, ← List.map_eq_flatMap]
    rw [map_ite_of_growsBy hgrows, if_pos hkind, if_pos hkind, if_pos rfl, hpieces, hcall]
    rfl

/-- The calls of a group gather to the call of the block, once they are closed if need be. -/
theorem gather_group (h : StreamsBlock position block g) :
    Assembler.gather none ((g.events.map said).flatMap Message.toolCalls ++
      Accumulator.closingAt emptyArguments (UInt32.ofNat position)
        (Accumulator.noted none ((g.events.map said).flatMap Message.toolCalls))) =
      some ((call? (block, position)).map Prod.snd) := by
  rw [calls_of_group h]
  by_cases hkind : kind block = some "tool_use"
  · rw [if_pos hkind, call?, if_pos hkind]
    obtain ⟨-, -, -, -, harguments⟩ : kind block = some "tool_use" ∧ _ :=
      (h.tells.resolve_left fun hne => by simp [hkind] at hne).resolve_left
        fun hne => by simp [hkind] at hne
    have hpieces : ∀ piece ∈ g.growth.map (pieceOf · (UInt32.ofNat position)),
        piece.id = "" ∧ piece.function.name = "" := by
      intro piece hpiece
      obtain ⟨delta, -, rfl⟩ := List.mem_map.mp hpiece
      exact ⟨rfl, rfl⟩
    have hjoined : String.join ((g.growth.map (pieceOf · (UInt32.ofNat position))).map
        fun c => c.function.arguments) = g.pieces "partial_json" := by
      rw [List.map_map]
      rfl
    -- The pieces come to the arguments, or there are none and the closing call brings them.
    have hresult : (if g.pieces "partial_json" = "" then emptyArguments
        else g.pieces "partial_json") = arguments block := by
      rcases harguments with h | ⟨hempty, h⟩
      · rw [h, if_neg (arguments_ne_empty block)]
      · rw [hempty, if_pos rfl, h]
    have hcall : callOf block (UInt32.ofNat position) (arguments block) =
        { callOf block (UInt32.ofNat position) "" with
          function := { (callOf block (UInt32.ofNat position) "").function with
            arguments := if g.pieces "partial_json" = "" then emptyArguments
              else g.pieces "partial_json" } } := by
      rw [hresult]
      rfl
    rw [Accumulator.gather_closed (by simp [callOf, ToolCall.ofFunction, ToolCall.withIndex]) rfl
      hpieces, hjoined, Option.map_some, hcall]
  · rw [if_neg hkind, call?, if_neg hkind]
    rfl

/-- The calls of a group are about its position. -/
theorem index_of_group (h : StreamsBlock position block g) :
    ∀ c ∈ (g.events.map said).flatMap Message.toolCalls,
      c.index = some (UInt32.ofNat position) := by
  intro c hc
  rw [calls_of_group h] at hc
  split at hc
  · rcases List.mem_cons.mp hc with rfl | hc
    · rfl
    · obtain ⟨delta, -, rfl⟩ := List.mem_map.mp hc
      rfl
  · simp at hc

/-- The call of a group is that of the block, and all that follows are pieces of its arguments. -/
theorem start_of_group (h : StreamsBlock position block g) :
    ∀ c ∈ (g.events.map said).flatMap Message.toolCalls, c.function.name = "" ∨
      kind block = some "tool_use" ∧ c.id = textAt ["id"] block ∧
        c.function.name = textAt ["name"] block := by
  intro c hc
  rw [calls_of_group h] at hc
  split at hc
  · next hkind =>
    rcases List.mem_cons.mp hc with rfl | hc
    · exact Or.inr ⟨hkind, rfl, rfl⟩
    · obtain ⟨delta, -, rfl⟩ := List.mem_map.mp hc
      exact Or.inl rfl
  · simp at hc

/-- What holds of everything said about a block: it is a fragment without a report and has one call
at most. -/
structure IsQuiet (f : Message) : Prop where
  isFragment : f.IsFragment
  info : f.info = none
  length : f.toolCalls.length ≤ 1

theorem isQuiet_of_group (h : StreamsBlock position block g) :
    ∀ f ∈ g.events.map said, IsQuiet f := by
  intro f hf
  rw [said_group h] at hf
  rcases List.mem_cons.mp hf with rfl | hf
  · rw [blockStart_eq]
    refine ⟨isFragment_of_no_report (by simp), rfl, ?_⟩
    simp only
    split <;> simp
  · rcases List.mem_append.mp hf with hf | hf
    · obtain ⟨delta, -, rfl⟩ := List.mem_map.mp hf
      rw [blockDelta_eq]
      refine ⟨isFragment_of_no_report ?_, rfl, ?_⟩
      · split
        · exact nonEmpty?_ne _
        · simp
      · simp only
        split <;> simp
    · rw [List.mem_singleton.mp hf]
      exact ⟨isFragment_of_no_report (by simp), rfl, by simp [Message.assistant]⟩

end ChatRelay.Claude
