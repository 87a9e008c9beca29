import ChatRelay.Proofs.Gemini.Rounds

/-!
# Turns of a conversation

Claude and Gemini hear a conversation in turns.  A message of the user or of the model is a turn of
its own, made of its text, its parts and its calls in this order, and tool messages that stand side
by side share one turn of the user, to which each adds its result (`Wording.Tells`).  A request
holds these turns and no others, and it fails just when some message is refused
(`Vendor.request_in_turns`).

That a run of tool messages is as long as it can be is said by what follows it, which does not begin
with a tool message.  So the turns are determined by the messages (`Wording.Words.tells_iff`),
although results are put into turns one by one, from the last to the first.

## Main definitions

* `Wording` — the blocks and the names in which a vendor words a conversation
* `Wording.Says`, `Wording.Answers` — what a message of the user or the model says, and what a run
  of tool messages answers
* `Wording.Tells` — the turns of a conversation
* `Vendor.Refuses` — messages that a vendor does not take
-/

namespace ChatRelay

open Result

namespace ToolCall

/-- The arguments of a call are not JSON.  Blank ones stand for no arguments. -/
def IsUnreadable (c : ToolCall) : Prop :=
  Text.trim c.function.arguments ≠ "" ∧ Json.read? (Text.trim c.function.arguments) = none

variable {c : ToolCall} {vendor : String}

/-- A call is put into the vendor's form with its arguments as a value. -/
theorem map_argumentsOf_eq_ok_iff {form : Json → Json} {block : Json} :
    (Vendor.argumentsOf vendor c).map form = .ok block ↔
      ∃ input, c.argumentsValue = .ok input ∧ block = form input := by
  rw [Vendor.argumentsOf, map_eq_ok_iff]
  cases c.argumentsValue <;> simp [eq_comm]

theorem exists_argumentsOf_eq_error_iff :
    (∃ e, Vendor.argumentsOf vendor c = .error e) ↔ c.IsUnreadable := by
  rw [Vendor.argumentsOf, IsUnreadable, argumentsValue]
  by_cases hblank : Text.trim c.function.arguments = ""
  · simp [hblank]
  · cases Json.read? (Text.trim c.function.arguments) <;> simp [hblank]

end ToolCall

/-- A message of the user or of the model. -/
def Message.Speaks (m : Message) : Prop :=
  m.role = .user ∨ m.role = .assistant

theorem Message.speaks_iff {m : Message} : m.Speaks ↔ m.role ≠ .system ∧ m.role ≠ .tool := by
  unfold Speaks
  cases m.role <;> simp

/-! ### The words of a vendor -/

/-- How a vendor words the turns of a conversation. -/
structure Wording where
  speaker : Role → String
  /-- The member of a turn that holds its blocks. -/
  blocksKey : String
  /-- A text as a block. -/
  text : String → Json
  /-- A part and the block that stands for it. -/
  IsPart : Part → Json → Prop
  /-- A call as a block, with its arguments as a value. -/
  call : ToolCall → (input : Json) → Json
  /-- A tool message, after those before it, latest first, and the block that holds its result. -/
  IsResult : (earlier : List Message) → Message → Json → Prop

namespace Wording

variable (w : Wording)

/-- A call and the block that stands for it. -/
def IsCall (c : ToolCall) (block : Json) : Prop :=
  ∃ input, c.argumentsValue = .ok input ∧ block = w.call c input

/-- What a message says: its text if it has any, then its parts, then its calls. -/
def Says (m : Message) (blocks : List Json) : Prop :=
  ∃ parts calls, List.Forall₂ w.IsPart m.parts parts ∧ List.Forall₂ w.IsCall m.toolCalls calls ∧
    blocks = (if m.content = "" then [] else [w.text m.content]) ++ parts ++ calls

/-- The results of some tool messages, one for each, in order. -/
inductive Answers : (earlier : List Message) → List Message → List Json → Prop
  | nil {earlier : List Message} : Answers earlier [] []
  | cons {earlier ms : List Message} {m : Message} {block : Json} {blocks : List Json}
      (hresult : w.IsResult earlier m block) (hrest : Answers (m :: earlier) ms blocks) :
      Answers earlier (m :: ms) (block :: blocks)

/-- The turns of messages, given those before them, latest first.  What the user or the model says
is one turn, and so are the results of a run of tool messages that no tool message continues. -/
inductive Tells : (earlier : List Message) → List Message → List Turn → Prop
  | nil {earlier : List Message} : Tells earlier [] []
  | system {earlier ms : List Message} {m : Message} {turns : List Turn} (hrole : m.role = .system)
      (hrest : Tells (m :: earlier) ms turns) : Tells earlier (m :: ms) turns
  | said {earlier ms : List Message} {m : Message} {blocks : List Json} {turns : List Turn}
      (hrole : m.Speaks) (hblocks : w.Says m blocks) (hrest : Tells (m :: earlier) ms turns) :
      Tells earlier (m :: ms) (.said m.role blocks :: turns)
  | results {earlier run ms : List Message} {blocks : List Json} {turns : List Turn}
      (hrun : run ≠ []) (htool : ∀ m ∈ run, m.role = .tool)
      (hmaximal : ∀ m ∈ ms.head?, m.role ≠ .tool) (hanswers : w.Answers earlier run blocks)
      (hrest : Tells (run.reverse ++ earlier) ms turns) :
      Tells earlier (run ++ ms) (.results blocks :: turns)

/-- A turn.  The user says the results of tools. -/
def turnJson : Turn → Json
  | .said role blocks => .ofMembers [("role", .text (w.speaker role)), (w.blocksKey, .array blocks)]
  | .results blocks => .ofMembers [("role", .text (w.speaker .user)), (w.blocksKey, .array blocks)]

/-- How a vendor takes messages comes to its words. -/
structure Words (rules : Contribution.Rules) : Prop where
  say : ∀ {m blocks}, rules.say m = .ok blocks ↔ w.Says m blocks
  answer : ∀ {earlier m block}, rules.answer earlier m = .ok block ↔ w.IsResult earlier m block

end Wording

/-! ### Messages in turns -/

/-- Results that no result follows share one turn. -/
theorem Turn.ofContributions_map_result {rs : List Json} (hne : rs ≠ []) {cs : List Contribution}
    (hcs : ∀ s ds, cs ≠ .result s :: ds) :
    ofContributions (rs.map .result ++ cs) = .results rs :: ofContributions cs := by
  induction rs with
  | nil => exact absurd rfl hne
  | cons r rs ih =>
      cases rs with
      | nil => exact ofContributions_result hcs
      | cons s rs =>
          have hrest := ih (by simp)
          simp only [List.map_cons, List.cons_append] at hrest ⊢
          rw [ofContributions_result_result, hrest]
          rfl

namespace Wording

variable {w : Wording} {rules : Contribution.Rules} {earlier ms : List Message} {m : Message}
  {turns : List Turn} {block : Json}

/-- Where a tool message comes first, its run does. -/
theorem Tells.exists_of_tool (h : w.Tells earlier ms turns) (hrole : ∀ m ∈ ms.head?, m.role = .tool)
    (hne : ms ≠ []) : ∃ run rest blocks turns', ms = run ++ rest ∧
      turns = .results blocks :: turns' ∧ (∀ m ∈ run, m.role = .tool) ∧
      (∀ m ∈ rest.head?, m.role ≠ .tool) ∧ w.Answers earlier run blocks ∧
      w.Tells (run.reverse ++ earlier) rest turns' := by
  cases h with
  | nil => exact absurd rfl hne
  | system hsystem => simp [hsystem] at hrole
  | said hsaid => exact absurd (hrole _ rfl) (Message.speaks_iff.mp hsaid).2
  | results _ htool hmaximal hanswers hrest =>
      exact ⟨_, _, _, _, rfl, rfl, htool, hmaximal, hanswers, hrest⟩

/-- A tool message joins the run that follows it. -/
theorem Tells.join {n : Message} (hrole : m.role = .tool) (hresult : w.IsResult earlier m block)
    (hnext : n.role = .tool) (h : w.Tells (m :: earlier) (n :: ms) turns) :
    w.Tells earlier (m :: n :: ms) (Turn.consResult block turns) := by
  obtain ⟨run, rest, blocks, turns', hms, rfl, htool, hmaximal, hanswers, hrest⟩ :=
    h.exists_of_tool (by simpa using hnext) (by simp)
  rw [hms, ← List.cons_append]
  refine .results (by simp) (List.forall_mem_cons.mpr ⟨hrole, htool⟩) hmaximal
    (.cons hresult hanswers) ?_
  rw [List.reverse_cons, List.append_assoc]
  exact hrest

/-- A tool message that none follows is a run of its own. -/
theorem Tells.alone (hrole : m.role = .tool) (hresult : w.IsResult earlier m block)
    (hnext : ∀ n ∈ ms.head?, n.role ≠ .tool) (h : w.Tells (m :: earlier) ms turns) :
    w.Tells earlier (m :: ms) (.results [block] :: turns) := by
  have hrun : ∀ n ∈ [m], n.role = .tool := by simpa using hrole
  exact .results (by simp) hrun hnext (.cons hresult .nil) h

namespace Words

variable (hw : w.Words rules)
include hw

/-- A run of tool messages adds its results. -/
theorem ofMessagesFrom_of_answers {blocks : List Json} (h : w.Answers earlier ms blocks)
    (htool : ∀ m ∈ ms, m.role = .tool) :
    Contribution.ofMessagesFrom rules earlier ms = .ok (blocks.map .result) := by
  induction h with
  | nil => rfl
  | cons hresult _ ih =>
      obtain ⟨hrole, hrest⟩ := List.forall_mem_cons.mp htool
      refine Contribution.ofMessagesFrom_cons_eq_ok_iff.mpr ⟨_, _, ?_, ih hrest, rfl⟩
      rw [Contribution.ofMessage_of_tool hrole]
      exact map_eq_ok_iff.mpr ⟨_, hw.answer.mpr hresult, rfl⟩

theorem exists_of_tells (h : w.Tells earlier ms turns) :
    ∃ cs, Contribution.ofMessagesFrom rules earlier ms = .ok cs ∧
      Turn.ofContributions cs = turns := by
  induction h with
  | nil => exact ⟨[], rfl, rfl⟩
  | system hrole _ ih =>
      obtain ⟨cs, hcs, hturns⟩ := ih
      exact ⟨_, Contribution.ofMessagesFrom_cons_eq_ok_iff.mpr
        ⟨_, cs, Contribution.ofMessage_of_system hrole, hcs, rfl⟩, hturns⟩
  | @said _ _ m blocks _ hrole hblocks _ ih =>
      obtain ⟨cs, hcs, rfl⟩ := ih
      obtain ⟨hsystem, htool⟩ := Message.speaks_iff.mp hrole
      refine ⟨.said m.role blocks :: cs,
        Contribution.ofMessagesFrom_cons_eq_ok_iff.mpr ⟨_, cs, ?_, hcs, rfl⟩, rfl⟩
      rw [Contribution.ofMessage_of_spoken hsystem htool]
      exact map_eq_ok_iff.mpr ⟨blocks, hw.say.mpr hblocks, rfl⟩
  | @results earlier run ms blocks turns hrun htool hmaximal hanswers _ ih =>
      obtain ⟨cs, hcs, rfl⟩ := ih
      -- The run is as long as it can be, so no later result joins its turn.
      have hnext : ∀ s ds, cs ≠ .result s :: ds := by
        intro s ds hds
        obtain ⟨n, rest, rfl, hrole⟩ := (Contribution.exists_result_iff hcs).mp ⟨s, ds, hds⟩
        exact hmaximal n rfl hrole
      have hblocks : blocks ≠ [] := by
        cases hanswers with
        | nil => exact absurd rfl hrun
        | cons => simp
      exact ⟨blocks.map .result ++ cs, Contribution.ofMessagesFrom_append_eq_ok_iff.mpr
        ⟨_, cs, hw.ofMessagesFrom_of_answers hanswers htool, hcs, rfl⟩,
        Turn.ofContributions_map_result hblocks hnext⟩

/-- Results are put into turns one by one, so each message is told in front of those after it. -/
theorem tells_of_ofMessagesFrom {cs : List Contribution}
    (h : Contribution.ofMessagesFrom rules earlier ms = .ok cs) :
    w.Tells earlier ms (Turn.ofContributions cs) := by
  induction ms generalizing earlier cs with
  | nil =>
      cases h
      exact .nil
  | cons m ms ih =>
      obtain ⟨c, cs, hc, hcs, rfl⟩ := Contribution.ofMessagesFrom_cons_eq_ok_iff.mp h
      have hrest := ih hcs
      by_cases hsystem : m.role = .system
      · rw [Contribution.ofMessage_of_system hsystem] at hc
        cases hc
        exact .system hsystem hrest
      · by_cases htool : m.role = .tool
        · rw [Contribution.ofMessage_of_tool htool] at hc
          obtain ⟨block, hblock, rfl⟩ := map_eq_ok_iff.mp hc
          have hresult := hw.answer.mp hblock
          -- The result joins a turn just when the next message is one of a tool too.
          by_cases hnext : ∃ s ds, cs = .result s :: ds
          · obtain ⟨n, rest, rfl, hrole⟩ := (Contribution.exists_result_iff hcs).mp hnext
            obtain ⟨s, ds, rfl⟩ := hnext
            rw [Turn.ofContributions_result_result]
            exact hrest.join htool hresult hrole
          · rw [Turn.ofContributions_result fun s ds hds => hnext ⟨s, ds, hds⟩]
            refine hrest.alone htool hresult fun n hn hrole => hnext ?_
            obtain ⟨rest, rfl⟩ : ∃ rest, ms = n :: rest := List.head?_eq_some_iff.mp hn
            exact (Contribution.exists_result_iff hcs).mpr ⟨n, rest, rfl, hrole⟩
        · rw [Contribution.ofMessage_of_spoken hsystem htool] at hc
          obtain ⟨blocks, hblocks, rfl⟩ := map_eq_ok_iff.mp hc
          exact .said (Message.speaks_iff.mpr ⟨hsystem, htool⟩) (hw.say.mp hblocks) hrest

/-- **The turns of messages are what they add to the conversation, grouped.** -/
theorem tells_iff : w.Tells earlier ms turns ↔
    ∃ cs, Contribution.ofMessagesFrom rules earlier ms = .ok cs ∧
      Turn.ofContributions cs = turns := by
  refine ⟨hw.exists_of_tells, ?_⟩
  rintro ⟨cs, hcs, rfl⟩
  exact hw.tells_of_ofMessagesFrom hcs

end Words

end Wording

theorem Contribution.exists_ofMessage_eq_error_iff {rules : Rules} {earlier : List Message}
    {m : Message} : (∃ e, ofMessage rules earlier m = .error e) ↔
      m.Speaks ∧ (∃ e, rules.say m = .error e) ∨
        m.role = .tool ∧ ∃ e, rules.answer earlier m = .error e := by
  rw [Message.speaks_iff]
  by_cases hsystem : m.role = .system
  · simp [ofMessage_of_system hsystem, hsystem]
  · by_cases htool : m.role = .tool
    · simp [ofMessage_of_tool htool, htool, exists_map_eq_error_iff]
    · simp [ofMessage_of_spoken hsystem htool, hsystem, htool, exists_map_eq_error_iff]

/-- Messages are put into the vendor's form unless one of them is not, after those before it. -/
theorem Contribution.exists_ofMessagesFrom_eq_error_iff {rules : Rules}
    {earlier ms : List Message} : (∃ e, ofMessagesFrom rules earlier ms = .error e) ↔
      ∃ before m after, ms = before ++ m :: after ∧
        ∃ e, ofMessage rules (before.reverse ++ earlier) m = .error e := by
  induction ms generalizing earlier with
  | nil =>
      refine iff_of_false ?_ (by simp)
      rintro ⟨e, he⟩
      cases he
  | cons m ms ih =>
      rw [ofMessagesFrom, exists_both_eq_error_iff, ih]
      constructor
      · rintro (herror | ⟨before, n, after, rfl, herror⟩)
        · exact ⟨[], m, ms, rfl, herror⟩
        · exact ⟨m :: before, n, after, rfl, by simpa using herror⟩
      · rintro ⟨_ | ⟨m', before⟩, n, after, hms, herror⟩
        · cases hms
          exact Or.inl herror
        · cases hms
          exact Or.inr ⟨before, n, after, rfl, by simpa using herror⟩

/-! ### Claude -/

namespace Claude

/-- A part and its block, with a picture as its data or as an address. -/
inductive IsPart : Part → Json → Prop
  | text (text : String) :
      IsPart (.text text) (.ofMembers [("type", .text "text"), ("text", .text text)])
  | data {m : Media} {mime data : String} (hdata : m.inlineData? = some (mime, data)) :
      IsPart (.image m) (.ofMembers [("type", .text "image"), ("source", .ofMembers [
        ("type", .text "base64"), ("media_type", .text mime), ("data", .text data)])])
  | address {m : Media} (hdata : m.inlineData? = none) :
      IsPart (.image m) (.ofMembers [("type", .text "image"), ("source", .ofMembers [
        ("type", .text "url"), ("url", .text m.url)])])

/-- Claude matches the result of a tool with the id of the call. -/
def wording : Wording where
  speaker := Role.name
  blocksKey := "content"
  text := fun text => .ofMembers [("type", .text "text"), ("text", .text text)]
  IsPart := IsPart
  call := fun c input => .ofMembers [("type", .text "tool_use"), ("id", .text c.id),
    ("name", .text c.function.name), ("input", input)]
  IsResult := fun _ m block => block = .ofMembers [("type", .text "tool_result"),
    ("tool_use_id", .text (m.toolCallId.getD "")), ("content", .text m.content)]

variable {p : Part} {c : ToolCall} {m : Message}

theorem partJson?_eq_ok_iff {block : Json} : partJson? p = .ok block ↔ IsPart p block := by
  constructor
  · intro h
    cases p with
    | text text =>
        cases h
        exact .text text
    | image m =>
        cases h
        rw [sourceJson]
        cases hdata : m.inlineData? with
        | none => exact .address hdata
        | some found => exact .data hdata
    | audio m => cases h
    | video m => cases h
  · rintro (_ | hdata | hdata)
    · rfl
    · rw [partJson?, sourceJson, hdata]
    · rw [partJson?, sourceJson, hdata]

theorem callJson?_eq_ok_iff {block : Json} : callJson? c = .ok block ↔ wording.IsCall c block :=
  ToolCall.map_argumentsOf_eq_ok_iff

theorem words_rules : wording.Words rules where
  say := by
    intro m blocks
    simp only [rules, blocks?, bind_eq_ok_iff, mapM_eq_ok_iff_forall₂, partJson?_eq_ok_iff,
      callJson?_eq_ok_iff, String.isEmpty_iff]
    constructor
    · rintro ⟨parts, hparts, calls, hcalls, hblocks⟩
      cases hblocks
      exact ⟨parts, calls, hparts, hcalls, rfl⟩
    · rintro ⟨parts, calls, hparts, hcalls, rfl⟩
      exact ⟨parts, hparts, calls, hcalls, rfl⟩
  answer := by
    intro earlier m block
    simp [rules, resultJson, wording, eq_comm]

theorem exists_partJson?_eq_error_iff :
    (∃ e, partJson? p = .error e) ↔ ∃ m, p = .audio m ∨ p = .video m := by
  cases p <;> simp [partJson?]

theorem exists_blocks?_eq_error_iff : (∃ e, blocks? m = .error e) ↔
    (∃ p ∈ m.parts, ∃ source, p = .audio source ∨ p = .video source) ∨
      ∃ c ∈ m.toolCalls, c.IsUnreadable := by
  simp only [blocks?, exists_both_eq_error_iff, exists_mapM_eq_error_iff,
    exists_partJson?_eq_error_iff, callJson?, exists_map_eq_error_iff,
    ToolCall.exists_argumentsOf_eq_error_iff]

end Claude

/-! ### Gemini -/

namespace Gemini

/-- A part and its block, with a picture, sound or film as its data or as an address. -/
inductive IsPart : Part → Json → Prop
  | text (text : String) : IsPart (.text text) (.ofMembers [("text", .text text)])
  | data {p : Part} {m : Media} {mime data : String} (hmedia : p.media? = some m)
      (hdata : m.inlineData? = some (mime, data)) :
      IsPart p (.ofMembers [("inlineData", .ofMembers [("mimeType", .text mime),
        ("data", .text data)])])
  | address {p : Part} {m : Media} (hmedia : p.media? = some m) (hdata : m.inlineData? = none) :
      IsPart p (.ofMembers [("fileData", .ofMembers [
        ("mimeType", .text (m.mimeType.getD "application/octet-stream")),
        ("fileUri", .text m.url)])])

/-- Gemini matches the result of a tool with the name of the function. -/
def wording : Wording where
  speaker := fun role => if role = .assistant then "model" else "user"
  blocksKey := "parts"
  text := fun text => .ofMembers [("text", .text text)]
  IsPart := IsPart
  call := fun c input => .ofMembers [("functionCall", .ofMembers [
    ("name", .text c.function.name), ("args", input)])]
  IsResult := fun earlier m block => ∃ name, functionName? earlier m = some name ∧
    block = .ofMembers [("functionResponse", .ofMembers [("name", .text name),
      ("response", .ofMembers [("content", .text m.content)])])]

variable {p : Part} {c : ToolCall} {m : Message} {earlier : List Message}

theorem isPart_iff {block : Json} : IsPart p block ↔ partJson p = block := by
  have hmedia : ∀ m, p.media? = some m → (IsPart p block ↔ mediaJson m = block) := by
    intro m hm
    rw [mediaJson]
    constructor
    · rintro (_ | ⟨hm', hdata⟩ | ⟨hm', hdata⟩)
      · cases hm
      · obtain rfl := Option.some.inj (hm.symm.trans hm')
        rw [hdata]
      · obtain rfl := Option.some.inj (hm.symm.trans hm')
        rw [hdata]
    · rintro rfl
      cases hdata : m.inlineData? with
      | none => exact .address hm hdata
      | some found => exact .data hm hdata
  cases p with
  | text text =>
      constructor
      · rintro (_ | ⟨hm, -⟩ | ⟨hm, -⟩)
        · rfl
        · cases hm
        · cases hm
      · rintro rfl
        exact .text text
  | image m => exact hmedia m rfl
  | audio m => exact hmedia m rfl
  | video m => exact hmedia m rfl

theorem forall₂_isPart_iff {parts : List Part} {blocks : List Json} :
    List.Forall₂ IsPart parts blocks ↔ parts.map partJson = blocks := by
  rw [← List.forall₂_eq_eq_eq, List.forall₂_map_left_iff]
  simp only [← isPart_iff]

theorem callJson?_eq_ok_iff {block : Json} : callJson? c = .ok block ↔ wording.IsCall c block :=
  ToolCall.map_argumentsOf_eq_ok_iff

theorem words_rules : wording.Words rules where
  say := by
    intro m blocks
    simp only [rules, parts?, bind_eq_ok_iff, mapM_eq_ok_iff_forall₂, callJson?_eq_ok_iff,
      String.isEmpty_iff]
    constructor
    · rintro ⟨calls, hcalls, hblocks⟩
      cases hblocks
      exact ⟨_, calls, forall₂_isPart_iff.mpr rfl, hcalls, rfl⟩
    · rintro ⟨parts, calls, hparts, hcalls, rfl⟩
      obtain rfl := forall₂_isPart_iff.mp hparts
      exact ⟨calls, hcalls, rfl⟩
  answer := by
    intro earlier m block
    simp only [rules, resultJson?, wording]
    cases functionName? earlier m <;> simp [eq_comm]

theorem exists_parts?_eq_error_iff :
    (∃ e, parts? m = .error e) ↔ ∃ c ∈ m.toolCalls, c.IsUnreadable := by
  rw [show parts? m = (m.toolCalls.mapM callJson?).map fun calls =>
    (if m.content.isEmpty then [] else [textJson m.content]) ++ m.parts.map partJson ++ calls from
      rfl]
  simp only [exists_map_eq_error_iff, exists_mapM_eq_error_iff, callJson?,
    ToolCall.exists_argumentsOf_eq_error_iff]

/-- The function of a tool message cannot be told just when it names none itself and no call before
it has the id that it answers. -/
theorem exists_resultJson?_eq_error_iff : (∃ e, resultJson? earlier m = .error e) ↔
    NamesNoFunction m ∧ ∀ id, m.toolCallId = some id →
      ∀ c ∈ earlier.flatMap (·.toolCalls), c.id ≠ id := by
  have hnone : (∃ e, resultJson? earlier m = .error e) ↔ functionName? earlier m = none := by
    rw [resultJson?]
    cases functionName? earlier m <;> simp
  have hname : m.toolName.bind Vendor.nonEmpty? = none ↔ NamesNoFunction m := by
    simp [NamesNoFunction, Option.bind_eq_none_iff, Vendor.nonEmpty?]
  have hcall : (m.toolCallId.bind fun id =>
        ((earlier.flatMap (·.toolCalls)).find? (·.id == id)).map (·.function.name)) = none ↔
      ∀ id, m.toolCallId = some id → ∀ c ∈ earlier.flatMap (·.toolCalls), c.id ≠ id := by
    simp only [Option.bind_eq_none_iff, Option.map_eq_none_iff, List.find?_eq_none, beq_iff_eq]
  rw [hnone, functionName?, Option.or_eq_none_iff, hname, hcall]

end Gemini

/-! ### Requests -/

namespace Vendor

/-- The vendors that hear a conversation in turns. -/
def wording? : Vendor → Option Wording
  | claude _ => some Claude.wording
  | gemini _ => some Gemini.wording
  | _ => none

/-- A message, after those before it in order, that a vendor does not take: a call has arguments
that are not JSON, Claude is given a sound or a film, or Gemini the result of a function that cannot
be told. -/
inductive Refuses : Vendor → (before : List Message) → Message → Prop
  | arguments {v : Vendor} {before : List Message} {m : Message} {c : ToolCall} (hrole : m.Speaks)
      (hcall : c ∈ m.toolCalls) (hunreadable : c.IsUnreadable) : Refuses v before m
  | part {config : Claude.Config} {before : List Message} {m : Message} {p : Part}
      {source : Media} (hrole : m.Speaks) (hpart : p ∈ m.parts)
      (hkind : p = .audio source ∨ p = .video source) : Refuses (claude config) before m
  | result {config : Gemini.Config} {before : List Message} {m : Message} (hrole : m.role = .tool)
      (hname : Gemini.NamesNoFunction m) (hcall : ∀ id, m.toolCallId = some id →
        ∀ c ∈ before.flatMap (·.toolCalls), c.id ≠ id) : Refuses (gemini config) before m

variable {v : Vendor} {w : Wording} {form : SystemForm} {before : List Message} {m : Message}

theorem exists_form (hv : v.wording? = some w) :
    ∃ form, v.systemForm? = some form ∧ w.Words form.rules ∧ form.turnJson = w.turnJson := by
  cases v with
  | openAI c => cases hv
  | ollama c => cases hv
  | claude c =>
      cases hv
      exact ⟨_, rfl, Claude.words_rules, funext fun turn => by cases turn <;> rfl⟩
  | gemini c =>
      cases hv
      refine ⟨_, rfl, Gemini.words_rules, funext fun turn => ?_⟩
      cases turn with
      | said role blocks => cases role <;> rfl
      | results blocks => rfl

theorem exists_ofMessage_eq_error_iff (hv : v.systemForm? = some form) :
    (∃ e, Contribution.ofMessage form.rules (before.reverse ++ []) m = .error e) ↔
      v.Refuses before m := by
  rw [Contribution.exists_ofMessage_eq_error_iff]
  cases v with
  | openAI c => cases hv
  | ollama c => cases hv
  | claude c =>
      cases hv
      simp only [Claude.rules, Claude.exists_blocks?_eq_error_iff]
      constructor
      · rintro (⟨hrole, ⟨p, hp, source, hkind⟩ | ⟨c, hc, hunreadable⟩⟩ | ⟨-, e, he⟩)
        · exact .part hrole hp hkind
        · exact .arguments hrole hc hunreadable
        · cases he
      · rintro (⟨hrole, hc, hunreadable⟩ | ⟨hrole, hp, hkind⟩)
        · exact Or.inl ⟨hrole, Or.inr ⟨_, hc, hunreadable⟩⟩
        · exact Or.inl ⟨hrole, Or.inl ⟨_, hp, _, hkind⟩⟩
  | gemini c =>
      cases hv
      simp only [Gemini.rules, Gemini.exists_parts?_eq_error_iff,
        Gemini.exists_resultJson?_eq_error_iff]
      constructor
      · rintro (⟨hrole, c, hc, hunreadable⟩ | ⟨hrole, hname, hcall⟩)
        · exact .arguments hrole hc hunreadable
        · exact .result hrole hname (by simpa using hcall)
      · rintro (⟨hrole, hc, hunreadable⟩ | _ | ⟨hrole, hname, hcall⟩)
        · exact Or.inl ⟨hrole, _, hc, hunreadable⟩
        · exact Or.inr ⟨hrole, hname, by simpa using hcall⟩

/-- **A request holds the turns of its messages, and it is made unless one of them is refused.**
Each message of the user or the model is a turn of its own, and each run of tool messages is one
more, with a result for each; there is no other way to tell the messages in turns. -/
theorem request_in_turns (hv : v.wording? = some w) (r : ChatRequest) (stream : Bool) :
    (∀ wire, v.request r stream = .ok wire → ∃ turns,
      wire.body.get? v.turnsKey = some (.array (turns.map w.turnJson)) ∧
      ∀ turns', w.Tells [] r.messages turns' ↔ turns' = turns) ∧
    ((∃ e, v.request r stream = .error e) ↔
      ∃ before m after, r.messages = before ++ m :: after ∧ v.Refuses before m) := by
  obtain ⟨form, hform, hwords, hturnJson⟩ := exists_form hv
  obtain ⟨wireOf, hrequest, -, hturns, -⟩ := exists_request_eq hform stream
  constructor
  · intro wire hwire
    rw [hrequest] at hwire
    obtain ⟨cs, hcs, hpure⟩ := bind_eq_ok_iff.mp hwire
    cases hpure
    refine ⟨Turn.ofContributions cs, hturnJson ▸ hturns r cs, fun turns' => ?_⟩
    rw [hwords.tells_iff]
    constructor
    · rintro ⟨ds, hds, rfl⟩
      obtain rfl : cs = ds := Except.ok.inj (hcs.symm.trans hds)
      rfl
    · rintro rfl
      exact ⟨cs, hcs, rfl⟩
  · have hmade : (∃ e, v.request r stream = .error e) ↔
        ∃ e, Contribution.ofMessages form.rules r.messages = .error e := by
      rw [hrequest]
      exact exists_map_eq_error_iff
    rw [hmade, Contribution.ofMessages, Contribution.exists_ofMessagesFrom_eq_error_iff]
    simp only [exists_ofMessage_eq_error_iff hform]

/-- A picture, two calls, and their results in the other order. -/
def lookedUp : List Message := [
  { role := .user, content := "Look.", parts := [.image ⟨"data:image/png;base64,QUJD", none⟩] },
  { role := .assistant, toolCalls := [{ id := "a", function := { name := "look" } },
      { id := "b", function := { name := "find", arguments := "[true]" } }] },
  { role := .tool, toolCallId := some "b", content := "2" },
  { role := .tool, toolCallId := some "a", content := "1" },
  .user "Thanks."]

/-- The turns in which Gemini hears them. -/
def lookedUpTurns : List Turn := [
  .said .user [.ofMembers [("text", .text "Look.")], .ofMembers [("inlineData", .ofMembers [
    ("mimeType", .text "image/png"), ("data", .text "QUJD")])]],
  .said .assistant [
    .ofMembers [("functionCall", .ofMembers [("name", .text "look"), ("args", .empty)])],
    .ofMembers [("functionCall", .ofMembers [("name", .text "find"),
      ("args", .array [.bool true])])]],
  .results [.ofMembers [("functionResponse", Gemini.responseJson "find" "2")],
    .ofMembers [("functionResponse", Gemini.responseJson "look" "1")]],
  .said .user [.ofMembers [("text", .text "Thanks.")]]]

/-- The results share a turn between that of the model and that of the user.  With a sound in one
more message Claude is not asked. -/
theorem request_in_turns_lookedUp :
    (∃ wire, (gemini { http := default }).request { messages := lookedUp } false = .ok wire ∧
      wire.body.get? "contents" = some (.array (lookedUpTurns.map Gemini.wording.turnJson))) ∧
    ∃ e, (claude { http := default }).request
      { messages := lookedUp ++
        [{ role := .user, parts := [.audio ⟨"https://host/a.wav", none⟩] }] } false = .error e := by
  constructor
  · obtain ⟨wire, hwire⟩ : ∃ wire, (gemini { http := default }).request { messages := lookedUp }
      false = .ok wire := ⟨_, rfl⟩
    obtain ⟨turns, hturns, htells⟩ := (request_in_turns (v := gemini { http := default }) rfl
      { messages := lookedUp } false).1 wire hwire
    have hpicture : List.Forall₂ Gemini.IsPart lookedUp[0].parts
        [.ofMembers [("inlineData", .ofMembers [("mimeType", .text "image/png"),
          ("data", .text "QUJD")])]] := .cons (.data rfl (by decide)) .nil
    have hcalls : List.Forall₂ Gemini.wording.IsCall lookedUp[1].toolCalls
        [Gemini.wording.call lookedUp[1].toolCalls[0] .empty,
          Gemini.wording.call lookedUp[1].toolCalls[1] (.array [.bool true])] :=
      .cons ⟨.empty, rfl, rfl⟩ (.cons ⟨.array [.bool true], rfl, rfl⟩ .nil)
    have hanswers : Gemini.wording.Answers [lookedUp[1], lookedUp[0]] [lookedUp[2], lookedUp[3]]
        [.ofMembers [("functionResponse", Gemini.responseJson "find" "2")],
          .ofMembers [("functionResponse", Gemini.responseJson "look" "1")]] :=
      .cons ⟨"find", by decide, rfl⟩ (.cons ⟨"look", by decide, rfl⟩ .nil)
    have hthanks : ∀ earlier, Gemini.wording.Tells earlier [.user "Thanks."]
        [.said .user [.ofMembers [("text", .text "Thanks.")]]] :=
      fun earlier => .said (Or.inl rfl) ⟨[], [], .nil, .nil, rfl⟩ .nil
    have htold : Gemini.wording.Tells [] lookedUp lookedUpTurns :=
      .said (Or.inl rfl) ⟨_, [], hpicture, .nil, rfl⟩ (.said (Or.inr rfl) ⟨[], _, .nil, hcalls, rfl⟩
        (.results (by simp) (by simp [lookedUp]) (by simp [Message.user]) hanswers (hthanks _)))
    obtain rfl := (htells _).mp htold
    exact ⟨wire, hwire, hturns⟩
  · refine (request_in_turns (v := claude { http := default }) rfl _ false).2.mpr
      ⟨lookedUp, _, [], rfl, ?_⟩
    exact .part (Or.inl rfl) List.mem_cons_self (Or.inl rfl)

end Vendor

end ChatRelay
