import ChatRelay.Proofs.Claude.Stream
import ChatRelay.Proofs.Gemini.Stream
import ChatRelay.Proofs.Json.Layout
import ChatRelay.Proofs.Ollama.Stream
import ChatRelay.Proofs.OpenAI.Deltas
import ChatRelay.Proofs.Vendor.Conversation

/-!
# Sending a reply back

The message of a reply can be sent back as a turn of the model, and that turn holds the calls of the
reply, in their order, with the names, the ids where the vendor carries them, and the arguments of
the reply (`Vendor.replay_repeats`).

Most vendors state arguments as a value, while a message holds their text.  So the value is written
and read again, and the result rests on reading back what is written.  Trimming does not come in
between, as the compact text of a value neither begins nor ends with white space
(`ToolCall.argumentsValue_of_write`).

## Main definitions

* `CallForm` — where the parts of a call stand in the form of a vendor
* `CallForm.Names`, `CallForm.Repeats` — what a reply must tell of a call, and a call that is sent
  back as it was
* `Vendor.replyCalls`, `Vendor.turnCalls` — the calls of a reply and those of a turn
-/

namespace ChatRelay

open Result

namespace Json

variable {v : Json} {path : List String}

theorem at?_singleton {key : String} (hkey : position? key = none) (v : Json) :
    v.at? [key] = v.get? key := by
  cases v with
  | object members => simp [at?]
  | array items => simp [at?, hkey, get?]
  | _ => rfl

/-- A text at the end of a path. -/
theorem at?_of_textAt? (h : v.textAt? path ≠ none) :
    v.at? path = some (.text (Vendor.textAt path v)) := by
  unfold Vendor.textAt
  rw [textAt?] at h ⊢
  rcases hat : v.at? path with _ | _ | _ | _ | s | _ | _ <;> simp_all [asText?]

/-- The empty object is read back. -/
theorem read?_write_empty : read? empty.write = some empty := by
  decide_cbv

end Json

/-- **Arguments that were written are read as the value that they were.** -/
theorem ToolCall.argumentsValue_of_write {c : ToolCall} {v : Json}
    (hread : Json.read? v.write = some v) (hwrite : c.function.arguments = v.write) :
    c.argumentsValue = .ok v := by
  have hspaced : Json.Spaced (Json.lexemes v) (Text.trimChars (Json.writeChars v)) := by
    rw [← Json.flatten_lexemes]
    exact (Json.spaced_flatten _).trimChars (Json.isLexeme_of_mem_lexemes v)
  have htrim : Text.trim v.write = String.ofList (Text.trimChars (Json.writeChars v)) := by
    rw [Text.trim, Json.write, String.toList_ofList]
  have hne : (Text.trim v.write).isEmpty = false := by
    rw [htrim, Bool.eq_false_iff, ne_eq, String.isEmpty_iff]
    simpa using hspaced.ne_nil (Json.isLexeme_of_mem_lexemes v) (Json.lexemes_ne_nil v)
  have hvalue : Json.read? (Text.trim v.write) = some v := by
    rw [htrim, Json.read?_eq_of_spaced hspaced, hread]
  unfold argumentsValue
  simp only [hwrite, hne, hvalue]
  rfl

/-- Where the parts of a call stand in the form of a vendor. -/
structure CallForm where
  /-- None if the vendor carries no ids. -/
  id? : Option (List String)
  name : List String
  arguments : List String
  /-- The arguments are a text, and not the value of which it would be the text. -/
  asText : Bool

namespace CallForm

/-- A call has a name, and where the vendor states them so, its id and its arguments are texts. -/
structure Names (f : CallForm) (call : Json) : Prop where
  name : call.textAt? f.name ≠ none
  id : ∀ path ∈ f.id?, call.textAt? path ≠ none
  arguments : f.asText = true → call.textAt? f.arguments ≠ none

/-- The arguments of a call are a value that is read back as it is written. -/
def ReadsBack (f : CallForm) (call : Json) : Prop :=
  ∀ a ∈ call.at? f.arguments, Json.read? a.write = some a

/-- A call is sent back as it was: under the same name and id, with the same text as arguments or
with the same value, which is the empty object if there was none. -/
structure Repeats (f : CallForm) (call sent : Json) : Prop where
  name : sent.at? f.name = call.at? f.name
  id : ∀ path ∈ f.id?, sent.at? path = call.at? path
  arguments : sent.at? f.arguments =
    if f.asText then call.at? f.arguments else some ((call.at? f.arguments).getD .empty)

/-- A message holds a call as the reply states it. -/
structure Reads (f : CallForm) (call : Json) (c : ToolCall) : Prop where
  name : call.at? f.name = some (.text c.function.name)
  id : ∀ path ∈ f.id?, call.at? path = some (.text c.id)
  arguments : if f.asText then call.at? f.arguments = some (.text c.function.arguments)
    else c.function.arguments = ((call.at? f.arguments).getD .empty).write

variable {f : CallForm} {call : Json} {c : ToolCall} {calls : List Json} {cs : List ToolCall}

/-- Arguments that are a value are sent as that value. -/
theorem Reads.argumentsOf (h : f.Reads call c) (hvalue : f.asText = false)
    (hback : f.ReadsBack call) (vendor : String) :
    Vendor.argumentsOf vendor c = .ok ((call.at? f.arguments).getD .empty) := by
  have hread : Json.read? ((call.at? f.arguments).getD .empty).write =
      some ((call.at? f.arguments).getD .empty) := by
    cases harguments : call.at? f.arguments with
    | none => exact Json.read?_write_empty
    | some a => exact hback a harguments
  have hwrite := h.arguments
  rw [if_neg (by simp [hvalue])] at hwrite
  rw [Vendor.argumentsOf, ToolCall.argumentsValue_of_write hread hwrite]

/-- If every call can be sent back, all of them can. -/
theorem exists_mapM {write : ToolCall → Result Json} {R : Json → Json → Prop}
    (hcalls : List.Forall₂ f.Reads calls cs) (hback : ∀ call ∈ calls, f.ReadsBack call)
    (hwrite : ∀ call c, f.Reads call c → f.ReadsBack call →
      ∃ sent, write c = .ok sent ∧ R call sent) :
    ∃ sents, cs.mapM write = .ok sents ∧ List.Forall₂ R calls sents := by
  induction hcalls with
  | nil => exact ⟨[], rfl, .nil⟩
  | @cons call c calls cs hcall hcalls ih =>
      obtain ⟨hhead, htail⟩ := List.forall_mem_cons.mp hback
      obtain ⟨sent, hsent, hrepeats⟩ := hwrite call c hcall hhead
      obtain ⟨sents, hsents, hrest⟩ := ih htail
      exact ⟨sent :: sents, mapM_cons_eq_ok_iff.mpr ⟨sent, sents, hsent, hsents, rfl⟩,
        .cons hrepeats hrest⟩

end CallForm

namespace Vendor

/-- Where the parts of a call stand. -/
def callForm : Vendor → CallForm
  | openAI _ => ⟨some ["id"], ["function", "name"], ["function", "arguments"], true⟩
  | claude _ => ⟨some ["id"], ["name"], ["input"], false⟩
  | gemini _ => ⟨none, ["name"], ["args"], false⟩
  | ollama _ => ⟨none, ["function", "name"], ["function", "arguments"], false⟩

/-- The calls of a reply. -/
def replyCalls : Vendor → Json → List Json
  | openAI _, body => OpenAI.calls body
  | claude _, body => (Claude.content body).filter fun block => Claude.kind block = some "tool_use"
  | gemini _, body => (Gemini.parts body).filterMap Gemini.call?
  | ollama _, body => Ollama.calls body

/-- The calls of a turn. -/
def turnCalls : Vendor → Json → List Json
  | openAI _, turn | ollama _, turn => ((turn.get? "tool_calls").bind Json.asArray?).getD []
  | claude _, turn => (Claude.content turn).filter fun block => Claude.kind block = some "tool_use"
  | gemini _, turn =>
    (((turn.get? "parts").bind Json.asArray?).getD []).filterMap Gemini.call?

/-- The role of the model in a turn. -/
def modelRole : Vendor → String
  | gemini _ => "model"
  | _ => "assistant"

variable {v : Vendor} {body : Json} {m : Message}

/-! ### Reading the calls of a reply -/

theorem forall₂_mapIdx {α β : Type} {R : α → β → Prop} {f : ℕ → α → β} {l : List α}
    (h : ∀ i, ∀ a ∈ l, R a (f i a)) : List.Forall₂ R l (l.mapIdx f) := by
  induction l generalizing f with
  | nil => exact .nil
  | cons a l ih =>
      rw [List.mapIdx_cons]
      exact .cons (h 0 a List.mem_cons_self)
        (ih fun i b hb => h (i + 1) b (List.mem_cons_of_mem a hb))

theorem reads_openAI {c : OpenAI.Config} {call : Json} (h : (openAI c).callForm.Names call)
    (position : Option UInt32) :
    (openAI c).callForm.Reads call (OpenAI.callOf position call) where
  name := Json.at?_of_textAt? h.name
  id := by
    rintro path ⟨⟩
    exact Json.at?_of_textAt? (h.id _ rfl)
  arguments := by
    show call.at? ["function", "arguments"] = some (.text (textAt ["function", "arguments"] call))
    exact Json.at?_of_textAt? (h.arguments rfl)

theorem reads_claude {c : Claude.Config} {call : Json} (h : (claude c).callForm.Names call)
    (position : ℕ) : (claude c).callForm.Reads call
      (Claude.callOf call (UInt32.ofNat position) (Claude.arguments call)) where
  name := Json.at?_of_textAt? h.name
  id := by
    rintro path ⟨⟩
    exact Json.at?_of_textAt? (h.id _ rfl)
  arguments := by
    show Claude.arguments call = ((call.at? ["input"]).getD .empty).write
    rw [Json.at?_singleton (by decide), Claude.arguments]
    cases call.get? "input" <;> rfl

theorem reads_gemini {c : Gemini.Config} {call : Json} (h : (gemini c).callForm.Names call)
    (position : ℕ) : (gemini c).callForm.Reads call (Gemini.callOf (some position) call) where
  name := Json.at?_of_textAt? h.name
  id := by rintro path ⟨⟩
  arguments := by
    show ((call.get? "args").getD .empty).write = ((call.at? ["args"]).getD .empty).write
    rw [Json.at?_singleton (by decide)]

theorem reads_ollama {c : Ollama.Config} {call : Json} (h : (ollama c).callForm.Names call)
    (position : ℕ) : (ollama c).callForm.Reads call (Ollama.callOf (some position) call) where
  name := Json.at?_of_textAt? h.name
  id := by rintro path ⟨⟩
  arguments := rfl

/-- The calls among the blocks of a reply of Claude. -/
theorem reads_claude_blocks {c : Claude.Config} {blocks : List Json} (k : ℕ)
    (hnames : ∀ call ∈ blocks.filter fun block => Claude.kind block = some "tool_use",
      (claude c).callForm.Names call) :
    List.Forall₂ (claude c).callForm.Reads
      (blocks.filter fun block => Claude.kind block = some "tool_use")
      (((blocks.zipIdx k).filterMap Claude.call?).map Prod.snd) := by
  induction blocks generalizing k with
  | nil => exact .nil
  | cons block blocks ih =>
      by_cases hkind : Claude.kind block = some "tool_use"
      · rw [List.filter_cons_of_pos (by simpa using hkind)] at hnames ⊢
        obtain ⟨hblock, hblocks⟩ := List.forall_mem_cons.mp hnames
        rw [List.zipIdx_cons, List.filterMap_cons_some (by rw [Claude.call?, if_pos hkind]),
          List.map_cons]
        exact .cons (reads_claude hblock k) (ih (k + 1) hblocks)
      · rw [List.filter_cons_of_neg (by simpa using hkind)] at hnames ⊢
        rw [List.zipIdx_cons, List.filterMap_cons_none (by rw [Claude.call?, if_neg hkind])]
        exact ih (k + 1) hnames

theorem reads_of_reply_openAI {c : OpenAI.Config} (hreply : (openAI c).reply body = .ok m)
    (hnames : ∀ call ∈ (openAI c).replyCalls body, (openAI c).callForm.Names call) :
    m.role = .assistant ∧ m.parts = [] ∧
      List.Forall₂ (openAI c).callForm.Reads ((openAI c).replyCalls body) m.toolCalls := by
  have hnames : ∀ call ∈ OpenAI.calls body, (openAI c).callForm.Names call := hnames
  unfold OpenAI.calls OpenAI.message OpenAI.first? at hnames
  simp only [reply, OpenAI.reply] at hreply
  simp only [replyCalls, OpenAI.calls, OpenAI.message, OpenAI.first?]
  split at hreply
  · cases hreply
  · cases hchoice : body.at? ["choices", "0"] with
    | none =>
        rw [hchoice] at hreply
        cases hreply
    | some choice =>
        rw [hchoice] at hreply hnames
        cases hreply
        exact ⟨rfl, rfl, forall₂_mapIdx fun i call hcall => reads_openAI (hnames call hcall) _⟩

theorem reads_of_reply_claude {c : Claude.Config} (hreply : (claude c).reply body = .ok m)
    (hnames : ∀ call ∈ (claude c).replyCalls body, (claude c).callForm.Names call) :
    m.role = .assistant ∧ m.parts = [] ∧
      List.Forall₂ (claude c).callForm.Reads ((claude c).replyCalls body) m.toolCalls := by
  simp only [reply, Claude.reply] at hreply
  split at hreply
  · cases hreply
  · split at hreply
    · cases hreply
    · next blocks hblocks =>
      have hcontent : Claude.content body = blocks := by rw [Claude.content, hblocks]; rfl
      cases hreply
      refine ⟨rfl, rfl, ?_⟩
      show List.Forall₂ _ ((Claude.content body).filter _) (Claude.Blocks.ofList blocks).calls
      rw [Claude.ofList_eq, hcontent]
      refine reads_claude_blocks 0 ?_
      rw [← hcontent]
      exact hnames

/-- The message of a reply is one of the model, without parts, and it holds the calls of the
reply. -/
theorem reads_of_reply (hreply : v.reply body = .ok m)
    (hnames : ∀ call ∈ v.replyCalls body, v.callForm.Names call) :
    m.role = .assistant ∧ m.parts = [] ∧ List.Forall₂ v.callForm.Reads (v.replyCalls body)
      m.toolCalls := by
  cases v with
  | openAI c => exact reads_of_reply_openAI hreply hnames
  | claude c => exact reads_of_reply_claude hreply hnames
  | gemini c =>
      obtain rfl := Gemini.eq_said_of_reply hreply
      exact ⟨rfl, rfl, forall₂_mapIdx fun i call hcall => reads_gemini (hnames call hcall) i⟩
  | ollama c =>
      obtain rfl := Ollama.eq_messageOf_of_reply hreply
      exact ⟨rfl, rfl, forall₂_mapIdx fun i call hcall => reads_ollama (hnames call hcall) i⟩

/-! ### Writing the calls of a turn -/

theorem repeats_openAI {c : OpenAI.Config} {call : Json} {t : ToolCall}
    (h : (openAI c).callForm.Reads call t) :
    (openAI c).callForm.Repeats call (OpenAI.callJson t) where
  name := by
    rw [h.name]
    simp [callForm, OpenAI.callJson, Json.at?_ofMembers, Json.lookup_cons_ite]
  id := by
    rintro path ⟨⟩
    rw [h.id _ rfl]
    simp [OpenAI.callJson, Json.at?_ofMembers, Json.lookup_cons_ite]
  arguments := by
    have harguments : call.at? ["function", "arguments"] = some (.text t.function.arguments) :=
      h.arguments
    show (OpenAI.callJson t).at? ["function", "arguments"] = call.at? ["function", "arguments"]
    rw [harguments]
    simp [OpenAI.callJson, Json.at?_ofMembers]

theorem repeats_claude {c : Claude.Config} {call : Json} {t : ToolCall}
    (h : (claude c).callForm.Reads call t) (hback : (claude c).callForm.ReadsBack call) :
    ∃ sent, Claude.callJson? t = .ok sent ∧ Claude.kind sent = some "tool_use" ∧
      (claude c).callForm.Repeats call sent := by
  refine ⟨_, by rw [Claude.callJson?, h.argumentsOf rfl hback]; rfl, ?_, ?_, ?_, ?_⟩
  · simp [Claude.kind, Json.textAt?, Json.asText?, Json.at?_ofMembers, Json.lookup_cons_ite]
  · rw [h.name]
    simp [callForm, Json.at?_ofMembers, Json.lookup_cons_ite]
  · rintro path ⟨⟩
    rw [h.id _ rfl]
    simp [Json.at?_ofMembers, Json.lookup_cons_ite]
  · simp [callForm, Json.at?_ofMembers]

theorem repeats_gemini {c : Gemini.Config} {call : Json} {t : ToolCall}
    (h : (gemini c).callForm.Reads call t) (hback : (gemini c).callForm.ReadsBack call) :
    ∃ part, Gemini.callJson? t = .ok part ∧
      ∃ sent, Gemini.call? part = some sent ∧ (gemini c).callForm.Repeats call sent := by
  refine ⟨_, by rw [Gemini.callJson?, h.argumentsOf rfl hback]; rfl,
    .ofMembers [("name", .text t.function.name), ("args", (call.at? ["args"]).getD .empty)],
    ?_, ?_, ?_, ?_⟩
  · rw [Gemini.call?, if_pos (by simp [Json.textAt?, Json.at?_ofMembers, Json.lookup_cons_ite]),
      Json.get?_ofMembers]
    rfl
  · rw [h.name]
    simp [callForm, Json.at?_ofMembers, Json.lookup_cons_ite]
  · rintro path ⟨⟩
  · simp [callForm, Json.at?_ofMembers]

theorem repeats_ollama {c : Ollama.Config} {call : Json} {t : ToolCall}
    (h : (ollama c).callForm.Reads call t) (hback : (ollama c).callForm.ReadsBack call) :
    ∃ sent, Ollama.callJson? t = .ok sent ∧ (ollama c).callForm.Repeats call sent := by
  refine ⟨_, by rw [Ollama.callJson?, h.argumentsOf rfl hback]; rfl, ?_, ?_, ?_⟩
  · rw [h.name]
    simp [callForm, Json.at?_ofMembers, Json.lookup_cons_ite]
  · rintro path ⟨⟩
  · simp [callForm, Json.at?_ofMembers]

/-! ### Turns -/

/-- The turn of a message is one of the model, and its calls are related to those of a reply. -/
def Holds (v : Vendor) (calls : List Json) (turn : Json) : Prop :=
  turn.textAt? ["role"] = some v.modelRole ∧
    List.Forall₂ v.callForm.Repeats calls (v.turnCalls turn)

variable {calls : List Json}

theorem exists_turn_openAI {c : OpenAI.Config} (hrole : m.role = .assistant) (hparts : m.parts = [])
    (hcalls : List.Forall₂ (openAI c).callForm.Reads calls m.toolCalls) :
    ∃ turn, (openAI c).turn? m = .ok turn ∧ (openAI c).Holds calls turn := by
  obtain ⟨content, hcontent⟩ : ∃ content, OpenAI.contentJson? c.preset.typeName m = .ok content :=
    ⟨_, by rw [OpenAI.contentJson?, if_pos (by simp [hparts])]⟩
  have hanswered : OpenAI.answeredId? m = .ok none := by
    rw [OpenAI.answeredId?, if_pos (by simp [hrole])]
  refine ⟨_, by rw [turn?, OpenAI.messageJson?, hcontent, hanswered]; rfl, ?_, ?_⟩
  · rw [Json.textAt?, Json.at?_record, hrole]
    simp [Json.lookup_present_cons, Json.asText?, modelRole, Role.name]
  · have hsent : List.Forall₂ (openAI c).callForm.Repeats calls
        (m.toolCalls.map OpenAI.callJson) :=
      List.forall₂_map_right_iff.mpr (hcalls.imp fun _ _ => repeats_openAI)
    rw [turnCalls, Json.get?_record]
    by_cases hempty : m.toolCalls = []
    · rw [hempty] at hsent
      simpa [Json.lookup_present_cons, hempty] using hsent
    · simpa [Json.lookup_present_cons, Json.asArray?, hempty] using hsent

theorem exists_turn_ollama {c : Ollama.Config} (hrole : m.role = .assistant) (hparts : m.parts = [])
    (hcalls : List.Forall₂ (ollama c).callForm.Reads calls m.toolCalls)
    (hback : ∀ call ∈ calls, (ollama c).callForm.ReadsBack call) :
    ∃ turn, (ollama c).turn? m = .ok turn ∧ (ollama c).Holds calls turn := by
  obtain ⟨sents, hsents, hsent⟩ := CallForm.exists_mapM hcalls hback fun _ _ => repeats_ollama
  refine ⟨_, by rw [turn?, Ollama.messageJson?, hparts, hsents]; rfl, ?_, ?_⟩
  · rw [Json.textAt?, Json.at?_record, hrole]
    simp [Json.lookup_present_cons, Json.asText?, modelRole, Role.name]
  · rw [turnCalls, Json.get?_record]
    by_cases hempty : sents = []
    · rw [hempty] at hsent
      simpa [Json.lookup_present_cons, hempty] using hsent
    · simpa [Json.lookup_present_cons, Json.asArray?, hempty] using hsent

theorem forall₂_filter {R : Json → Json → Prop} {p : Json → Prop} [DecidablePred p]
    {sents : List Json} (h : List.Forall₂ (fun call sent => p sent ∧ R call sent) calls sents) :
    List.Forall₂ R calls (sents.filter fun sent => p sent) := by
  induction h with
  | nil => exact .nil
  | cons hsent _ ih =>
      rw [List.filter_cons_of_pos (by simpa using hsent.1)]
      exact .cons hsent.2 ih

theorem forall₂_filterMap {R : Json → Json → Prop} {g : Json → Option Json} {parts : List Json}
    (h : List.Forall₂ (fun call part => ∃ sent, g part = some sent ∧ R call sent) calls parts) :
    List.Forall₂ R calls (parts.filterMap g) := by
  induction h with
  | nil => exact .nil
  | cons hpart _ ih =>
      obtain ⟨sent, hsent, hcall⟩ := hpart
      rw [List.filterMap_cons_some hsent]
      exact .cons hcall ih

/-- The calls are the blocks that are uses of tools. -/
theorem exists_turn_claude {c : Claude.Config} (hparts : m.parts = [])
    (hcalls : List.Forall₂ (claude c).callForm.Reads calls m.toolCalls)
    (hback : ∀ call ∈ calls, (claude c).callForm.ReadsBack call) :
    ∃ turn, (claude c).turn? m = .ok turn ∧ (claude c).Holds calls turn := by
  obtain ⟨sents, hsents, hsent⟩ := CallForm.exists_mapM hcalls hback fun _ _ => repeats_claude
  let texts := if m.content.isEmpty then [] else [Claude.textJson m.content]
  have hblocks : Claude.blocks? m = .ok (texts ++ [] ++ sents) := by
    rw [Claude.blocks?, hparts, hsents]
    rfl
  have htexts : texts.filter (fun block => Claude.kind block = some "tool_use") = [] := by
    simp only [texts]
    split
    · rfl
    · simp [Claude.kind, Claude.textJson, Json.textAt?, Json.at?_ofMembers, Json.lookup_cons_ite,
        Json.asText?]
  refine ⟨Claude.turnJson (.said .assistant (texts ++ [] ++ sents)), by rw [turn?, hblocks]; rfl,
    ?_, ?_⟩
  · rw [Json.textAt?, Claude.turnJson, Json.at?_ofMembers]
    simp [Json.lookup_cons_ite, Json.asText?, modelRole, Role.name]
  · rw [turnCalls, Claude.content, Claude.turnJson, Json.get?_ofMembers]
    simpa [Json.lookup_cons_ite, Json.asArray?, htexts] using forall₂_filter hsent

/-- The calls are the parts that call functions. -/
theorem exists_turn_gemini {c : Gemini.Config} (hparts : m.parts = [])
    (hcalls : List.Forall₂ (gemini c).callForm.Reads calls m.toolCalls)
    (hback : ∀ call ∈ calls, (gemini c).callForm.ReadsBack call) :
    ∃ turn, (gemini c).turn? m = .ok turn ∧ (gemini c).Holds calls turn := by
  obtain ⟨parts, hsents, hsent⟩ := CallForm.exists_mapM hcalls hback fun _ _ => repeats_gemini
  let texts := if m.content.isEmpty then [] else [Gemini.textJson m.content]
  have hall : Gemini.parts? m = .ok (texts ++ [] ++ parts) := by
    rw [Gemini.parts?, hparts, hsents]
    rfl
  have htexts : texts.filterMap Gemini.call? = [] := by
    simp only [texts]
    split
    · rfl
    · simp [Gemini.call?, Gemini.textJson, Json.textAt?, Json.at?_ofMembers, Json.asText?]
  refine ⟨Gemini.turnJson (.said .assistant (texts ++ [] ++ parts)), by rw [turn?, hall]; rfl,
    ?_, ?_⟩
  · rw [Json.textAt?, Gemini.turnJson, Json.at?_ofMembers]
    simp [Json.lookup_cons_ite, Json.asText?, modelRole, Gemini.roleName]
  · rw [turnCalls, Gemini.turnJson, Json.get?_ofMembers]
    simpa [Json.lookup_cons_ite, Json.asArray?, htexts] using forall₂_filterMap hsent

/-- **Sending a reply back repeats its calls.**  The message of a reply has a turn of its own, one
of the model, with exactly the calls of the reply in their order.  It can be sent alone, and after
every conversation that can be sent, and whatever comes after it, the turn is there. -/
theorem replay_repeats (v : Vendor) {body : Json} {m : Message} (hreply : v.reply body = .ok m)
    (hnames : ∀ call ∈ v.replyCalls body, v.callForm.Names call)
    (hback : ∀ call ∈ v.replyCalls body, v.callForm.ReadsBack call) :
    ∃ turn, turn.textAt? ["role"] = some v.modelRole ∧
      List.Forall₂ v.callForm.Repeats (v.replyCalls body) (v.turnCalls turn) ∧
      ∀ (r : ChatRequest) (stream : Bool),
        v.Sends { r with messages := [m] } stream [turn] ∧
        ∀ before : List Message,
          (∀ turns, v.Sends { r with messages := before } stream turns →
            v.Sends { r with messages := before ++ [m] } stream (turns ++ [turn])) ∧
          ∀ after turns, v.Sends { r with messages := before ++ m :: after } stream turns →
            ∃ pre post, v.Sends { r with messages := before } stream pre ∧
              turns = pre ++ turn :: post := by
  obtain ⟨hrole, hparts, hcalls⟩ := reads_of_reply hreply hnames
  obtain ⟨turn, hturn, hmodel, hholds⟩ : ∃ turn, v.turn? m = .ok turn ∧
      v.Holds (v.replyCalls body) turn := by
    cases v with
    | openAI c => exact exists_turn_openAI hrole hparts hcalls
    | claude c => exact exists_turn_claude hparts hcalls hback
    | gemini c => exact exists_turn_gemini hparts hcalls hback
    | ollama c => exact exists_turn_ollama hrole hparts hcalls hback
  refine ⟨turn, hmodel, hholds, fun r stream => ?_⟩
  have hnothing : v.turns? [] = .ok [] := by cases v <;> rfl
  refine ⟨sends_iff.mpr (turns?_concat hrole hturn hnothing), fun before => ⟨?_, ?_⟩⟩
  · intro turns hbefore
    exact sends_iff.mpr (turns?_concat hrole hturn (sends_iff.mp hbefore))
  · intro after turns hall
    obtain ⟨pre, post, hpre, rfl⟩ := exists_of_turns? hrole hturn (sends_iff.mp hall)
    exact ⟨pre, post, sends_iff.mpr hpre, rfl⟩

/-- A reply with a text and two calls, one of them without arguments. -/
def twoUses : Json :=
  .ofMembers [("content", .array [
    .ofMembers [("type", .text "text"), ("text", .text "Let me see.")],
    .ofMembers [("type", .text "tool_use"), ("id", .text "a"), ("name", .text "look"),
      ("input", .ofMembers [("at", .array [.null, .ofNat 3, .text " x "])])],
    .ofMembers [("type", .text "tool_use"), ("id", .text "b"), ("name", .text "wait")]])]

/-- The call without arguments is sent back with an empty object. -/
theorem replay_repeats_twoUses :
    ∃ m turn, (claude { http := default }).reply twoUses = .ok m ∧
      (claude { http := default }).Sends { messages := [m] } false [turn] ∧
      ((claude { http := default }).turnCalls turn).map (·.get? "input") =
        [some (.ofMembers [("at", .array [.null, .ofNat 3, .text " x "])]), some .empty] := by
  have hcalls : (claude { http := default }).replyCalls twoUses = [
      .ofMembers [("type", .text "tool_use"), ("id", .text "a"), ("name", .text "look"),
        ("input", .ofMembers [("at", .array [.null, .ofNat 3, .text " x "])])],
      .ofMembers [("type", .text "tool_use"), ("id", .text "b"), ("name", .text "wait")]] := rfl
  obtain ⟨m, hm⟩ : ∃ m, (claude { http := default }).reply twoUses = .ok m := ⟨_, rfl⟩
  obtain ⟨turn, -, hrepeats, hsends⟩ := replay_repeats (claude { http := default }) hm
    (by
      rw [hcalls, List.forall_mem_cons, List.forall_mem_singleton]
      constructor
      all_goals
        refine ⟨by decide_cbv, ?_, Bool.noConfusion⟩
        rintro path ⟨⟩
        decide_cbv)
    (by
      rw [hcalls, List.forall_mem_cons, List.forall_mem_singleton]
      constructor
      · rintro a ⟨⟩
        decide_cbv
      · rintro a ⟨⟩)
  refine ⟨m, turn, hm, (hsends {} false).1, ?_⟩
  rw [hcalls] at hrepeats
  obtain ⟨look, rest, hlook, hrest, hturn⟩ := List.forall₂_cons_left_iff.mp hrepeats
  obtain ⟨wait, nothing, hwait, hnothing, rfl⟩ := List.forall₂_cons_left_iff.mp hrest
  obtain rfl := List.forall₂_nil_left_iff.mp hnothing
  have hfirst : look.at? ["input"] =
      some (.ofMembers [("at", .array [.null, .ofNat 3, .text " x "])]) := hlook.arguments
  have hsecond : wait.at? ["input"] = some .empty := hwait.arguments
  rw [Json.at?_singleton (by decide)] at hfirst hsecond
  rw [hturn, List.map_cons, List.map_singleton, hfirst, hsecond]

end Vendor

end ChatRelay
