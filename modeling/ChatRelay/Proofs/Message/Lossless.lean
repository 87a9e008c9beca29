import ChatRelay.Message.Format
import ChatRelay.Proofs.Json.Roundtrip
import ChatRelay.Proofs.Json.Widening

/-!
# The form of messages loses nothing

A message is read back from its form, as a value (`Message.ofJson?_toJson`) and as a text, and no
two messages have the same form (`Message.lossless`).  Fields that a record does not have do not matter,
whichever objects they are added to: what is read is a widened form (`Message.Widens`).

## Main definitions

* `Message.Widens`, `Part.Widens`, … — the form of a message, and one with more fields
* `Message.Lossless` — what the form of a message promises

## Main results

* `Message.ofJson?_of_widens` — a message is read back from a widened form
* `Message.widens_toJson` — its form is one of them
* `Message.readable_toJson` — its form is read back from the text
* `Message.lossless` — all together
-/

namespace ChatRelay

/-! ### Widened forms -/

/-- The form of a function call, and one with more fields. -/
def FunctionCall.Widens : Json → Json → Prop :=
  Json.Widens [("name", Eq), ("arguments", Eq)]

/-- The form of a tool call, and one with more fields. -/
def ToolCall.Widens : Json → Json → Prop :=
  Json.Widens [("index", Eq), ("id", Eq), ("type", Eq), ("function", FunctionCall.Widens)]

/-- The form of a token usage, and one with more fields. -/
def TokenUsage.Widens : Json → Json → Prop :=
  Json.Widens [("prompt_tokens", Eq), ("completion_tokens", Eq), ("total_tokens", Eq)]

/-- The form of what a vendor reported, and one with more fields. -/
def ResponseInfo.Widens : Json → Json → Prop :=
  Json.Widens [("finish_reason", Eq), ("usage", TokenUsage.Widens)]

/-- The form of the source of a part, and one with more fields. -/
def Media.Widens : Json → Json → Prop :=
  Json.Widens [("url", Eq), ("mime_type", Eq)]

/-- The form of a part, and one with more fields. A part has only the field of its own kind. -/
def Part.Widens (v w : Json) : Prop :=
  ∃ kind, v.get? "type" = some (.text kind) ∧
    Json.Widens [("type", Eq), (kind, if kind = "text" then Eq else Media.Widens)] v w

/-- The form of a message, and one with more fields in any of its objects. -/
def Message.Widens : Json → Json → Prop :=
  Json.Widens [("role", Eq), ("content", Eq), ("multi_content", Json.Itemwise Part.Widens),
    ("tool_calls", Json.Itemwise ToolCall.Widens), ("tool_call_id", Eq), ("tool_name", Eq),
    ("reasoning_content", Eq), ("response_meta", ResponseInfo.Widens)]

/-! ### Reading widened forms -/

variable {w : Json}

section List

variable {α : Type} {rel : Json → Json → Prop} {read : Json → Option α} {write : α → Json}

/-- A list that is left out when it is empty is read back. -/
theorem orElse_nonEmptyList (hread : ∀ a y, rel (write a) y → read y = some a) {items : List α}
    {field : Option Json}
    (h : Option.Rel (Json.Itemwise rel) (Message.nonEmptyList write items) field) :
    Json.orElse [] (Json.itemsOf read) field = some items := by
  unfold Message.nonEmptyList at h
  split at h
  · next hempty =>
    rw [Json.eq_none_of_rel_none h, List.isEmpty_iff.mp hempty]
    rfl
  · obtain ⟨y, rfl, values, values', hvalues, rfl, hitems⟩ := Json.exists_of_rel_some h
    cases hvalues
    exact Json.mapM_of_forall₂ hread hitems

end List

/-- A field with an optional text is read back. -/
theorem optional_text (text : Option String) :
    Json.optional Json.asText? (text.map .text) = some text := by
  have hread : ∀ s : String, (Json.text s).asText? = some s := fun _ => rfl
  exact Json.optional_map hread rfl text

/-- So is a text that is always there. -/
theorem orElse_text (text : String) : Json.orElse "" Json.asText? (some (.text text)) = some text :=
  rfl

theorem word32?_ofNat (i : UInt32) : Json.word32? (.ofNat i.toNat) = some i := by
  have hcount : (Json.ofNat i.toNat).asCount? = some i.toNat := by simp [Json.ofNat, Json.asCount?]
  simp [Json.word32?, Json.below?, hcount, i.toNat_lt_size]

theorem asWord?_ofNat (n : UInt64) : (Json.ofNat n.toNat).asWord? = some n := by
  have hcount : (Json.ofNat n.toNat).asCount? = some n.toNat := by simp [Json.ofNat, Json.asCount?]
  simp [Json.asWord?, hcount, n.toNat_lt_size]

theorem FunctionCall.ofJson?_of_widens {f : FunctionCall} (h : Widens f.toJson w) :
    ofJson? w = some f := by
  have hrecord : Json.Widens [("name", Eq), ("arguments", Eq)]
      (.record [("name", some (.text f.name)), ("arguments", some (.text f.arguments))]) w := h
  have hkeys : ["name", "arguments"].Nodup := by decide
  have hname : w.get? "name" = some (.text f.name) := hrecord.get?_eq hkeys (by simp) (by simp)
  have harguments : w.get? "arguments" = some (.text f.arguments) :=
    hrecord.get?_eq hkeys (by simp) (by simp)
  simp [ofJson?, Json.fields?_of_isObject h.2.1, hname, harguments, orElse_text]

theorem ToolCall.ofJson?_of_widens {c : ToolCall} (h : Widens c.toJson w) :
    ofJson? w = some c := by
  have hkeys : ["index", "id", "type", "function"].Nodup := by decide
  have hindex : w.get? "index" = c.index.map fun i => .ofNat i.toNat :=
    h.get?_eq hkeys (by simp) (by simp)
  have hid : w.get? "id" = some (.text c.id) := h.get?_eq hkeys (by simp) (by simp)
  have hkind : w.get? "type" = some (.text c.kind) := h.get?_eq hkeys (by simp) (by simp)
  have hfunction : Option.Rel FunctionCall.Widens (some c.function.toJson) (w.get? "function") :=
    h.rel_of_mem hkeys (by simp) (by simp)
  obtain ⟨function, hfunction, hwidens⟩ := Json.exists_of_rel_some hfunction
  have hread : Json.optional Json.word32? (c.index.map fun i => .ofNat i.toNat) = some c.index :=
    Json.optional_map word32?_ofNat rfl c.index
  simp [ofJson?, Json.fields?_of_isObject h.2.1, hid, hkind, hindex, hread, hfunction,
    FunctionCall.ofJson?_of_widens hwidens, orElse_text, Json.required]

theorem TokenUsage.ofJson?_of_widens {u : TokenUsage} (h : Widens u.toJson w) :
    ofJson? w = some u := by
  have hrecord : Json.Widens
      [("prompt_tokens", Eq), ("completion_tokens", Eq), ("total_tokens", Eq)]
      (.record [("prompt_tokens", some (.ofNat u.promptTokens.toNat)),
        ("completion_tokens", some (.ofNat u.completionTokens.toNat)),
        ("total_tokens", some (.ofNat u.totalTokens.toNat))]) w := h
  have hkeys : ["prompt_tokens", "completion_tokens", "total_tokens"].Nodup := by decide
  have hprompt : w.get? "prompt_tokens" = some (.ofNat u.promptTokens.toNat) :=
    hrecord.get?_eq hkeys (by simp) (by simp)
  have hcompletion : w.get? "completion_tokens" = some (.ofNat u.completionTokens.toNat) :=
    hrecord.get?_eq hkeys (by simp) (by simp)
  have htotal : w.get? "total_tokens" = some (.ofNat u.totalTokens.toNat) :=
    hrecord.get?_eq hkeys (by simp) (by simp)
  simp [ofJson?, Json.fields?_of_isObject h.2.1, hprompt, hcompletion, htotal, Json.required,
    asWord?_ofNat]

theorem ResponseInfo.ofJson?_of_widens {i : ResponseInfo} (h : Widens i.toJson w) :
    ofJson? w = some i := by
  have hkeys : ["finish_reason", "usage"].Nodup := by decide
  have hreason : w.get? "finish_reason" = i.finishReason.map .text :=
    h.get?_eq hkeys (by simp) (by simp)
  have husage : Option.Rel TokenUsage.Widens (i.usage.map (·.toJson)) (w.get? "usage") :=
    h.rel_of_mem hkeys (by simp) (by simp)
  have hread : Json.optional TokenUsage.ofJson? (w.get? "usage") = some i.usage :=
    Json.optional_of_rel (fun _ _ => TokenUsage.ofJson?_of_widens) rfl husage
  simp [ofJson?, Json.fields?_of_isObject h.2.1, hreason, optional_text, hread]

theorem Media.ofJson?_of_widens {m : Media} (h : Widens m.toJson w) : ofJson? w = some m := by
  have hkeys : ["url", "mime_type"].Nodup := by decide
  have hurl : w.get? "url" = some (.text m.url) := h.get?_eq hkeys (by simp) (by simp)
  have hmime : w.get? "mime_type" = m.mimeType.map .text := h.get?_eq hkeys (by simp) (by simp)
  simp [ofJson?, Json.fields?_of_isObject h.2.1, hurl, hmime, optional_text, Json.required,
    Json.asText?]

/-- The name of the kind of a part. -/
def Part.kind : Part → String
  | text _ => "text"
  | image _ => "image_url"
  | audio _ => "audio_url"
  | video _ => "video_url"

/-- What a part holds, as a value. -/
def Part.content : Part → Json
  | text s => .text s
  | image m | audio m | video m => m.toJson

theorem Part.toJson_eq (p : Part) :
    p.toJson = .record [("type", some (.text p.kind)), (p.kind, some p.content)] := by
  cases p <;> rfl

theorem Part.nodup_kind (p : Part) : ["type", p.kind].Nodup := by
  cases p <;> simp [kind]

theorem Part.get?_type (p : Part) : p.toJson.get? "type" = some (.text p.kind) := by
  rw [toJson_eq, Json.get?_record]
  cases p <;> rfl

theorem Part.ofJson?_of_widens {p : Part} (h : Widens p.toJson w) : ofJson? w = some p := by
  obtain ⟨kind, hkind, hwidens⟩ := h
  rw [p.get?_type] at hkind
  cases hkind
  rw [p.toJson_eq] at hwidens
  have htype : w.get? "type" = some (.text p.kind) :=
    hwidens.get?_eq p.nodup_kind (by simp) (by simp)
  have hcontent : Option.Rel (if p.kind = "text" then Eq else Media.Widens) (some p.content)
      (w.get? p.kind) := hwidens.rel_of_mem p.nodup_kind (by simp) (by simp)
  obtain ⟨content, hcontent, hrel⟩ := Json.exists_of_rel_some hcontent
  have hkind : kind? w = some (p.kind, w) := by
    cases w with
    | object members =>
        rw [Json.get?_object] at htype
        simp [kind?, htype, Json.asText?]
    | _ => cases htype
  have hfields := Json.fields?_of_isObject hwidens.2.1
  cases p with
  | text s =>
      obtain rfl : Json.text s = content := hrel
      simp only [kind] at hkind hcontent
      simp [ofJson?, hkind, hfields, hcontent, Json.required, Json.asText?]
  | image m | audio m | video m =>
      have hmedia : Media.ofJson? content = some m := Media.ofJson?_of_widens hrel
      simp only [kind] at hkind hcontent
      simp [ofJson?, hkind, hfields, hcontent, hmedia, Json.required]

theorem Message.ofJson?_of_widens {m : Message} (h : Widens m.toJson w) : ofJson? w = some m := by
  have hkeys : ["role", "content", "multi_content", "tool_calls", "tool_call_id", "tool_name",
    "reasoning_content", "response_meta"].Nodup := by decide
  have hrole : w.get? "role" = some m.role.toJson := h.get?_eq hkeys (by simp) (by simp)
  have hcontent : w.get? "content" = some (.text m.content) := h.get?_eq hkeys (by simp) (by simp)
  have hparts : Option.Rel (Json.Itemwise Part.Widens) (nonEmptyList Part.toJson m.parts)
      (w.get? "multi_content") := h.rel_of_mem hkeys (by simp) (by simp)
  have hcalls : Option.Rel (Json.Itemwise ToolCall.Widens)
      (nonEmptyList ToolCall.toJson m.toolCalls) (w.get? "tool_calls") := h.rel_of_mem hkeys (by simp) (by simp)
  have hcallId : w.get? "tool_call_id" = m.toolCallId.map .text :=
    h.get?_eq hkeys (by simp) (by simp)
  have hname : w.get? "tool_name" = m.toolName.map .text := h.get?_eq hkeys (by simp) (by simp)
  have hreasoning : w.get? "reasoning_content" = m.reasoning.map .text :=
    h.get?_eq hkeys (by simp) (by simp)
  have hinfo : Option.Rel ResponseInfo.Widens (m.info.map (·.toJson)) (w.get? "response_meta") :=
    h.rel_of_mem hkeys (by simp) (by simp)
  have hreadParts := orElse_nonEmptyList (fun _ _ => Part.ofJson?_of_widens) hparts
  have hreadCalls := orElse_nonEmptyList (fun _ _ => ToolCall.ofJson?_of_widens) hcalls
  have hreadInfo := Json.optional_of_rel (fun _ _ => ResponseInfo.ofJson?_of_widens) rfl hinfo
  have hreadRole : Role.ofJson? m.role.toJson = some m.role := by cases m.role <;> rfl
  simp [ofJson?, Json.fields?_of_isObject h.2.1, hrole, hcontent, hcallId, hname, hreasoning,
    hreadRole, hreadParts, hreadCalls, hreadInfo, optional_text, orElse_text, Json.required]

/-! ### The form itself -/

theorem FunctionCall.widens_toJson (f : FunctionCall) : Widens f.toJson f.toJson := by
  refine Json.widens_self rfl ?_
  simp

theorem ToolCall.widens_toJson (c : ToolCall) : Widens c.toJson c.toJson := by
  have hfunction : c.toJson.get? "function" = some c.function.toJson := by
    rw [toJson]
    exact Json.get?_record_of_mem (by simp) (by simp)
  refine Json.widens_self rfl ?_
  simp [hfunction, c.function.widens_toJson]

theorem TokenUsage.widens_toJson (u : TokenUsage) : Widens u.toJson u.toJson := by
  refine Json.widens_self rfl ?_
  simp

theorem ResponseInfo.widens_toJson (i : ResponseInfo) : Widens i.toJson i.toJson := by
  have husage : i.toJson.get? "usage" = i.usage.map (·.toJson) := by
    rw [toJson]
    exact Json.get?_record_of_mem (by simp) (by simp)
  refine Json.widens_self rfl ?_
  simp [husage, TokenUsage.widens_toJson]

theorem Media.widens_toJson (m : Media) : Widens m.toJson m.toJson := by
  refine Json.widens_self rfl ?_
  simp

theorem Part.widens_toJson (p : Part) : Widens p.toJson p.toJson := by
  have hcontent : p.toJson.get? p.kind = some p.content := by
    rw [toJson_eq]
    refine Json.get?_record_of_mem ?_ (by simp)
    exact p.nodup_kind
  have hself : (if p.kind = "text" then Eq else Media.Widens) p.content p.content := by
    cases p with
    | text s => exact rfl
    | image m | audio m | video m => exact m.widens_toJson
  refine ⟨p.kind, p.get?_type, Json.widens_self (by rw [toJson_eq]; rfl) ?_⟩
  simp [hcontent, hself]

/-- A list that is left out when it is empty is its own widened form. -/
theorem itemwise_nonEmptyList {α : Type} {rel : Json → Json → Prop} {write : α → Json}
    (h : ∀ a, rel (write a) (write a)) (items : List α) :
    ∀ v ∈ Message.nonEmptyList write items, Json.Itemwise rel v v := by
  intro v hv
  unfold Message.nonEmptyList at hv
  split at hv
  · cases hv
  · cases hv
    refine Json.itemwise_self fun w hw => ?_
    obtain ⟨a, -, rfl⟩ := List.mem_map.mp hw
    exact h a

theorem Message.widens_toJson (m : Message) : Widens m.toJson m.toJson := by
  have hkeys : ["role", "content", "multi_content", "tool_calls", "tool_call_id", "tool_name",
    "reasoning_content", "response_meta"].Nodup := by decide
  have hparts : m.toJson.get? "multi_content" = nonEmptyList Part.toJson m.parts := by
    rw [toJson]
    refine Json.get?_record_of_mem ?_ (by simp)
    exact hkeys
  have hcalls : m.toJson.get? "tool_calls" = nonEmptyList ToolCall.toJson m.toolCalls := by
    rw [toJson]
    refine Json.get?_record_of_mem ?_ (by simp)
    exact hkeys
  have hinfo : m.toJson.get? "response_meta" = m.info.map (·.toJson) := by
    rw [toJson]
    refine Json.get?_record_of_mem ?_ (by simp)
    exact hkeys
  have hpartsSelf := itemwise_nonEmptyList Part.widens_toJson m.parts
  have hcallsSelf := itemwise_nonEmptyList ToolCall.widens_toJson m.toolCalls
  refine Json.widens_self rfl ?_
  simp only [List.forall_mem_cons, hparts, hcalls, hinfo, implies_true, true_and]
  refine ⟨hpartsSelf, hcallsSelf, ?_, List.forall_mem_nil _⟩
  intro v hv
  obtain ⟨i, -, rfl⟩ := Option.map_eq_some_iff.mp hv
  exact i.widens_toJson

/-! ### The text -/

section Text

variable {n : Nat}

theorem readable_some {v : Json} (h : Json.Readable n v) : ∀ w ∈ some v, Json.Readable n w := by
  rintro _ ⟨⟩
  exact h

theorem readable_map {α : Type} {write : α → Json} {a : Option α}
    (h : ∀ x ∈ a, Json.Readable n (write x)) : ∀ v ∈ a.map write, Json.Readable n v := by
  intro v hv
  obtain ⟨x, hx, rfl⟩ := Option.map_eq_some_iff.mp hv
  exact h x hx

theorem readable_nonEmptyList {α : Type} {write : α → Json} (h : ∀ a, Json.Readable n (write a))
    (items : List α) : ∀ v ∈ Message.nonEmptyList write items, Json.Readable (n + 1) v := by
  intro v hv
  unfold Message.nonEmptyList at hv
  split at hv
  · cases hv
  · cases hv
    refine .array fun w hw => ?_
    obtain ⟨a, -, rfl⟩ := List.mem_map.mp hw
    exact h a

theorem FunctionCall.readable_toJson (f : FunctionCall) : Json.Readable (n + 1) f.toJson := by
  refine .ofMembers ?_
  simp only [List.forall_mem_cons]
  exact ⟨.text _, .text _, List.forall_mem_nil _⟩

theorem ToolCall.readable_toJson (c : ToolCall) : Json.Readable (n + 2) c.toJson := by
  have hindex : ∀ i ∈ c.index, Json.Readable (n + 1) (.ofNat i.toNat) :=
    fun i _ => .ofNat (lt_trans i.toNat_lt_size (by decide))
  refine .record ?_
  simp only [List.forall_mem_cons]
  exact ⟨readable_map hindex, readable_some (.text _), readable_some (.text _),
    readable_some c.function.readable_toJson, List.forall_mem_nil _⟩

theorem TokenUsage.readable_toJson (u : TokenUsage) : Json.Readable (n + 1) u.toJson := by
  refine .ofMembers ?_
  simp only [List.forall_mem_cons]
  exact ⟨.ofNat u.promptTokens.toNat_lt_size, .ofNat u.completionTokens.toNat_lt_size,
    .ofNat u.totalTokens.toNat_lt_size, List.forall_mem_nil _⟩

theorem ResponseInfo.readable_toJson (i : ResponseInfo) : Json.Readable (n + 2) i.toJson := by
  refine .record ?_
  simp only [List.forall_mem_cons]
  exact ⟨readable_map fun s _ => .text s, readable_map fun u _ => u.readable_toJson,
    List.forall_mem_nil _⟩

theorem Media.readable_toJson (m : Media) : Json.Readable (n + 1) m.toJson := by
  refine .record ?_
  simp only [List.forall_mem_cons]
  exact ⟨readable_some (.text _), readable_map fun s _ => .text s, List.forall_mem_nil _⟩

theorem Part.readable_toJson (p : Part) : Json.Readable (n + 2) p.toJson := by
  have hcontent : Json.Readable (n + 1) p.content := by
    cases p with
    | text s => exact .text s
    | image m | audio m | video m => exact m.readable_toJson
  rw [toJson_eq]
  refine .record ?_
  simp only [List.forall_mem_cons]
  exact ⟨readable_some (.text _), readable_some hcontent, List.forall_mem_nil _⟩

theorem Message.readable_toJson (m : Message) : Json.Readable (n + 4) m.toJson := by
  refine .record ?_
  simp only [List.forall_mem_cons]
  exact ⟨readable_some (.text _), readable_some (.text _),
    readable_nonEmptyList Part.readable_toJson m.parts,
    readable_nonEmptyList ToolCall.readable_toJson m.toolCalls,
    readable_map fun s _ => .text s, readable_map fun s _ => .text s,
    readable_map fun s _ => .text s, readable_map fun i _ => i.readable_toJson,
    List.forall_mem_nil _⟩

end Text

/-! ### Losslessness -/

namespace Message

/-- What the form of a message promises. -/
structure Lossless (m : Message) : Prop where
  /-- The message is read back from the text of its form. -/
  text : (Json.read? m.toJson.write).bind ofJson? = some m
  /-- It is read back from its form, also if there are more fields in any of the objects. -/
  widened : ∀ w, Widens m.toJson w → ofJson? w = some m
  /-- No other message has the form. So a text that is absent is not one that is empty. -/
  apart : ∀ m', m'.toJson = m.toJson → m' = m

/-- A message is read back from its form. -/
theorem ofJson?_toJson (m : Message) : ofJson? m.toJson = some m :=
  ofJson?_of_widens m.widens_toJson

/-- **The form of messages loses nothing.** -/
theorem lossless (m : Message) : Lossless m where
  text := by
    have hread : Json.read? m.toJson.write = some m.toJson :=
      Json.read?_write (m.readable_toJson (n := 0)) (by decide)
    rw [hread, Option.bind_some, ofJson?_toJson]
  widened _ := ofJson?_of_widens
  apart m' h := by
    have hsame := ofJson?_toJson m'
    rw [h, ofJson?_toJson] at hsame
    exact (Option.some.inj hsame).symm

example : ({ role := .tool, toolCallId := some "" } : Message).toJson ≠
    ({ role := .tool } : Message).toJson := by decide

end Message

end ChatRelay
