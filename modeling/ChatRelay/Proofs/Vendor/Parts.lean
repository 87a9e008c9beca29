import ChatRelay.Proofs.Vendor.Turns

/-!
# Parts of messages

A message may have parts beside its text: more texts, pictures, sounds and films.  The OpenAI family
and Ollama hear the parts of every message, Claude and Gemini those of the user and of the model
(`Vendor.Hears`).  A part that is heard is shown in the request, in its place among the parts of its
message, and a part that the vendor cannot take makes the request fail.  The parts of the other
messages, of the system and of tools, have no effect on a request to Claude or Gemini: it is the
same without them (`Vendor.parts_shown_where_heard`).

## Main definitions

* `Vendor.Hears`, `Vendor.Takes` — the messages whose parts a vendor hears, and the parts that it
  can take
* `Vendor.Shows` — the turn of a message shows its parts
-/

namespace ChatRelay

open Result

/-- What stands for all members of a list stands for each. -/
theorem exists_of_forall₂ {α β : Type} {R : α → β → Prop} {xs : List α} {ys : List β}
    (h : List.Forall₂ R xs ys) : ∀ x ∈ xs, ∃ y, R x y := by
  induction h with
  | nil => simp
  | cons hxy _ ih => exact List.forall_mem_cons.mpr ⟨⟨_, hxy⟩, ih⟩

/-! ### The OpenAI family -/

namespace OpenAI

/-- A part and what stands for it: pictures and films as addresses, sounds as their data. -/
inductive IsPart : Part → Json → Prop
  | text (text : String) :
      IsPart (.text text) (.ofMembers [("type", .text "text"), ("text", .text text)])
  | image (m : Media) : IsPart (.image m) (.ofMembers [("type", .text "image_url"),
      ("image_url", .ofMembers [("url", .text m.url)])])
  | video (m : Media) : IsPart (.video m) (.ofMembers [("type", .text "video_url"),
      ("video_url", .ofMembers [("url", .text m.url)])])
  | audio {m : Media} {mime data : String} (hdata : m.inlineData? = some (mime, data)) :
      IsPart (.audio m) (.ofMembers [("type", .text "input_audio"), ("input_audio",
        .ofMembers [("data", .text data), ("format", .text (audioFormat mime))])])

theorem isPart_of_partJson? {vendor : String} {p : Part} {block : Json}
    (h : partJson? vendor p = .ok block) : IsPart p block := by
  cases p with
  | text text =>
      cases h
      exact .text text
  | image m =>
      cases h
      exact .image m
  | video m =>
      cases h
      exact .video m
  | audio m =>
      rw [partJson?] at h
      cases hdata : m.inlineData? with
      | none =>
          rw [hdata] at h
          cases h
      | some found =>
          rw [hdata] at h
          cases h
          exact .audio hdata

/-- The content of a message with parts is a list that ends with them. -/
theorem exists_content_of_messageJson? {vendor : String} {m : Message} {turn : Json}
    (h : messageJson? vendor m = .ok turn) (hparts : m.parts ≠ []) :
    ∃ lead items, turn.get? "content" = some (.array (lead ++ items)) ∧
      List.Forall₂ IsPart m.parts items := by
  obtain ⟨content, hcontent, h⟩ := bind_eq_ok_iff.mp h
  obtain ⟨answered, -, hturn⟩ := bind_eq_ok_iff.mp h
  cases hturn
  rw [contentJson?, if_neg (by simpa using hparts)] at hcontent
  obtain ⟨items, hitems, rfl⟩ := map_eq_ok_iff.mp hcontent
  have hstand : List.Forall₂ IsPart m.parts items :=
    (mapM_eq_ok_iff_forall₂.mp hitems).imp fun _ _ => isPart_of_partJson?
  refine ⟨if m.content.isEmpty then [] else [textJson m.content], items, ?_, hstand⟩
  simp [Json.get?_record, Json.lookup_present_cons]

end OpenAI

/-! ### Ollama -/

namespace Ollama

/-- The text of a part that is one. -/
def text? : Part → Option String
  | .text text => some text
  | _ => none

/-- A text and more texts, each on lines of its own.  Empty texts at the beginning leave no line. -/
def joined (text : String) (texts : List String) : String :=
  "\n".intercalate ((text :: texts).dropWhile (· = ""))

/-- What Ollama is shown of the parts of a message: its texts below that of the message, and the
data of its pictures. -/
structure Shows (m : Message) (turn : Json) : Prop where
  content : turn.get? "content" = some (.text (joined m.content (m.parts.filterMap text?)))
  images : ∃ datas, List.Forall₂ (fun source data => ∃ mime, source.inlineData? = some (mime, data))
      (m.parts.filterMap Part.media?) datas ∧ turn.get? "images" = Vendor.textsJson? datas
  kinds : ∀ p ∈ m.parts, ∀ source, p ≠ .audio source ∧ p ≠ .video source

theorem joined_nil (text : String) : joined text [] = text := by
  by_cases h : text = "" <;> simp [joined, h]

theorem joined_cons (text t : String) (texts : List String) :
    joined (if text.isEmpty then t else text ++ "\n" ++ t) texts = joined text (t :: texts) := by
  by_cases h : text = ""
  · simp [joined, h]
  · have hne : text ++ "\n" ++ t ≠ "" := by simp [String.append_eq_empty_iff]
    simp [joined, h, hne]

/-- Parts are added one by one: texts to the content, and data to the pictures. -/
theorem foldlM_add? {parts : List Part} {b c : Body} (h : parts.foldlM Body.add? b = .ok c) :
    c.content = joined b.content (parts.filterMap text?) ∧
      (∃ datas, c.images = b.images ++ datas ∧
        List.Forall₂ (fun source data => ∃ mime, source.inlineData? = some (mime, data))
          (parts.filterMap Part.media?) datas) ∧
      ∀ p ∈ parts, ∀ source, p ≠ .audio source ∧ p ≠ .video source := by
  induction parts generalizing b with
  | nil =>
      cases h
      exact ⟨(joined_nil _).symm, ⟨[], by simp, .nil⟩, by simp⟩
  | cons p parts ih =>
      rw [List.foldlM_cons] at h
      obtain ⟨b', hb', h⟩ := bind_eq_ok_iff.mp h
      obtain ⟨hcontent, ⟨datas, himages, hdatas⟩, hkinds⟩ := ih h
      cases p with
      | text text =>
          cases hb'
          exact ⟨hcontent.trans (joined_cons _ _ _), ⟨datas, himages, hdatas⟩,
            List.forall_mem_cons.mpr ⟨by simp, hkinds⟩⟩
      | image m =>
          rw [Body.add?] at hb'
          cases hdata : m.inlineData? with
          | none =>
              rw [hdata] at hb'
              cases hb'
          | some found =>
              rw [hdata] at hb'
              cases hb'
              refine ⟨hcontent, ⟨found.2 :: datas, ?_, .cons ⟨found.1, hdata⟩ hdatas⟩,
                List.forall_mem_cons.mpr ⟨by simp, hkinds⟩⟩
              simpa using himages
      | audio m => cases hb'
      | video m => cases hb'

theorem shows_of_messageJson? {m : Message} {turn : Json} (h : messageJson? m = .ok turn) :
    Shows m turn := by
  obtain ⟨b, hb, h⟩ := bind_eq_ok_iff.mp h
  obtain ⟨calls, -, hturn⟩ := bind_eq_ok_iff.mp h
  cases hturn
  obtain ⟨hcontent, ⟨datas, himages, hdatas⟩, hkinds⟩ := foldlM_add? hb
  refine ⟨?_, ⟨datas, hdatas, ?_⟩, hkinds⟩
  · simp [Json.get?_record, Json.lookup_present_cons, hcontent]
  · rw [List.nil_append] at himages
    simp [Json.get?_record, Json.lookup_present_cons, himages]

end Ollama

/-! ### All vendors -/

namespace Vendor

/-- The messages whose parts a vendor hears. -/
def Hears : Vendor → Message → Prop
  | openAI _, _ | ollama _, _ => True
  | claude _, m | gemini _, m => m.Speaks

/-- The parts that a vendor can take. -/
def Takes : Vendor → Part → Prop
  | openAI _, p => ∀ source, p = .audio source → source.inlineData? ≠ none
  | claude _, p => ∀ source, p ≠ .audio source ∧ p ≠ .video source
  | gemini _, _ => True
  | ollama _, p => ∀ source, (p = .image source → source.inlineData? ≠ none) ∧
      p ≠ .audio source ∧ p ≠ .video source

/-- A list in a turn has an item for each part of a message, in order and side by side. -/
def Lists (key : String) (IsPart : Part → Json → Prop) (m : Message) (turn : Json) : Prop :=
  ∃ lead items rest, turn.get? key = some (.array (lead ++ items ++ rest)) ∧
    List.Forall₂ IsPart m.parts items

/-- The turn of a message shows its parts. -/
def Shows : Vendor → Message → (turn : Json) → Prop
  | openAI _, m, turn => m.parts ≠ [] → Lists "content" OpenAI.IsPart m turn
  | claude _, m, turn => Lists "content" Claude.IsPart m turn
  | gemini _, m, turn => Lists "parts" Gemini.IsPart m turn
  | ollama _, m, turn => Ollama.Shows m turn

/-- Two messages differ at most in parts that a vendor does not hear. -/
def HearsAlike (v : Vendor) (m m' : Message) : Prop :=
  m' = { m with parts := m'.parts } ∧ (v.Hears m → m' = m)

variable {v : Vendor} {m : Message} {turn : Json}

theorem Lists.exists_of_mem {key : String} {IsPart : Part → Json → Prop}
    (h : Lists key IsPart m turn) {p : Part} (hp : p ∈ m.parts) : ∃ item, IsPart p item := by
  obtain ⟨_, _, _, -, hitems⟩ := h
  exact exists_of_forall₂ hitems p hp

/-- What is shown can be taken. -/
theorem takes_of_shows (h : v.Shows m turn) {p : Part} (hp : p ∈ m.parts) : v.Takes p := by
  cases v with
  | openAI c =>
      obtain ⟨item, hitem⟩ := (h (List.ne_nil_of_mem hp)).exists_of_mem hp
      rintro source rfl
      cases hitem with
      | audio hdata => simp [hdata]
  | claude c =>
      obtain ⟨item, hitem⟩ := Lists.exists_of_mem h hp
      intro source
      cases hitem <;> simp
  | gemini c => trivial
  | ollama c =>
      refine fun source => ⟨?_, h.kinds p hp source⟩
      rintro rfl
      obtain ⟨datas, hdatas, -⟩ := h.images
      obtain ⟨data, mime, hdata⟩ := exists_of_forall₂ hdatas source
        (List.mem_filterMap.mpr ⟨_, hp, rfl⟩)
      simp [hdata]

theorem lists_of_blocks {w : Wording} {key : String} {blocks : List Json} (h : w.Says m blocks)
    (hturn : turn.get? key = some (.array blocks)) : Lists key w.IsPart m turn := by
  obtain ⟨items, calls, hitems, -, rfl⟩ := h
  exact ⟨_, items, calls, hturn, hitems⟩

/-- A message that is heard has a turn of its own, after those of the messages before it, and the
turn shows its parts. -/
theorem exists_shows {before after : List Message} {turns : List Json} (hheard : v.Hears m)
    (h : v.turns? (before ++ m :: after) = .ok turns) :
    ∃ pre turn post, v.turns? before = .ok pre ∧ turns = pre ++ turn :: post ∧ v.Shows m turn := by
  cases v with
  | openAI c =>
      obtain ⟨turn, pre, post, hturn, hpre, rfl⟩ := exists_of_mapM h
      refine ⟨pre, turn, post, hpre, rfl, fun hparts => ?_⟩
      obtain ⟨lead, items, hcontent, hitems⟩ := OpenAI.exists_content_of_messageJson? hturn hparts
      exact ⟨lead, items, [], by simpa using hcontent, hitems⟩
  | claude c =>
      obtain ⟨hsystem, htool⟩ := Message.speaks_iff.mp hheard
      obtain ⟨blocks, pre, post, hblocks, hpre, rfl⟩ := exists_of_grouped? hsystem htool h
      refine ⟨pre, _, post, hpre, rfl, lists_of_blocks (Claude.words_rules.say.mp hblocks) ?_⟩
      simp [Claude.turnJson, Json.get?_ofMembers]
  | gemini c =>
      obtain ⟨hsystem, htool⟩ := Message.speaks_iff.mp hheard
      obtain ⟨blocks, pre, post, hblocks, hpre, rfl⟩ := exists_of_grouped? hsystem htool h
      refine ⟨pre, _, post, hpre, rfl, lists_of_blocks (Gemini.words_rules.say.mp hblocks) ?_⟩
      simp [Gemini.turnJson, Json.get?_ofMembers]
  | ollama c =>
      obtain ⟨turn, pre, post, hturn, hpre, rfl⟩ := exists_of_mapM h
      exact ⟨pre, turn, post, hpre, rfl, Ollama.shows_of_messageJson? hturn⟩

/-! ### Parts that are not heard -/

/-- Where all messages are heard, messages that are heard alike are the same. -/
theorem eq_of_hearsAlike {messages messages' : List Message}
    (h : List.Forall₂ v.HearsAlike messages messages') (hv : ∀ m, v.Hears m) :
    messages' = messages := by
  induction h with
  | nil => rfl
  | cons hm _ ih => rw [hm.2 (hv _), ih]

/-- Whoever takes what was said from the words of a message, and its result without regard to parts,
takes the same from messages that differ in unheard parts. -/
theorem ofMessagesFrom_of_hearsAlike {rules : Contribution.Rules} (hv : ∀ m, v.Hears m ↔ m.Speaks)
    (hlooks : rules.LooksAtCalls)
    (hanswer : ∀ earlier m parts, rules.answer earlier { m with parts } = rules.answer earlier m)
    {messages messages' earlier earlier' : List Message}
    (hearlier : earlier.flatMap Message.toolCalls = earlier'.flatMap Message.toolCalls)
    (h : List.Forall₂ v.HearsAlike messages messages') :
    Contribution.ofMessagesFrom rules earlier' messages' =
      Contribution.ofMessagesFrom rules earlier messages := by
  induction h generalizing earlier earlier' with
  | nil => rfl
  | @cons m m' messages messages' hm _ ih =>
      obtain ⟨hparts, hheard⟩ := hm
      -- What comes later looks back at calls only, and parts leave these as they are.
      have hcalls : (m :: earlier).flatMap Message.toolCalls =
          (m' :: earlier').flatMap Message.toolCalls := by
        rw [List.flatMap_cons, List.flatMap_cons, hearlier, hparts]
      have hhead : Contribution.ofMessage rules earlier' m' =
          Contribution.ofMessage rules earlier m := by
        have hrole : m'.role = m.role := by rw [hparts]
        have hcontent : m'.content = m.content := by rw [hparts]
        by_cases hsystem : m.role = .system
        · rw [Contribution.ofMessage_of_system hsystem,
            Contribution.ofMessage_of_system (hrole.trans hsystem), hcontent]
        · by_cases htool : m.role = .tool
          · rw [Contribution.ofMessage_of_tool htool,
              Contribution.ofMessage_of_tool (hrole.trans htool), hparts, hanswer,
              hlooks _ _ m hearlier]
          · obtain rfl := hheard ((hv m).mpr (Message.speaks_iff.mpr ⟨hsystem, htool⟩))
            rw [Contribution.ofMessage_of_spoken hsystem htool,
              Contribution.ofMessage_of_spoken hsystem htool]
      rw [Contribution.ofMessagesFrom, Contribution.ofMessagesFrom, hhead, ih hcalls]

/-- **Parts that are not heard have no effect on a request.** -/
theorem request_of_hearsAlike (r : ChatRequest) (stream : Bool) {messages : List Message}
    (h : List.Forall₂ v.HearsAlike r.messages messages) :
    v.request { r with messages } stream = v.request r stream := by
  have hgrouped {form : SystemForm} (hv : v.systemForm? = some form)
      (hheard : ∀ m, v.Hears m ↔ m.Speaks) (hanswer : ∀ earlier m parts,
        form.rules.answer earlier { m with parts } = form.rules.answer earlier m) :
      v.request { r with messages } stream = v.request r stream := by
    obtain ⟨w, hw, hsame, -⟩ := exists_request_eq hv stream
    rw [hw, hw, hsame, Contribution.ofMessages, ofMessagesFrom_of_hearsAlike hheard
      (looksAtCalls_rules hv) hanswer rfl h]
    rfl
  cases v with
  | openAI c => rw [eq_of_hearsAlike h fun _ => trivial]
  | claude c => exact hgrouped rfl (fun m => Iff.rfl) fun _ _ _ => rfl
  | gemini c => exact hgrouped rfl (fun m => Iff.rfl) fun _ _ _ => rfl
  | ollama c => rw [eq_of_hearsAlike h fun _ => trivial]

/-- **Parts are shown where they are heard.**  In a request that is made, each message that is heard
has a turn of its own that shows its parts, and a request is not made if some of them cannot be
taken.  The parts of the other messages have no effect on the request. -/
theorem parts_shown_where_heard (v : Vendor) (r : ChatRequest) (stream : Bool) :
    (∀ wire, v.request r stream = .ok wire → ∃ turns,
      wire.body.get? v.turnsKey = some (.array turns) ∧
      ∀ before m after, r.messages = before ++ m :: after → v.Hears m →
        ∃ pre turn post, v.turns? before = .ok pre ∧ turns = pre ++ turn :: post ∧
          v.Shows m turn) ∧
    (∀ m ∈ r.messages, v.Hears m → ∀ p ∈ m.parts, ¬ v.Takes p →
      ∃ e, v.request r stream = .error e) ∧
    ∀ messages, List.Forall₂ v.HearsAlike r.messages messages →
      v.request { r with messages } stream = v.request r stream := by
  refine ⟨fun wire hwire => ?_, fun m hm hheard p hp htakes => ?_,
    fun messages => request_of_hearsAlike r stream⟩
  · obtain ⟨turns, hbody, hturns⟩ := exists_turns_of_request hwire
    refine ⟨turns, hbody, fun before m after hmessages hheard => ?_⟩
    rw [hmessages] at hturns
    exact exists_shows hheard hturns
  · cases hrequest : v.request r stream with
    | error e => exact ⟨e, rfl⟩
    | ok wire =>
        obtain ⟨before, after, hmessages⟩ := List.append_of_mem hm
        obtain ⟨turns, -, hturns⟩ := exists_turns_of_request hrequest
        rw [hmessages] at hturns
        obtain ⟨-, turn, -, -, -, hshows⟩ := exists_shows hheard hturns
        exact absurd (takes_of_shows hshows hp) htakes

/-- A system message and a tool message with parts. -/
def toldAside : List Message := [
  { role := .system, content := "Be brief.", parts := [.text "Be kind."] },
  { role := .assistant, toolCalls := [{ id := "a", function := { name := "listen" } }] },
  { role := .tool, toolCallId := some "a", content := "1",
    parts := [.audio ⟨"https://host/rain.wav", none⟩] }]

/-- A text does not occur in what is sent. -/
def IsMissing (text : String) (wire : WireRequest) : Prop :=
  Setting.occursIn text.toList (Json.writeChars wire.body) = false

/-- Claude and Gemini are sent a request in which nothing tells of these parts, although Claude
takes no sounds. -/
theorem exists_request_without_parts :
    (∃ wire, (claude { http := default }).request { messages := toldAside } false = .ok wire ∧
      IsMissing "Be kind." wire ∧ IsMissing "rain.wav" wire) ∧
    (¬ (claude { http := default }).Takes (.audio ⟨"https://host/rain.wav", none⟩)) ∧
    ∃ wire, (gemini { http := default }).request { messages := toldAside } false = .ok wire ∧
      IsMissing "Be kind." wire ∧ IsMissing "rain.wav" wire := by
  refine ⟨⟨_, rfl, ?_, ?_⟩, fun h => (h _).1 rfl, _, rfl, ?_, ?_⟩
  all_goals
    unfold IsMissing
    decide +kernel

end Vendor

end ChatRelay
