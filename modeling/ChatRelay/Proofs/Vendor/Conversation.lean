import ChatRelay.Proofs.Json.Members
import ChatRelay.Proofs.Outcome
import ChatRelay.Vendor

/-!
# Conversations in requests

A request holds the messages of a conversation in the form of the vendor, and all that may fail in
making it is to put a message into that form (`Vendor.sends_iff`).  A message of the model is a turn
of its own, which does not depend on the messages around it: it follows the turns of the messages
before it (`Vendor.turns?_concat`), and stays where it is whatever comes after
(`Vendor.exists_of_turns?`).

## Main definitions

* `Vendor.Sends` — a request is made, and holds some turns
* `Vendor.turns?`, `Vendor.turn?` — the turns of a conversation, and that of a message of the model
-/

namespace ChatRelay

open Result

namespace Contribution

variable {rules : Rules} {earlier xs ys : List Message} {cs : List Contribution} {m : Message}

theorem ofMessagesFrom_cons_eq_ok_iff : ofMessagesFrom rules earlier (m :: ys) = .ok cs ↔
    ∃ d ds, ofMessage rules earlier m = .ok d ∧
      ofMessagesFrom rules (m :: earlier) ys = .ok ds ∧ cs = d :: ds := by
  rw [ofMessagesFrom]
  simp only [bind_eq_ok_iff, pure, Except.pure, Except.ok.injEq]
  constructor
  · rintro ⟨d, hd, ds, hds, rfl⟩
    exact ⟨d, ds, hd, hds, rfl⟩
  · rintro ⟨d, ds, hd, hds, rfl⟩
    exact ⟨d, hd, ds, hds, rfl⟩

/-- Messages are put into the vendor's form one after the other, and those before are seen by those
after. -/
theorem ofMessagesFrom_append_eq_ok_iff : ofMessagesFrom rules earlier (xs ++ ys) = .ok cs ↔
    ∃ ds es, ofMessagesFrom rules earlier xs = .ok ds ∧
      ofMessagesFrom rules (xs.reverse ++ earlier) ys = .ok es ∧ cs = ds ++ es := by
  induction xs generalizing earlier cs with
  | nil => simp [ofMessagesFrom]
  | cons x xs ih =>
      rw [List.cons_append, List.reverse_cons, List.append_assoc, List.singleton_append]
      simp only [ofMessagesFrom_cons_eq_ok_iff]
      constructor
      · rintro ⟨d, cs, hd, hcs, rfl⟩
        obtain ⟨ds, es, hds, hes, rfl⟩ := ih.mp hcs
        exact ⟨d :: ds, es, ⟨d, ds, hd, hds, rfl⟩, hes, rfl⟩
      · rintro ⟨_, es, ⟨d, ds, hd, hds, rfl⟩, hes, rfl⟩
        exact ⟨d, ds ++ es, hd, ih.mpr ⟨ds, es, hds, hes, rfl⟩, rfl⟩

/-- What was said is put into the vendor's form without regard to what was said before. -/
theorem ofMessage_of_spoken (hsystem : m.role ≠ .system) (htool : m.role ≠ .tool) :
    ofMessage rules earlier m = (rules.say m).map (.said m.role) := by
  rw [ofMessage]
  cases hrole : m.role with
  | system => exact absurd hrole hsystem
  | tool => exact absurd hrole htool
  | user => rfl
  | assistant => rfl

end Contribution

/-- What was said parts the results before it from those after it. -/
theorem Turn.ofContributions_append_said (cs ds : List Contribution) (role : Role)
    (content : List Json) :
    ofContributions (cs ++ .said role content :: ds) =
      ofContributions cs ++ .said role content :: ofContributions ds := by
  induction cs with
  | nil => rfl
  | cons c cs ih =>
      cases c with
      | system text => exact ih
      | said role' content' =>
          rw [List.cons_append, ofContributions, ih, ofContributions]
          rfl
      | result r =>
          cases cs with
          | nil => rfl
          | cons d cs =>
              cases d with
              | system text => exact congrArg (Turn.results [r] :: ·) ih
              | said role' content' => exact congrArg (Turn.results [r] :: ·) ih
              | result s =>
                  -- The result joins those that follow it.
                  simp only [List.cons_append] at ih ⊢
                  simp only [ofContributions, ih]
                  rcases ofContributions (.result s :: cs) with _ | ⟨_ | _, _⟩ <;> rfl

namespace Vendor

/-- The member of a request that holds the conversation. -/
def turnsKey : Vendor → String
  | gemini _ => "contents"
  | _ => "messages"

/-- A request is made, and holds some turns. -/
def Sends (v : Vendor) (r : ChatRequest) (stream : Bool) (turns : List Json) : Prop :=
  ∃ wire, v.request r stream = .ok wire ∧ wire.body.get? v.turnsKey = some (.array turns)

/-- The turns of a conversation for a vendor that takes the results of tools as the user's. -/
def grouped? (rules : Contribution.Rules) (write : Turn → Json) (messages : List Message) :
    Result (List Json) :=
  (Contribution.ofMessages rules messages).map fun said => (Turn.ofContributions said).map write

/-- The turns of a conversation. -/
def turns? : Vendor → List Message → Result (List Json)
  | openAI c, messages => messages.mapM (OpenAI.messageJson? c.preset.typeName)
  | claude _, messages => grouped? Claude.rules Claude.turnJson messages
  | gemini _, messages => grouped? Gemini.rules Gemini.turnJson messages
  | ollama _, messages => messages.mapM Ollama.messageJson?

/-- The turn of a message of the model. -/
def turn? : Vendor → Message → Result Json
  | openAI c, m => OpenAI.messageJson? c.preset.typeName m
  | claude _, m => (Claude.blocks? m).map fun blocks => Claude.turnJson (.said .assistant blocks)
  | gemini _, m => (Gemini.parts? m).map fun parts => Gemini.turnJson (.said .assistant parts)
  | ollama _, m => Ollama.messageJson? m

variable {v : Vendor} {r : ChatRequest} {stream : Bool} {turns : List Json}

theorem sends_of_bind {α : Type} (x : Result α) (f : α → List Json) {w : α → WireRequest}
    (h : v.request r stream = x >>= fun a => pure (w a))
    (hw : ∀ a, (w a).body.get? v.turnsKey = some (.array (f a))) :
    v.Sends r stream turns ↔ x.map f = .ok turns := by
  unfold Sends
  rw [h, map_eq_ok_iff]
  constructor
  · rintro ⟨wire, hwire, hturns⟩
    obtain ⟨a, ha, hpure⟩ := bind_eq_ok_iff.mp hwire
    cases hpure
    rw [hw a] at hturns
    cases hturns
    exact ⟨a, ha, rfl⟩
  · rintro ⟨a, ha, rfl⟩
    exact ⟨w a, bind_eq_ok_iff.mpr ⟨a, ha, rfl⟩, hw a⟩

/-- **A request is made where the messages can be put into the vendor's form,** and it holds
them. -/
theorem sends_iff : v.Sends r stream turns ↔ v.turns? r.messages = .ok turns := by
  cases v with
  | openAI c =>
      rw [sends_of_bind (r.messages.mapM (OpenAI.messageJson? c.preset.typeName)) id rfl,
        Except.map_id]
      · rfl
      · intro messages
        simp [turnsKey, Json.get?_record, Json.lookup_present_cons]
  | claude c =>
      refine sends_of_bind (Contribution.ofMessages Claude.rules r.messages) _ rfl ?_
      intro said
      simp [turnsKey, Json.get?_record, Json.lookup_present_cons]
  | gemini c =>
      refine sends_of_bind (Contribution.ofMessages Gemini.rules r.messages) _ rfl ?_
      intro said
      simp [turnsKey, Json.get?_record, Json.lookup_present_cons]
  | ollama c =>
      rw [sends_of_bind (r.messages.mapM Ollama.messageJson?) id rfl, Except.map_id]
      · rfl
      · intro messages
        simp [turnsKey, Json.get?_record, Json.lookup_present_cons]

/-- A request that is made holds some turns. -/
theorem exists_turns_of_request {wire : WireRequest} (h : v.request r stream = .ok wire) :
    ∃ turns, wire.body.get? v.turnsKey = some (.array turns) ∧ v.turns? r.messages = .ok turns := by
  have hturns : ∃ turns, wire.body.get? v.turnsKey = some (.array turns) := by
    cases v
    all_goals
      obtain ⟨said, -, hwire⟩ := bind_eq_ok_iff.mp h
      cases hwire
      simp [turnsKey, Json.get?_record, Json.lookup_present_cons]
  obtain ⟨turns, hturns⟩ := hturns
  exact ⟨turns, hturns, sends_iff.mp ⟨wire, h, hturns⟩⟩

/-! ### The place of a message -/

section Place

variable {m : Message} {turn : Json} {before after : List Message} {pre : List Json}
  {f : Message → Result Json} {rules : Contribution.Rules} {write : Turn → Json}

theorem exists_of_mapM (h : (before ++ m :: after).mapM f = .ok turns) :
    ∃ turn pre post, f m = .ok turn ∧ before.mapM f = .ok pre ∧ turns = pre ++ turn :: post := by
  obtain ⟨pre, rest, hbefore, hrest, rfl⟩ := mapM_append_eq_ok_iff.mp h
  obtain ⟨turn, post, hturn, -, rfl⟩ := mapM_cons_eq_ok_iff.mp hrest
  exact ⟨turn, pre, post, hturn, hbefore, rfl⟩

theorem mapM_concat (hturn : f m = .ok turn) (h : before.mapM f = .ok pre) :
    (before ++ [m]).mapM f = .ok (pre ++ [turn]) := by
  have hm : [m].mapM f = .ok [turn] := mapM_cons_eq_ok_iff.mpr ⟨turn, [], hturn, rfl, rfl⟩
  exact mapM_append_eq_ok_iff.mpr ⟨pre, [turn], h, hm, rfl⟩

/-- What the user or the model said is a turn of its own, after those of the messages before it. -/
theorem exists_of_grouped? (hsystem : m.role ≠ .system) (htool : m.role ≠ .tool)
    (h : grouped? rules write (before ++ m :: after) = .ok turns) :
    ∃ content pre post, rules.say m = .ok content ∧ grouped? rules write before = .ok pre ∧
      turns = pre ++ write (.said m.role content) :: post := by
  obtain ⟨cs, hcs, rfl⟩ := map_eq_ok_iff.mp h
  obtain ⟨ds, rest, hds, hrest, rfl⟩ := Contribution.ofMessagesFrom_append_eq_ok_iff.mp hcs
  obtain ⟨d, es, hd, -, rfl⟩ := Contribution.ofMessagesFrom_cons_eq_ok_iff.mp hrest
  rw [Contribution.ofMessage_of_spoken hsystem htool] at hd
  obtain ⟨content, hcontent, rfl⟩ := map_eq_ok_iff.mp hd
  refine ⟨content, _, (Turn.ofContributions es).map write, hcontent,
    map_eq_ok_iff.mpr ⟨ds, hds, rfl⟩, ?_⟩
  rw [Turn.ofContributions_append_said, List.map_append, List.map_cons]

theorem grouped?_concat (hrole : m.role = .assistant)
    (hturn : (rules.say m).map (fun content => write (.said .assistant content)) = .ok turn)
    (h : grouped? rules write before = .ok pre) :
    grouped? rules write (before ++ [m]) = .ok (pre ++ [turn]) := by
  obtain ⟨ds, hds, rfl⟩ := map_eq_ok_iff.mp h
  obtain ⟨content, hcontent, rfl⟩ := map_eq_ok_iff.mp hturn
  have hm : Contribution.ofMessagesFrom rules (before.reverse ++ []) [m] =
      .ok [.said .assistant content] := by
    refine Contribution.ofMessagesFrom_cons_eq_ok_iff.mpr ⟨_, [], ?_, rfl, rfl⟩
    rw [Contribution.ofMessage_of_spoken (by simp [hrole]) (by simp [hrole]), hcontent, hrole]
    rfl
  refine map_eq_ok_iff.mpr ⟨ds ++ [.said .assistant content],
    Contribution.ofMessagesFrom_append_eq_ok_iff.mpr ⟨ds, _, hds, hm, rfl⟩, ?_⟩
  rw [Turn.ofContributions_append_said, List.map_append]
  rfl

theorem exists_of_said (hrole : m.role = .assistant)
    (hturn : (rules.say m).map (fun content => write (.said .assistant content)) = .ok turn)
    (h : grouped? rules write (before ++ m :: after) = .ok turns) :
    ∃ pre post, grouped? rules write before = .ok pre ∧ turns = pre ++ turn :: post := by
  obtain ⟨content, pre, post, hcontent, hpre, rfl⟩ :=
    exists_of_grouped? (by simp [hrole]) (by simp [hrole]) h
  rw [hcontent] at hturn
  cases hturn
  rw [hrole]
  exact ⟨pre, post, hpre, rfl⟩

/-- **Whatever comes after it, the turn of a message of the model follows those before it.** -/
theorem exists_of_turns? (hrole : m.role = .assistant) (hturn : v.turn? m = .ok turn)
    (h : v.turns? (before ++ m :: after) = .ok turns) :
    ∃ pre post, v.turns? before = .ok pre ∧ turns = pre ++ turn :: post := by
  have hlist (f : Message → Result Json) (hf : f m = .ok turn)
      (h : (before ++ m :: after).mapM f = .ok turns) :
      ∃ pre post, before.mapM f = .ok pre ∧ turns = pre ++ turn :: post := by
    obtain ⟨turn', pre, post, hm, hpre, rfl⟩ := exists_of_mapM h
    rw [hf] at hm
    cases hm
    exact ⟨pre, post, hpre, rfl⟩
  cases v with
  | openAI c => exact hlist _ hturn h
  | claude c => exact exists_of_said hrole hturn h
  | gemini c => exact exists_of_said hrole hturn h
  | ollama c => exact hlist _ hturn h

/-- **A conversation that can be sent can be sent with one more message of the model.** -/
theorem turns?_concat (hrole : m.role = .assistant) (hturn : v.turn? m = .ok turn)
    (h : v.turns? before = .ok pre) : v.turns? (before ++ [m]) = .ok (pre ++ [turn]) := by
  cases v with
  | openAI c => exact mapM_concat hturn h
  | claude c => exact grouped?_concat hrole hturn h
  | gemini c => exact grouped?_concat hrole hturn h
  | ollama c => exact mapM_concat hturn h

end Place

end Vendor

end ChatRelay
