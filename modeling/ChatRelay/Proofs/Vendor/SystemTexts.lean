import ChatRelay.Proofs.Vendor.Conversation

/-!
# System texts and the conversation

Claude and Gemini take system texts apart from the conversation.  A request without its system
messages is made just when the request with them is, and fails with the same error otherwise; it
differs in the field of the system texts, which holds them in order, and in nothing else, unless a
system message stands between two results of tools (`Vendor.request_without_system`).

There the conversation differs, since the results before a system message are a turn of their own.
The turns without system messages are those with them, of which adjacent results are joined
(`Turn.joined_ofContributions`): no block is lost and none changes its place.

## Main definitions

* `Turn.joined` — turns with adjacent results put together
* `Turn.blocks`, `Contribution.blocks` — what a turn holds, and what a message adds to it
* `Message.PartsResults` — some results of tools have nothing but system messages between them
* `Vendor.SystemForm` — how a vendor takes system texts apart from the conversation
-/

namespace ChatRelay

open Result

/-! ### Adjacent results -/

namespace Turn

/-- A result in front of some turns.  It joins the results that come first. -/
def consResult (r : Json) : List Turn → List Turn
  | .results rs :: turns => .results (r :: rs) :: turns
  | turns => .results [r] :: turns

/-- Turns of which adjacent results are put together. -/
def joined : List Turn → List Turn
  | [] => []
  | .said role content :: turns => .said role content :: joined turns
  | .results rs :: turns =>
    match joined turns with
    | .results ss :: rest => .results (rs ++ ss) :: rest
    | rest => .results rs :: rest

/-- Of two turns one was said. -/
def Apart (t u : Turn) : Prop :=
  (∃ role content, t = .said role content) ∨ ∃ role content, u = .said role content

@[simp] theorem apart_said_left (role : Role) (content : List Json) (u : Turn) :
    Apart (.said role content) u :=
  Or.inl ⟨role, content, rfl⟩

@[simp] theorem apart_said_right (t : Turn) (role : Role) (content : List Json) :
    Apart t (.said role content) :=
  Or.inr ⟨role, content, rfl⟩

@[simp] theorem not_apart_results (rs ss : List Json) : ¬ Apart (.results rs) (.results ss) := by
  simp [Apart]

/-- What was said is apart from everything. -/
@[simp] theorem isChain_said_cons {role : Role} {content : List Json} {turns : List Turn} :
    (Turn.said role content :: turns).IsChain Apart ↔ turns.IsChain Apart := by
  cases turns with
  | nil => simp
  | cons u turns => simp [List.isChain_cons_cons]

/-- Results are apart from what follows unless that holds results. -/
theorem isChain_results_cons {rs : List Json} {turns : List Turn} :
    (Turn.results rs :: turns).IsChain Apart ↔
      (¬ ∃ ss rest, turns = .results ss :: rest) ∧ turns.IsChain Apart := by
  rcases turns with _ | ⟨_ | ss, turns⟩
  · simp
  · simp [List.isChain_cons_cons]
  · simp [List.isChain_cons_cons]

theorem joined_results_singleton (r : Json) (turns : List Turn) :
    joined (.results [r] :: turns) = consResult r (joined turns) := by
  rw [joined]
  rcases joined turns with _ | ⟨_ | _, _⟩ <;> rfl

/-- A result may join those that follow it before or after these are joined. -/
theorem joined_consResult (r : Json) (turns : List Turn) :
    joined (consResult r turns) = consResult r (joined turns) := by
  rcases turns with _ | ⟨_ | rs, turns⟩
  · rfl
  · exact joined_results_singleton r _
  · rw [consResult, joined, joined]
    rcases joined turns with _ | ⟨_ | _, _⟩ <;> rfl

/-- Turns that are apart stay as they are. -/
theorem joined_eq_self {turns : List Turn} (h : turns.IsChain Apart) : joined turns = turns := by
  induction turns with
  | nil => rfl
  | cons t turns ih =>
      cases t with
      | said role content => rw [joined, ih (isChain_said_cons.mp h)]
      | results rs =>
          obtain ⟨hnot, hrest⟩ := isChain_results_cons.mp h
          rw [joined, ih hrest]
          rcases turns with _ | ⟨_ | ss, turns⟩
          · rfl
          · rfl
          · exact absurd ⟨ss, turns, rfl⟩ hnot

theorem length_joined_le (turns : List Turn) : (joined turns).length ≤ turns.length := by
  induction turns with
  | nil => exact Nat.le_refl 0
  | cons t turns ih =>
      cases t with
      | said role content => simpa [joined] using ih
      | results rs =>
          rw [joined]
          split
          · next h =>
            rw [h] at ih
            simp only [List.length_cons] at ih ⊢
            omega
          · simpa using ih

/-- **Joining takes turns away where results stand side by side,** and nowhere else. -/
theorem length_joined_eq_iff {turns : List Turn} :
    (joined turns).length = turns.length ↔ turns.IsChain Apart := by
  refine ⟨fun h => ?_, fun h => by rw [joined_eq_self h]⟩
  induction turns with
  | nil => exact .nil
  | cons t turns ih =>
      have hle := length_joined_le turns
      cases t with
      | said role content => exact isChain_said_cons.mpr (ih (by simpa [joined] using h))
      | results rs =>
          rw [joined] at h
          split at h
          · next hjoined =>
            rw [hjoined] at hle
            simp only [List.length_cons] at h hle
            omega
          · next hnot =>
            have hchain := ih (by simpa using h)
            rw [joined_eq_self hchain] at hnot
            exact isChain_results_cons.mpr ⟨fun ⟨ss, rest, hrest⟩ => hnot ss rest hrest, hchain⟩

/-! ### Results that follow each other -/

theorem ofContributions_result_result (r s : Json) (cs : List Contribution) :
    ofContributions (.result r :: .result s :: cs) =
      consResult r (ofContributions (.result s :: cs)) := by
  rw [ofContributions]
  rcases ofContributions (.result s :: cs) with _ | ⟨_ | _, _⟩ <;> rfl

/-- A result that no result follows at once is a turn of its own. -/
theorem ofContributions_result {r : Json} {cs : List Contribution}
    (h : ∀ s ds, cs ≠ .result s :: ds) :
    ofContributions (.result r :: cs) = .results [r] :: ofContributions cs := by
  rcases cs with _ | ⟨_ | _ | s, cs⟩
  · rfl
  · rfl
  · rfl
  · exact absurd rfl (h s cs)

end Turn

namespace Contribution

/-- What is not a system text. -/
def isSpoken : Contribution → Bool
  | .system _ => false
  | _ => true

/-- What a contribution adds to the turns. -/
def blocks : Contribution → List Json
  | .system _ => []
  | .said _ content => content
  | .result content => [content]

end Contribution

namespace Turn

open Contribution (isSpoken)

/-- Where nothing is a system text, a result joins whatever results follow. -/
theorem ofContributions_result_of_isSpoken (r : Json) {cs : List Contribution}
    (h : ∀ c ∈ cs, c.isSpoken = true) :
    ofContributions (.result r :: cs) = consResult r (ofContributions cs) := by
  rcases cs with _ | ⟨_ | _ | s, cs⟩
  · rfl
  · simp [isSpoken] at h
  · rfl
  · exact ofContributions_result_result r s cs

/-- What a turn holds. -/
def blocks : Turn → List Json
  | .said _ content => content
  | .results contents => contents

theorem flatMap_blocks_consResult (r : Json) (turns : List Turn) :
    (consResult r turns).flatMap blocks = r :: turns.flatMap blocks := by
  rcases turns with _ | ⟨_ | _, _⟩ <;> rfl

/-- **Grouping loses no block and moves none.** -/
theorem flatMap_blocks_ofContributions (cs : List Contribution) :
    (ofContributions cs).flatMap blocks = cs.flatMap Contribution.blocks := by
  induction cs with
  | nil => rfl
  | cons c cs ih =>
      rw [List.flatMap_cons, ← ih]
      cases c with
      | system text => rfl
      | said role content => rfl
      | result r =>
          by_cases h : ∃ s ds, cs = .result s :: ds
          · obtain ⟨s, ds, rfl⟩ := h
            rw [ofContributions_result_result, flatMap_blocks_consResult]
            rfl
          · rw [ofContributions_result fun s ds hcs => h ⟨s, ds, hcs⟩]
            rfl

/-- **Without its system texts a conversation has the same turns, joined.** -/
theorem joined_ofContributions (cs : List Contribution) :
    joined (ofContributions cs) = ofContributions (cs.filter isSpoken) := by
  induction cs with
  | nil => rfl
  | cons c cs ih =>
      cases c with
      | system text => exact ih
      | said role content =>
          rw [ofContributions, joined, ih]
          rfl
      | result r =>
          -- Whether the result joins now or later, it comes to stand before what follows.
          have hleft : joined (ofContributions (.result r :: cs)) =
              consResult r (joined (ofContributions cs)) := by
            by_cases h : ∃ s ds, cs = .result s :: ds
            · obtain ⟨s, ds, rfl⟩ := h
              rw [ofContributions_result_result, joined_consResult]
            · rw [ofContributions_result fun s ds hcs => h ⟨s, ds, hcs⟩,
                joined_results_singleton]
          have hright : (Contribution.result r :: cs).filter isSpoken =
              .result r :: cs.filter isSpoken := rfl
          rw [hleft, hright, ih, ofContributions_result_of_isSpoken]
          exact fun c hc => (List.mem_filter.mp hc).2

end Turn

/-! ### Messages that part results -/

namespace Message

/-- Some results of tools have nothing but system messages between them, and at least one. -/
def PartsResults (messages : List Message) : Prop :=
  ∃ n, .tool :: (List.replicate (n + 1) .system ++ [.tool]) <:+: messages.map role

/-- A result of a tool comes first but for system messages. -/
def BeginsWithResult (messages : List Message) : Prop :=
  ∃ n, List.replicate n .system ++ [.tool] <+: messages.map role

variable {m : Message} {messages : List Message}

theorem not_partsResults_nil : ¬ PartsResults [] := by
  rintro ⟨n, h⟩
  simpa using List.infix_nil.mp h

theorem not_beginsWithResult_nil : ¬ BeginsWithResult [] := by
  rintro ⟨n, h⟩
  simpa using List.prefix_nil.mp h

theorem beginsWithResult_cons_iff : BeginsWithResult (m :: messages) ↔
    m.role = .tool ∨ m.role = .system ∧ BeginsWithResult messages := by
  unfold BeginsWithResult
  rw [List.map_cons]
  constructor
  · rintro ⟨n, h⟩
    cases n with
    | zero =>
        left
        simpa [eq_comm] using h
    | succ n =>
        right
        rw [List.replicate_succ, List.cons_append, List.cons_prefix_cons] at h
        exact ⟨h.1.symm, n, h.2⟩
  · rintro (h | ⟨h, n, hn⟩)
    · exact ⟨0, by simp [h]⟩
    · refine ⟨n + 1, ?_⟩
      rw [List.replicate_succ, List.cons_append, List.cons_prefix_cons]
      exact ⟨h.symm, hn⟩

/-- Results are parted further on, or the first message is a result and a system message follows
before the next one. -/
theorem partsResults_cons_iff : PartsResults (m :: messages) ↔
    PartsResults messages ∨ m.role = .tool ∧ ∃ s rest, messages = s :: rest ∧
      s.role = .system ∧ BeginsWithResult rest := by
  unfold PartsResults
  simp only [List.map_cons, List.infix_cons_iff, List.cons_prefix_cons, exists_or]
  rw [or_comm]
  refine or_congr_right ?_
  constructor
  · rintro ⟨n, htool, h⟩
    cases messages with
    | nil => simpa [List.replicate_succ] using List.prefix_nil.mp h
    | cons s rest =>
        rw [List.map_cons, List.replicate_succ, List.cons_append, List.cons_prefix_cons] at h
        exact ⟨htool.symm, s, rest, rfl, h.1.symm, n, h.2⟩
  · rintro ⟨htool, s, rest, rfl, hsystem, n, h⟩
    refine ⟨n, htool.symm, ?_⟩
    rw [List.map_cons, List.replicate_succ, List.cons_append, List.cons_prefix_cons]
    exact ⟨hsystem.symm, h⟩

end Message

/-! ### Messages in the vendor's form -/

namespace Contribution

variable {rules : Rules} {earlier earlier' messages : List Message} {m : Message}
  {cs : List Contribution}

theorem ofMessage_of_system (hrole : m.role = .system) :
    ofMessage rules earlier m = .ok (.system m.content) := by
  rw [ofMessage, hrole]

theorem ofMessage_of_tool (hrole : m.role = .tool) :
    ofMessage rules earlier m = (rules.answer earlier m).map .result := by
  rw [ofMessage, hrole]

/-- What a message adds is a system text, a result or something said, as its role is. -/
theorem ofMessage_cases {c : Contribution} (h : ofMessage rules earlier m = .ok c) :
    (m.role = .system ∧ c = .system m.content) ∨ (m.role = .tool ∧ ∃ r, c = .result r) ∨
      (m.role ≠ .system ∧ m.role ≠ .tool ∧ ∃ content, c = .said m.role content) := by
  by_cases hsystem : m.role = .system
  · rw [ofMessage_of_system hsystem] at h
    cases h
    exact Or.inl ⟨hsystem, rfl⟩
  · by_cases htool : m.role = .tool
    · rw [ofMessage_of_tool htool] at h
      obtain ⟨r, -, rfl⟩ := map_eq_ok_iff.mp h
      exact Or.inr (Or.inl ⟨htool, r, rfl⟩)
    · rw [ofMessage_of_spoken hsystem htool] at h
      obtain ⟨content, -, rfl⟩ := map_eq_ok_iff.mp h
      exact Or.inr (Or.inr ⟨hsystem, htool, content, rfl⟩)

theorem isSpoken_of_ofMessage {c : Contribution} (h : ofMessage rules earlier m = .ok c) :
    c.isSpoken = decide (m.role ≠ .system) := by
  rcases ofMessage_cases h with ⟨hrole, rfl⟩ | ⟨hrole, r, rfl⟩ | ⟨hrole, -, content, rfl⟩
  · simp [isSpoken, hrole]
  · simp [isSpoken, hrole]
  · simp [isSpoken, hrole]

/-- A result is written with regard to the calls before it, and to nothing else. -/
def Rules.LooksAtCalls (rules : Rules) : Prop :=
  ∀ earlier earlier' m, earlier.flatMap Message.toolCalls = earlier'.flatMap Message.toolCalls →
    rules.answer earlier m = rules.answer earlier' m

/-- **Without their system messages the messages add the same but for the system texts,** and fail
in the same way if they fail. -/
theorem ofMessagesFrom_filter (hrules : rules.LooksAtCalls)
    (hearlier : earlier.flatMap Message.toolCalls = earlier'.flatMap Message.toolCalls)
    (hcalls : ∀ m ∈ messages, m.role = .system → m.toolCalls = []) :
    ofMessagesFrom rules earlier' (messages.filter (·.role ≠ .system)) =
      (ofMessagesFrom rules earlier messages).map (List.filter isSpoken) := by
  induction messages generalizing earlier earlier' with
  | nil => rfl
  | cons m messages ih =>
      have hrest : ∀ m ∈ messages, m.role = .system → m.toolCalls = [] :=
        fun n hn => hcalls n (List.mem_cons_of_mem _ hn)
      rw [ofMessagesFrom]
      by_cases hsystem : m.role = .system
      · -- The message adds no call, so those after it see the same calls before them.
        have hnone : m.toolCalls = [] := hcalls m List.mem_cons_self hsystem
        have hsame : (m :: earlier).flatMap Message.toolCalls =
            earlier'.flatMap Message.toolCalls := by simpa [hnone] using hearlier
        rw [List.filter_cons_of_neg (by simpa using hsystem), ih hsame hrest,
          ofMessage_of_system hsystem]
        cases ofMessagesFrom rules (m :: earlier) messages <;> rfl
      · have hsame : (m :: earlier).flatMap Message.toolCalls =
            (m :: earlier').flatMap Message.toolCalls := by simp [hearlier]
        have hhead : ofMessage rules earlier' m = ofMessage rules earlier m := by
          by_cases htool : m.role = .tool
          · rw [ofMessage_of_tool htool, ofMessage_of_tool htool, hrules _ _ m hearlier]
          · rw [ofMessage_of_spoken hsystem htool, ofMessage_of_spoken hsystem htool]
        rw [List.filter_cons_of_pos (by simpa using hsystem), ofMessagesFrom, ih hsame hrest, hhead]
        cases hc : ofMessage rules earlier m with
        | error e => rfl
        | ok c =>
            have hspoken : c.isSpoken = true := by simpa [hsystem] using isSpoken_of_ofMessage hc
            cases ofMessagesFrom rules (m :: earlier) messages with
            | error e => rfl
            | ok cs => simp [bind, Except.bind, pure, Except.pure, Except.map, hspoken]

/-- The system texts are those of the system messages, in order. -/
theorem systemTexts_of_ofMessagesFrom (h : ofMessagesFrom rules earlier messages = .ok cs) :
    systemTexts cs = (messages.filter (·.role = .system)).map Message.content := by
  induction messages generalizing earlier cs with
  | nil =>
      cases h
      rfl
  | cons m messages ih =>
      obtain ⟨c, cs, hc, hcs, rfl⟩ := ofMessagesFrom_cons_eq_ok_iff.mp h
      have hrest := ih hcs
      unfold systemTexts at hrest ⊢
      rcases ofMessage_cases hc with ⟨hrole, rfl⟩ | ⟨hrole, r, rfl⟩ | ⟨hrole, -, content, rfl⟩
      · simp [hrole, hrest]
      · simp [hrole, hrest]
      · simp [hrole, hrest]

/-- Without system texts there are none. -/
theorem systemTexts_filter_isSpoken (cs : List Contribution) :
    systemTexts (cs.filter isSpoken) = [] := by
  refine List.filterMap_eq_nil_iff.mpr fun c hc => ?_
  have hspoken := (List.mem_filter.mp hc).2
  cases c with
  | system text => cases hspoken
  | said role content => rfl
  | result r => rfl

/-- The first turn holds results when the first message that is not a system message is a result. -/
theorem exists_results_iff (h : ofMessagesFrom rules earlier messages = .ok cs) :
    (∃ rs turns, Turn.ofContributions cs = .results rs :: turns) ↔
      Message.BeginsWithResult messages := by
  induction messages generalizing earlier cs with
  | nil =>
      cases h
      simp [Turn.ofContributions, Message.not_beginsWithResult_nil]
  | cons m messages ih =>
      obtain ⟨c, cs, hc, hcs, rfl⟩ := ofMessagesFrom_cons_eq_ok_iff.mp h
      rw [Message.beginsWithResult_cons_iff, ← ih hcs]
      rcases ofMessage_cases hc with ⟨hrole, rfl⟩ | ⟨hrole, r, rfl⟩ | ⟨hsystem, htool, content, rfl⟩
      · simp [hrole, Turn.ofContributions]
      · refine iff_of_true ?_ (Or.inl hrole)
        by_cases hnext : ∃ s ds, cs = .result s :: ds
        · obtain ⟨s, ds, rfl⟩ := hnext
          rw [Turn.ofContributions_result_result]
          rcases Turn.ofContributions (.result s :: ds) with _ | ⟨_ | _, _⟩ <;> exact ⟨_, _, rfl⟩
        · rw [Turn.ofContributions_result fun s ds hds => hnext ⟨s, ds, hds⟩]
          exact ⟨_, _, rfl⟩
      · simp [hsystem, htool, Turn.ofContributions]

/-- A result comes first when the first message is one. -/
theorem exists_result_iff (h : ofMessagesFrom rules earlier messages = .ok cs) :
    (∃ r ds, cs = .result r :: ds) ↔ ∃ s rest, messages = s :: rest ∧ s.role = .tool := by
  cases messages with
  | nil =>
      cases h
      simp
  | cons m messages =>
      obtain ⟨c, cs, hc, -, rfl⟩ := ofMessagesFrom_cons_eq_ok_iff.mp h
      rcases ofMessage_cases hc with ⟨hrole, rfl⟩ | ⟨hrole, r, rfl⟩ | ⟨-, htool, content, rfl⟩
      · simp [hrole]
      · simp [hrole]
      · simp [htool]

/-- **Results stand side by side where a system message parts them,** and nowhere else. -/
theorem isChain_ofContributions_iff (h : ofMessagesFrom rules earlier messages = .ok cs) :
    (Turn.ofContributions cs).IsChain Turn.Apart ↔ ¬ Message.PartsResults messages := by
  induction messages generalizing earlier cs with
  | nil =>
      cases h
      exact iff_of_true .nil Message.not_partsResults_nil
  | cons m messages ih =>
      obtain ⟨c, cs, hc, hcs, rfl⟩ := ofMessagesFrom_cons_eq_ok_iff.mp h
      have hrest := ih hcs
      have hbegins := exists_results_iff hcs
      have hnext := exists_result_iff hcs
      rw [Message.partsResults_cons_iff]
      rcases ofMessage_cases hc with ⟨hrole, rfl⟩ | ⟨hrole, r, rfl⟩ | ⟨-, htool, content, rfl⟩
      · simpa [hrole, Turn.ofContributions] using hrest
      · by_cases hresult : ∃ s ds, cs = .result s :: ds
        · -- The result joins the next one, and what follows them is the same.
          obtain ⟨s, rest, rfl, htool⟩ := hnext.mp hresult
          obtain ⟨s', ds, rfl⟩ := hresult
          obtain ⟨rs, turns, hturns⟩ := hbegins.mpr
            (Message.beginsWithResult_cons_iff.mpr (Or.inl htool))
          rw [hturns, Turn.isChain_results_cons] at hrest
          rw [Turn.ofContributions_result_result, hturns, Turn.consResult,
            Turn.isChain_results_cons, hrest]
          simp [htool]
        · rw [Turn.ofContributions_result fun s ds hds => hresult ⟨s, ds, hds⟩,
            Turn.isChain_results_cons, hrest, hbegins]
          have hfirst : Message.BeginsWithResult messages ↔ ∃ s rest, messages = s :: rest ∧
              s.role = .system ∧ Message.BeginsWithResult rest := by
            cases messages with
            | nil => simp [Message.not_beginsWithResult_nil]
            | cons s rest =>
                have htool : s.role ≠ .tool := fun ht => hresult (hnext.mpr ⟨s, rest, rfl, ht⟩)
                simp [Message.beginsWithResult_cons_iff, htool]
          rw [← hfirst]
          simp only [hrole, true_and]
          tauto
      · simpa [htool, Turn.ofContributions] using hrest

end Contribution

/-! ### Requests -/

namespace Vendor

/-- How a vendor takes system texts apart from the conversation. -/
structure SystemForm where
  rules : Contribution.Rules
  turnJson : Turn → Json
  /-- The member of a request that holds the system texts. -/
  systemKey : String
  systemJson? : List String → Option Json

/-- The vendors that take system texts apart. -/
def systemForm? : Vendor → Option SystemForm
  | claude _ => some ⟨Claude.rules, Claude.turnJson, "system", Claude.systemJson?⟩
  | gemini _ => some ⟨Gemini.rules, Gemini.turnJson, "systemInstruction", Gemini.systemJson?⟩
  | _ => none

variable {v : Vendor} {form : SystemForm}

theorem looksAtCalls_rules (hv : v.systemForm? = some form) : form.rules.LooksAtCalls := by
  cases v with
  | openAI c => cases hv
  | ollama c => cases hv
  | claude c =>
      cases hv
      exact fun _ _ _ _ => rfl
  | gemini c =>
      cases hv
      intro earlier earlier' m h
      simp only [Gemini.rules, Gemini.resultJson?, Gemini.functionName?, h]

theorem systemJson?_nil (hv : v.systemForm? = some form) : form.systemJson? [] = none := by
  cases v <;> cases hv <;> rfl

/-- A request is made from what the messages add: the turns and the system texts stand under keys of
their own, and all else is the same whatever the messages are. -/
theorem exists_request_eq (hv : v.systemForm? = some form) (stream : Bool) :
    ∃ w : ChatRequest → List Contribution → WireRequest,
      (∀ r, v.request r stream =
        Contribution.ofMessages form.rules r.messages >>= fun said => pure (w r said)) ∧
      (∀ r messages, w { r with messages } = w r) ∧
      (∀ r cs, (w r cs).body.get? v.turnsKey =
        some (.array ((Turn.ofContributions cs).map form.turnJson))) ∧
      (∀ r cs, (w r cs).body.get? form.systemKey =
        form.systemJson? (Contribution.systemTexts cs)) ∧
      ∀ r cs ds, w r ds = { w r cs with body := (w r ds).body } ∧
        ∀ key, key ≠ v.turnsKey → key ≠ form.systemKey →
          (w r ds).body.get? key = (w r cs).body.get? key := by
  cases v with
  | openAI c => cases hv
  | ollama c => cases hv
  | claude c =>
      cases hv
      refine ⟨_, fun r => rfl, fun r messages => rfl, fun r cs => ?_, fun r cs => ?_,
        fun r cs ds => ⟨rfl, fun key hturns hsystem => ?_⟩⟩
      · simp [turnsKey, Json.get?_record, Json.lookup_present_cons]
      · simp [Json.get?_record, Json.lookup_present_cons]
      · simp only [turnsKey] at hturns
        simp [Json.get?_record, Json.lookup_present_cons, hturns, hsystem]
  | gemini c =>
      cases hv
      refine ⟨_, fun r => rfl, fun r messages => rfl, fun r cs => ?_, fun r cs => ?_,
        fun r cs ds => ⟨rfl, fun key hturns hsystem => ?_⟩⟩
      · simp [turnsKey, Json.get?_record, Json.lookup_present_cons]
      · simp [Json.get?_record, Json.lookup_present_cons]
      · simp only [turnsKey] at hturns
        simp [Json.get?_record, Json.lookup_present_cons, hturns, hsystem]

/-- **System messages are set apart, and part nothing but results.**  A request without them is
made, or fails, as the one with them.  Their texts are held in order by a member of their own, and
all others are the same but for the turns: results that only a system message parts are joined when
it is gone, and the turns are the same just when there are none. -/
theorem request_without_system (hv : v.systemForm? = some form) (r : ChatRequest) (stream : Bool)
    (hcalls : ∀ m ∈ r.messages, m.role = .system → m.toolCalls = []) :
    let bare : ChatRequest := { r with messages := r.messages.filter (·.role ≠ .system) }
    let texts := (r.messages.filter (·.role = .system)).map Message.content
    (∀ e, v.request bare stream = .error e ↔ v.request r stream = .error e) ∧
    ∀ wire, v.request r stream = .ok wire → ∃ wire' turns,
      v.request bare stream = .ok wire' ∧ wire' = { wire with body := wire'.body } ∧
      wire.body.get? v.turnsKey = some (.array (turns.map form.turnJson)) ∧
      wire'.body.get? v.turnsKey = some (.array ((Turn.joined turns).map form.turnJson)) ∧
      (wire'.body.get? v.turnsKey = wire.body.get? v.turnsKey ↔
        ¬ Message.PartsResults r.messages) ∧
      wire.body.get? form.systemKey = form.systemJson? texts ∧ wire'.body.get? form.systemKey = none ∧
      ∀ key, key ≠ v.turnsKey → key ≠ form.systemKey →
        wire'.body.get? key = wire.body.get? key := by
  intro bare texts
  obtain ⟨w, hw, hsame, hturns, hsystem, hothers⟩ := exists_request_eq hv stream
  have hbare : v.request bare stream = ((Contribution.ofMessages form.rules r.messages).map
      (List.filter Contribution.isSpoken)) >>= fun said => pure (w r said) := by
    rw [hw, hsame, Contribution.ofMessages,
      Contribution.ofMessagesFrom_filter (looksAtCalls_rules hv) rfl hcalls]
    rfl
  rw [hbare, hw r]
  cases hsaid : Contribution.ofMessages form.rules r.messages with
  | error e => exact ⟨fun _ => Iff.rfl, fun wire hwire => by cases hwire⟩
  | ok cs =>
      refine ⟨fun e => iff_of_false (by rintro ⟨⟩) (by rintro ⟨⟩), ?_⟩
      rintro _ ⟨⟩
      have hrest := hothers r cs (cs.filter Contribution.isSpoken)
      have hturns' := hturns r (cs.filter Contribution.isSpoken)
      rw [← Turn.joined_ofContributions] at hturns'
      refine ⟨_, Turn.ofContributions cs, rfl, hrest.1, hturns r cs, hturns', ?_, ?_, ?_, hrest.2⟩
      · rw [← Contribution.isChain_ofContributions_iff hsaid, hturns', hturns]
        constructor
        · intro heq
          have hlength : (Turn.joined (Turn.ofContributions cs)).length =
              (Turn.ofContributions cs).length := by
            simpa using congrArg List.length (Json.array.inj (Option.some.inj heq))
          exact Turn.length_joined_eq_iff.mp hlength
        · intro hchain
          rw [Turn.joined_eq_self hchain]
      · rw [hsystem, Contribution.systemTexts_of_ofMessagesFrom hsaid]
      · rw [hsystem, Contribution.systemTexts_filter_isSpoken, systemJson?_nil hv]

/-- Two calls and their results, with system messages around the results. -/
def framedResults : List Message := [
  { role := .assistant, toolCalls := [{ index := some 0, id := "a", function := { name := "look" } },
      { index := some 1, id := "b", function := { name := "find" } }] },
  { role := .system, content := "Be brief." },
  { role := .tool, toolCallId := some "a", content := "1" },
  { role := .tool, toolCallId := some "b", content := "2" },
  { role := .system, content := "Be kind." }]

/-- No results are parted here, and the turns are those without the system messages. -/
theorem request_without_system_framedResults :
    ∃ wire wire', (gemini { http := default }).request { messages := framedResults } false =
        .ok wire ∧
      (gemini { http := default }).request
        { messages := framedResults.filter (·.role ≠ .system) } false = .ok wire' ∧
      wire'.body.get? "contents" = wire.body.get? "contents" ∧
      wire.body.get? "systemInstruction" = some (.ofMembers [("parts",
        .array [Gemini.textJson "Be brief.", Gemini.textJson "Be kind."])]) := by
  have hparts : ¬ Message.PartsResults framedResults := by
    simp [framedResults, Message.partsResults_cons_iff, Message.beginsWithResult_cons_iff,
      Message.not_partsResults_nil, Message.not_beginsWithResult_nil]
  obtain ⟨wire, hwire⟩ : ∃ wire, (gemini { http := default }).request
    { messages := framedResults } false = .ok wire := ⟨_, rfl⟩
  obtain ⟨wire', turns, hwire', -, -, -, hturns, hsystem, -⟩ := (request_without_system
    (v := gemini { http := default }) rfl { messages := framedResults } false (by decide)).2 wire hwire
  exact ⟨wire, wire', hwire, hwire', hturns.mpr hparts, hsystem⟩

/-- Two results of tools with a system message between them. -/
def partedResults : List Message := [
  { role := .assistant, toolCalls := [{ index := some 0, id := "a", function := { name := "look" } },
      { index := some 1, id := "b", function := { name := "find" } }] },
  { role := .tool, toolCallId := some "a", content := "1" },
  { role := .system, content := "Be brief." },
  { role := .tool, toolCallId := some "b", content := "2" }]

/-- Claude and Gemini hear parted results in two turns, and in one if no system message is there. -/
theorem turns_ne_without_system :
    (∃ wire wire', (claude { http := default }).request { messages := partedResults } false =
        .ok wire ∧
      (claude { http := default }).request
        { messages := partedResults.filter (·.role ≠ .system) } false = .ok wire' ∧
      wire'.body.get? "messages" ≠ wire.body.get? "messages") ∧
    ∃ wire wire', (gemini { http := default }).request { messages := partedResults } false =
        .ok wire ∧
      (gemini { http := default }).request
        { messages := partedResults.filter (·.role ≠ .system) } false = .ok wire' ∧
      wire'.body.get? "contents" ≠ wire.body.get? "contents" :=
  ⟨⟨_, _, rfl, rfl, by decide +kernel⟩, _, _, rfl, rfl, by decide +kernel⟩

end Vendor

end ChatRelay
