import ChatRelay.Chat.Call
import ChatRelay.Proofs.Attempts
import ChatRelay.Proofs.Stream.Accumulator

/-!
# Whose doing a failure is

A step that fails says so plainly: its error names no component, since that is put in front where a
call ends, and it is not that of a consumer who cancelled (`Error.IsPlain`).  This holds of the
checks of a request and its translation (`Vendor.failsPlainly_request`), the reading of replies and
chunks (`Vendor.failsPlainly_reply`, `Vendor.failsPlainly_fragment`), and the merging of fragments
(`Message.failsPlainly_concat`); attempts that are repeated fail as one of them did
(`RetryPolicy.run_attempts`).  So a call fails as cancelled only where its consumer cancelled.

## Main definitions

* `Error.isNamed`, `Error.IsPlain` — an error with a component in front, and one of a single step
* `Result.FailsPlainly` — a step that fails with a plain error only
-/

namespace ChatRelay

namespace Error

/-- The name of a component and its operation stand in front. -/
def isNamed : Error → Bool
  | component .. => true
  | _ => false

/-- An error of a single step: it names no component, and is not the consumer's doing. -/
def IsPlain (e : Error) : Prop :=
  e.isNamed = false ∧ e.isCancelled = false

theorem withComponent_of_isNamed_eq_false {e : Error} (h : e.isNamed = false)
    (name operation : String) : e.withComponent name operation = component name operation e := by
  cases e with
  | component n o source => cases h
  | _ => rfl

end Error

/-- If a step fails, then with an error of its own. -/
abbrev Result.FailsPlainly {α : Type} (r : Result α) : Prop :=
  r.FailsOnly Error.IsPlain

theorem Result.FailsPlainly.neverCancelled {α : Type} {r : Result α} (h : r.FailsPlainly) :
    r.NeverCancelled :=
  fun e he => (h e he).2

open Result

/-! ### Merging -/

namespace Assembler

theorem failsPlainly_mergeText (field : String) (i : UInt32) (a b : String) :
    (mergeText field i a b).FailsPlainly := by
  unfold mergeText
  split
  · simp
  · split
    · simp
    · split
      · simp
      · exact failsOnly_error_iff.mpr ⟨rfl, rfl⟩

theorem isPlain_mergeCall {i : UInt32} {call fragment : ToolCall} {e : Error}
    (h : (mergeCall i call fragment).2 = some e) : e.IsPlain := by
  unfold mergeCall at h
  simp only at h
  split at h
  · next e' hid =>
    cases h
    exact failsPlainly_mergeText _ _ _ _ e hid
  · split at h
    · next e' hname =>
      cases h
      exact failsPlainly_mergeText _ _ _ _ e hname
    · cases h

theorem isPlain_insert {i : UInt32} {fragment : ToolCall} {l : List (UInt32 × ToolCall)}
    {e : Error} (h : (insert i fragment l).2 = some e) : e.IsPlain := by
  induction l with
  | nil => cases h
  | cons p rest ih =>
      unfold insert at h
      split at h
      · exact isPlain_mergeCall h
      · split at h
        · cases h
        · exact ih h

theorem isPlain_push {a : Assembler} {c : ToolCall} {e : Error} (h : (a.push c).2 = some e) :
    e.IsPlain := by
  unfold push at h
  split at h
  · cases h
  · exact isPlain_insert h

theorem failsPlainly_pushAll (a : Assembler) (cs : List ToolCall) :
    (a.pushAll cs).FailsPlainly := by
  induction cs generalizing a with
  | nil => simp
  | cons c cs ih =>
      unfold pushAll
      split
      · exact ih _
      · next e hpush =>
        exact failsOnly_error_iff.mpr (isPlain_push (congrArg Prod.snd hpush))

end Assembler

namespace Merge

theorem failsPlainly_addRole (current : Option Role) (role : Role) :
    (addRole current role).FailsPlainly := by
  unfold addRole
  split
  · simp
  · split
    · simp
    · exact failsOnly_error_iff.mpr ⟨rfl, rfl⟩

theorem failsPlainly_addOnce (field : String) (current incoming : Option String) :
    (addOnce field current incoming).FailsPlainly := by
  unfold addOnce
  split
  · simp
  · split
    · simp
    · split
      · simp
      · split
        · simp
        · exact failsOnly_error_iff.mpr ⟨rfl, rfl⟩

theorem failsPlainly_add (m : Merge) (f : Message) : (m.add f).FailsPlainly := by
  unfold add
  refine (failsPlainly_addRole _ _).bind fun role => ?_
  refine (Assembler.failsPlainly_pushAll _ _).bind fun calls => ?_
  refine (failsPlainly_addOnce _ _ _).bind fun toolCallId => ?_
  exact (failsPlainly_addOnce _ _ _).bind fun toolName => failsOnly_ok _

end Merge

theorem Message.failsPlainly_concat (fs : List Message) : (concat fs).FailsPlainly := by
  match fs with
  | [] => exact failsOnly_error_iff.mpr ⟨rfl, rfl⟩
  | [f] => exact failsOnly_ok f
  | f :: g :: fs => exact (failsOnly_foldlM Merge.failsPlainly_add _ _).map Merge.finish

theorem Accumulator.failsPlainly_push (a : Accumulator) (f : Message) :
    (a.push f).1.FailsPlainly := by
  rw [push_eq]
  split
  · exact failsOnly_ok none
  · exact (Message.failsPlainly_concat _).map some

theorem Accumulator.failsPlainly_finish (a : Accumulator) : a.finish.1.FailsPlainly := by
  rw [finish_eq]
  split
  · exact failsOnly_ok none
  · exact (Message.failsPlainly_concat _).map some

/-! ### Requests -/

namespace Contribution

variable {rules : Rules}

theorem failsPlainly_ofMessagesFrom (hsay : ∀ m, (rules.say m).FailsPlainly)
    (hanswer : ∀ earlier m, (rules.answer earlier m).FailsPlainly) (earlier ms : List Message) :
    (ofMessagesFrom rules earlier ms).FailsPlainly := by
  induction ms generalizing earlier with
  | nil => exact failsOnly_ok []
  | cons m ms ih =>
      have hmessage : (ofMessage rules earlier m).FailsPlainly := by
        unfold ofMessage
        split
        · exact failsOnly_ok _
        · exact (hanswer earlier m).map _
        · exact (hsay m).map _
      exact hmessage.bind fun c => (ih (m :: earlier)).bind fun cs => failsOnly_ok (c :: cs)

end Contribution

namespace Vendor

theorem failsPlainly_argumentsOf (vendor : String) (c : ToolCall) :
    (argumentsOf vendor c).FailsPlainly := by
  unfold argumentsOf
  split
  · exact failsOnly_ok _
  · exact failsOnly_error_iff.mpr ⟨rfl, rfl⟩

theorem failsPlainly_openAI_request (c : OpenAI.Config) (r : ChatRequest) (stream : Bool) :
    (OpenAI.request c r stream).FailsPlainly := by
  have hpart (p : Part) : (OpenAI.partJson? c.preset.typeName p).FailsPlainly := by
    unfold OpenAI.partJson?
    split
    · exact failsOnly_ok _
    · exact failsOnly_ok _
    · exact failsOnly_ok _
    · split
      · exact failsOnly_error_iff.mpr ⟨rfl, rfl⟩
      · exact failsOnly_ok _
  have hcontent (m : Message) : (OpenAI.contentJson? c.preset.typeName m).FailsPlainly := by
    unfold OpenAI.contentJson?
    split
    · exact failsOnly_ok _
    · exact (failsOnly_mapM hpart m.parts).map _
  have hanswered (m : Message) : (OpenAI.answeredId? m).FailsPlainly := by
    unfold OpenAI.answeredId?
    split
    · exact failsOnly_ok _
    · split
      · exact failsOnly_ok _
      · exact failsOnly_error_iff.mpr ⟨rfl, rfl⟩
  have hmessage (m : Message) : (OpenAI.messageJson? c.preset.typeName m).FailsPlainly :=
    (hcontent m).bind fun _ => (hanswered m).bind fun _ => failsOnly_ok _
  exact (failsOnly_mapM hmessage r.messages).bind fun _ => failsOnly_ok _

theorem failsPlainly_claude_request (c : Claude.Config) (r : ChatRequest) (stream : Bool) :
    (Claude.request c r stream).FailsPlainly := by
  have hpart (p : Part) : (Claude.partJson? p).FailsPlainly := by
    cases p with
    | text text => exact failsOnly_ok _
    | image m => exact failsOnly_ok _
    | audio m => exact failsOnly_error_iff.mpr ⟨rfl, rfl⟩
    | video m => exact failsOnly_error_iff.mpr ⟨rfl, rfl⟩
  have hcall (call : ToolCall) : (Claude.callJson? call).FailsPlainly :=
    (failsPlainly_argumentsOf _ call).map _
  have hsay (m : Message) : (Claude.blocks? m).FailsPlainly :=
    (failsOnly_mapM hpart m.parts).bind fun _ =>
      (failsOnly_mapM hcall m.toolCalls).bind fun _ => failsOnly_ok _
  exact (Contribution.failsPlainly_ofMessagesFrom hsay (fun _ _ => failsOnly_ok _)
    [] r.messages).bind fun _ => failsOnly_ok _

theorem failsPlainly_gemini_request (c : Gemini.Config) (r : ChatRequest) (stream : Bool) :
    (Gemini.request c r stream).FailsPlainly := by
  have hcall (call : ToolCall) : (Gemini.callJson? call).FailsPlainly :=
    (failsPlainly_argumentsOf _ call).map _
  have hsay (m : Message) : (Gemini.parts? m).FailsPlainly :=
    (failsOnly_mapM hcall m.toolCalls).bind fun _ => failsOnly_ok _
  have hanswer (earlier : List Message) (m : Message) :
      (Gemini.resultJson? earlier m).FailsPlainly := by
    unfold Gemini.resultJson?
    split
    · exact failsOnly_ok _
    · exact failsOnly_error_iff.mpr ⟨rfl, rfl⟩
  exact (Contribution.failsPlainly_ofMessagesFrom hsay hanswer [] r.messages).bind fun _ =>
    failsOnly_ok _

theorem failsPlainly_ollama_request (c : Ollama.Config) (r : ChatRequest) (stream : Bool) :
    (Ollama.request c r stream).FailsPlainly := by
  have hpart (b : Ollama.Body) (p : Part) : (b.add? p).FailsPlainly := by
    cases p with
    | text text => exact failsOnly_ok _
    | image m =>
        unfold Ollama.Body.add?
        simp only
        split
        · exact failsOnly_ok _
        · exact failsOnly_error_iff.mpr ⟨rfl, rfl⟩
    | audio m => exact failsOnly_error_iff.mpr ⟨rfl, rfl⟩
    | video m => exact failsOnly_error_iff.mpr ⟨rfl, rfl⟩
  have hcall (call : ToolCall) : (Ollama.callJson? call).FailsPlainly :=
    (failsPlainly_argumentsOf _ call).map _
  have hmessage (m : Message) : (Ollama.messageJson? m).FailsPlainly :=
    (failsOnly_foldlM hpart _ m.parts).bind fun _ =>
      (failsOnly_mapM hcall m.toolCalls).bind fun _ => failsOnly_ok _
  exact (failsOnly_mapM hmessage r.messages).bind fun _ => failsOnly_ok _

theorem failsPlainly_request (v : Vendor) (r : ChatRequest) (stream : Bool) :
    (v.request r stream).FailsPlainly := by
  cases v with
  | openAI c => exact failsPlainly_openAI_request c r stream
  | claude c => exact failsPlainly_claude_request c r stream
  | gemini c => exact failsPlainly_gemini_request c r stream
  | ollama c => exact failsPlainly_ollama_request c r stream

theorem failsPlainly_validate (v : Vendor) (r : ChatRequest) : (v.validate r).FailsPlainly := by
  have hchoice (choice : ToolChoice) : (v.validateChoice r choice).FailsPlainly := by
    unfold validateChoice
    split
    · exact failsOnly_error_iff.mpr ⟨rfl, rfl⟩
    · split
      · exact failsOnly_error_iff.mpr ⟨rfl, rfl⟩
      · exact failsOnly_ok _
  unfold validate
  split
  · exact failsOnly_error_iff.mpr ⟨rfl, rfl⟩
  · split
    · exact failsOnly_error_iff.mpr ⟨rfl, rfl⟩
    · split
      · exact hchoice _
      · exact failsOnly_ok _

/-! ### Replies -/

theorem isPlain_openAI_failure? {vendor : String} {body : Json} {e : Error}
    (h : OpenAI.failure? vendor body = some e) : e.IsPlain := by
  obtain ⟨_, -, rfl⟩ := Option.map_eq_some_iff.mp h
  exact ⟨rfl, rfl⟩

theorem isPlain_claude_failure? {body : Json} {e : Error}
    (h : Claude.failure? body = some e) : e.IsPlain := by
  unfold Claude.failure? at h
  split at h
  · cases h
    exact ⟨rfl, rfl⟩
  · cases h

theorem isPlain_gemini_failure? {body : Json} {e : Error}
    (h : Gemini.failure? body = some e) : e.IsPlain := by
  obtain ⟨_, -, rfl⟩ := Option.map_eq_some_iff.mp h
  exact ⟨rfl, rfl⟩

theorem isPlain_ollama_failure? {body : Json} {e : Error}
    (h : Ollama.failure? body = some e) : e.IsPlain := by
  obtain ⟨_, -, rfl⟩ := Option.map_eq_some_iff.mp h
  exact ⟨rfl, rfl⟩

theorem failsPlainly_candidate (numbered : Bool) (body : Json) :
    (Gemini.candidate numbered body).FailsPlainly := by
  unfold Gemini.candidate
  simp only
  split
  · next e h =>
    split at h
    · obtain ⟨_, -, rfl⟩ := Option.map_eq_some_iff.mp h
      exact failsOnly_error_iff.mpr ⟨rfl, rfl⟩
    · cases h
  · exact failsOnly_ok _

theorem failsPlainly_reply (v : Vendor) (body : Json) : (v.reply body).FailsPlainly := by
  cases v with
  | openAI c =>
      simp only [reply, OpenAI.reply]
      split
      · next e h => exact failsOnly_error_iff.mpr (isPlain_openAI_failure? h)
      · split
        · exact failsOnly_error_iff.mpr ⟨rfl, rfl⟩
        · exact failsOnly_ok _
  | claude c =>
      simp only [reply, Claude.reply]
      split
      · next e h => exact failsOnly_error_iff.mpr (isPlain_claude_failure? h)
      · split
        · exact failsOnly_error_iff.mpr ⟨rfl, rfl⟩
        · exact failsOnly_ok _
  | gemini c =>
      simp only [reply, Gemini.reply]
      split
      · next e h => exact failsOnly_error_iff.mpr (isPlain_gemini_failure? h)
      · split
        · exact failsOnly_error_iff.mpr ⟨rfl, rfl⟩
        · exact failsPlainly_candidate true body
  | ollama c =>
      simp only [reply, Ollama.reply]
      split
      · next e h => exact failsOnly_error_iff.mpr (isPlain_ollama_failure? h)
      · exact failsOnly_ok _

theorem failsPlainly_fragment (v : Vendor) (chunk : Json) :
    (v.fragment chunk).FailsPlainly := by
  cases v with
  | openAI c =>
      simp only [fragment, OpenAI.fragment]
      split
      · next e h => exact failsOnly_error_iff.mpr (isPlain_openAI_failure? h)
      · split <;> exact failsOnly_ok _
  | claude c =>
      simp only [fragment, Claude.fragment]
      split
      · next e h => exact failsOnly_error_iff.mpr (isPlain_claude_failure? h)
      · split
        · exact failsOnly_error_iff.mpr ⟨rfl, rfl⟩
        · exact failsOnly_ok _
  | gemini c =>
      simp only [fragment, Gemini.fragment]
      split
      · next e h => exact failsOnly_error_iff.mpr (isPlain_gemini_failure? h)
      · exact (failsPlainly_candidate false chunk).map _
  | ollama c =>
      simp only [fragment, Ollama.fragment]
      split
      · next e h => exact failsOnly_error_iff.mpr (isPlain_ollama_failure? h)
      · exact failsOnly_ok _

end Vendor

/-! ### Calls -/

namespace ChatModel

variable {α : Type}

theorem neverCancelled_wireRequest (m : ChatModel) (r : ChatRequest) (stream : Bool) :
    (m.wireRequest r stream).NeverCancelled :=
  FailsPlainly.neverCancelled <|
    (m.vendor.failsPlainly_validate r).bind fun _ => m.vendor.failsPlainly_request r stream

/-- A request is refused before anything is sent, or what comes of it is what some attempt does. -/
theorem exchange_result_cases (m : ChatModel) (r : ChatRequest) (stream : Bool)
    (outcome : WireRequest → Nat → Result α) :
    (∃ e, (m.exchange r stream outcome).result = .error e ∧ e.isCancelled = false) ∨
      ∃ wire k, (m.exchange r stream outcome).result = outcome wire k := by
  unfold exchange
  split
  · next e h => exact Or.inl ⟨e, rfl, neverCancelled_wireRequest m r stream e h⟩
  · next wire h =>
    exact Or.inr ⟨wire, _, (m.retry.run_attempts (outcome wire)).2.2.2⟩

theorem neverCancelled_exchange (m : ChatModel) (r : ChatRequest) (stream : Bool)
    {outcome : WireRequest → Nat → Result α} (h : ∀ wire k, (outcome wire k).NeverCancelled) :
    (m.exchange r stream outcome).result.NeverCancelled := by
  rcases m.exchange_result_cases r stream outcome with ⟨e, he, hcancelled⟩ | ⟨wire, k, hk⟩
  · rw [he]
    exact neverCancelled_error_iff.mpr hcancelled
  · rw [hk]
    exact h wire k

end ChatModel

end ChatRelay
