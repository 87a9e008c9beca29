import ChatRelay.Proofs.Chat.Sending
import ChatRelay.Proofs.Json.Members

/-!
# Reported settings

The handlers of a call are told of its settings when it starts and when it ends.  They are told of
those that the request was made from (`LiveCall.Reports.eq`), and a request states these settings
where its vendor keeps them (`Vendor.states_of_request`).  So what is reported is what is sent, but
for two kinds of settings that cannot be sent as they are (`LiveCall.reports_what_is_sent`): numbers
beyond those of JSON are sent as null, and Claude is sent a token limit where none is set.  Models
that are made from the settings of Claude always have one.

## Main definitions

* `Vendor.Fields` — where the settings stand in the body of a request
* `Vendor.States` — what a request states of some settings
* `Vendor.Expresses`, `Vendor.CanExpress` — a request states settings as they are, and settings that
  can be stated so
* `LiveCall.Reports` — the handlers of a call were told of some settings
-/

namespace ChatRelay

open Result

/-! ### Settings in requests -/

namespace Vendor

/-- Where settings stand in the body of a request. -/
structure Fields where
  temperature : List String
  maxTokens : List String
  topP : List String
  stop : List String

def fields : Vendor → Fields
  | openAI _ => ⟨["temperature"], ["max_tokens"], ["top_p"], ["stop"]⟩
  | claude _ => ⟨["temperature"], ["max_tokens"], ["top_p"], ["stop_sequences"]⟩
  | gemini _ => ⟨["generationConfig", "temperature"], ["generationConfig", "maxOutputTokens"],
      ["generationConfig", "topP"], ["generationConfig", "stopSequences"]⟩
  | ollama _ => ⟨["options", "temperature"], ["options", "num_predict"], ["options", "top_p"],
      ["options", "stop"]⟩

/-- A request is for a model.  That of Gemini names the model in its address. -/
def NamesModel : Vendor → (model : String) → WireRequest → Prop
  | gemini c, model, wire => wire.url = Setting.withoutSlashes c.baseUrl ++ "/models/" ++ model ++
      (if wire.stream then ":streamGenerateContent?alt=sse" else ":generateContent")
  | _, model, wire => wire.body.get? "model" = some (.text model)

/-- A number as a value, none if it is beyond all numbers of JSON. -/
def numberJson? : Single → Option Json
  | .finite x => some (.number (.real x))
  | .beyond => none

/-- Texts as a value, which is absent if there are none. -/
def listJson? (texts : List String) : Option Json :=
  if texts = [] then none else some (.array (texts.map .text))

/-- The token limit of a request.  Claude must be given one. -/
def limit? : Vendor → Settings → Option UInt32
  | claude _, s => some (s.maxTokens.getD 4096)
  | _, s => s.maxTokens

/-- What a request states of some settings: a number that cannot be stated is null. -/
structure States (v : Vendor) (s : Settings) (wire : WireRequest) : Prop where
  model : v.NamesModel s.model wire
  temperature : wire.body.at? v.fields.temperature =
    s.temperature.map fun n => (numberJson? n).getD .null
  maxTokens : wire.body.at? v.fields.maxTokens = (v.limit? s).map fun n => .ofNat n.toNat
  topP : wire.body.at? v.fields.topP = s.topP.map fun n => (numberJson? n).getD .null
  stop : wire.body.at? v.fields.stop = listJson? s.stop

/-- A number is found as it is, and nothing is found if it is unset. -/
def IsNumber (n : Option Single) (found : Option Json) : Prop :=
  found.map some = n.map numberJson?

/-- A request states settings as they are, and leaves out those that are unset or empty. -/
structure Expresses (v : Vendor) (s : Settings) (wire : WireRequest) : Prop where
  model : v.NamesModel s.model wire
  temperature : IsNumber s.temperature (wire.body.at? v.fields.temperature)
  maxTokens : wire.body.at? v.fields.maxTokens = s.maxTokens.map fun n => .ofNat n.toNat
  topP : IsNumber s.topP (wire.body.at? v.fields.topP)
  stop : wire.body.at? v.fields.stop = listJson? s.stop

/-- Settings that a request can state as they are. -/
structure CanExpress (v : Vendor) (s : Settings) : Prop where
  temperature : s.temperature ≠ some .beyond
  topP : s.topP ≠ some .beyond
  maxTokens : ∀ c, v = claude c → s.maxTokens ≠ none

variable {v : Vendor} {r : ChatRequest} {stream : Bool} {wire : WireRequest}

/-- Members of an object that may be left out are found as those of a record. -/
theorem at?_object? (key : String) (members : List (String × Option Json)) :
    (object? members).bind (Json.at? [key]) =
      (members.reverse.filterMap Json.present?).lookup key := by
  by_cases hnone : members.all (·.2.isNone)
  · have hempty : members.reverse.filterMap Json.present? = [] := by
      refine List.filterMap_eq_nil_iff.mpr fun m hm => ?_
      have hm' := List.all_eq_true.mp hnone m (List.mem_reverse.mp hm)
      simp [Json.present?, Option.isNone_iff_eq_none.mp hm']
    rw [object?, if_pos hnone, hempty]
    rfl
  · rw [object?, if_neg hnone, Option.bind_some, Json.at?_record]
    cases (members.reverse.filterMap Json.present?).lookup key <;> simp

theorem toJson_eq (n : Single) : n.toJson = (numberJson? n).getD .null := by
  cases n <;> rfl

theorem textsJson?_eq (texts : List String) : textsJson? texts = listJson? texts := by
  cases texts <;> simp [textsJson?, listJson?, textsJson]

/-- **A request states its settings.** -/
theorem states_of_request (h : v.request r stream = .ok wire) : v.States r.settings wire := by
  have hnumbers : Single.toJson = fun n => (numberJson? n).getD .null := funext toJson_eq
  have hwords : Settings.wordJson = fun n => .ofNat n.toNat := rfl
  cases v with
  | openAI c =>
      obtain ⟨said, -, hwire⟩ := bind_eq_ok_iff.mp h
      cases hwire
      constructor
      · simp [NamesModel, Json.get?_record, Json.lookup_present_cons]
      all_goals simp [fields, limit?, Json.at?_record, Json.lookup_present_cons, hnumbers, hwords,
        textsJson?_eq]
  | claude c =>
      obtain ⟨said, -, hwire⟩ := bind_eq_ok_iff.mp h
      cases hwire
      constructor
      · simp [NamesModel, Json.get?_record, Json.lookup_present_cons]
      all_goals simp [fields, limit?, Claude.defaultMaxTokens, Json.at?_record,
        Json.lookup_present_cons, hnumbers, hwords, textsJson?_eq]
  | gemini c =>
      obtain ⟨said, -, hwire⟩ := bind_eq_ok_iff.mp h
      cases hwire
      constructor
      · rfl
      all_goals simp [fields, limit?, Json.at?_record, Gemini.generationJson?, at?_object?,
        Json.lookup_present_cons, hnumbers, hwords, textsJson?_eq]
  | ollama c =>
      obtain ⟨said, -, hwire⟩ := bind_eq_ok_iff.mp h
      cases hwire
      constructor
      · simp [NamesModel, Json.get?_record, Json.lookup_present_cons]
      all_goals simp [fields, limit?, Json.at?_record, Ollama.optionsJson?, at?_object?,
        Json.lookup_present_cons, hnumbers, hwords, textsJson?_eq]

theorem isNumber_iff {n : Option Single} {found : Option Json}
    (h : found = n.map fun n => (numberJson? n).getD .null) :
    IsNumber n found ↔ n ≠ some .beyond := by
  subst h
  rcases n with _ | _ | _ <;> simp [IsNumber, numberJson?]

/-- **Settings are expressed just when they can be.** -/
theorem States.expresses_iff {s : Settings} (h : v.States s wire) :
    v.Expresses s wire ↔ v.CanExpress s := by
  have htemperature := isNumber_iff h.temperature
  have htopP := isNumber_iff h.topP
  have hmaxTokens : wire.body.at? v.fields.maxTokens = (s.maxTokens.map fun n => .ofNat n.toNat) ↔
      ∀ c, v = claude c → s.maxTokens ≠ none := by
    rw [h.maxTokens]
    cases v <;> cases hlimit : s.maxTokens <;> simp [limit?, hlimit]
  constructor
  · intro hexpresses
    exact ⟨htemperature.mp hexpresses.temperature, htopP.mp hexpresses.topP,
      hmaxTokens.mp hexpresses.maxTokens⟩
  · intro hcan
    exact ⟨h.model, htemperature.mpr hcan.temperature, hmaxTokens.mpr hcan.maxTokens,
      htopP.mpr hcan.topP, h.stop⟩

end Vendor

/-! ### Settings that are reported -/

/-- A model made from the settings of its vendor has these as defaults. -/
theorem ChatModel.eq_of_ofVendor {v : Vendor} {m : ChatModel} (h : ofVendor v = .ok m) :
    m.vendor = v ∧ m.defaults = v.settings := by
  obtain ⟨-, -, h⟩ := bind_eq_ok_iff.mp h
  obtain ⟨made, hmade, h⟩ := bind_eq_ok_iff.mp h
  obtain ⟨-, -, hm⟩ := bind_eq_ok_iff.mp h
  obtain ⟨-, -, hbuilt⟩ := bind_eq_ok_iff.mp hmade
  cases hm
  cases hbuilt
  exact ⟨rfl, rfl⟩

namespace LiveCall

/-- The handlers of a call were told of some settings, at its start or at its end. -/
def Reports (c : LiveCall) (s : Settings) : Prop :=
  (∃ input, .started input ∈ c.events ∧ input.settings = s) ∨
    ∃ output, .ended output ∈ c.events ∧ output.settings = s

variable {c : LiveCall} {ms : List Move}

/-- The handlers are told of the settings of the call, and of no others. -/
theorem reports_iff {s : Settings} : (c.after ms).Reports s ↔ s = c.input.settings := by
  obtain ⟨stage, hstage⟩ := c.exists_after_eq ms
  rw [hstage, Reports, events]
  constructor
  · rintro (⟨input, hinput, rfl⟩ | ⟨output, houtput, rfl⟩)
    · rcases List.mem_cons.mp hinput with hstarted | hended
      · cases hstarted
        rfl
      · obtain ⟨ending, -, hending⟩ := List.mem_map.mp hended
        cases ending <;> cases hending
    · rcases List.mem_cons.mp houtput with hstarted | hended
      · cases hstarted
      · obtain ⟨ending, -, hending⟩ := List.mem_map.mp hended
        cases ending with
        | error e => cases hending
        | ok message =>
            cases hending
            rfl
  · rintro rfl
    exact Or.inl ⟨_, List.mem_cons_self, rfl⟩

/-- What was sent is the request of the call, in the vendor's form. -/
theorem request_of_mem_sent (hc : c.stage = .asking) {x : Nat × WireRequest} (hx : x ∈ c.sent ms) :
    c.model.vendor.request c.request c.demand.isStream = .ok x.2 := by
  -- Nothing is sent before the vendor is asked, and one request, with its repetitions, after that.
  by_cases hms : Move.work ∈ ms
  · rw [(after_of_mem_work hc hms).1, c.asked_eq_and_answer_eq.1] at hx
    cases hwire : c.model.wireRequest c.request c.demand.isStream with
    | error e =>
        rw [ChatModel.exchange_of_error _ hwire] at hx
        cases hx
    | ok wire =>
        obtain ⟨-, -, hsame, -⟩ := ChatModel.exchange_attempts c.demand.outcome hwire
        rw [hsame x hx]
        exact (ChatModel.wireRequest_eq_ok_iff.mp hwire).2
  · rw [(after_of_not_mem_work hc hms).2] at hx
    cases hx

/-- **What is reported is what is sent.**  The handlers of a call are told of one model and one set
of settings, be it at the start or at the end, and every request that the call sends states these.
It states them as they are unless a number is beyond those of JSON, or no token limit is set for
Claude; a model made from the settings of Claude has one. -/
theorem reports_what_is_sent (m : ChatModel) (globals own : List Handler) (id : Nat)
    (messages : List Message) (options : CallOptions) (demand : Demand) (ms : List Move) :
    let c := begin m globals own id messages options demand
    let d := c.after ms
    d.Reports (options.resolve m.defaults) ∧ ∀ s, d.Reports s →
      (∀ x ∈ c.sent ms, m.vendor.States s x.2 ∧
        (m.vendor.Expresses s x.2 ↔ m.vendor.CanExpress s)) ∧
      ∀ config, ChatModel.ofVendor (.claude config) = .ok m → s.maxTokens ≠ none := by
  intro c d
  refine ⟨reports_iff.mpr rfl, fun s hs => ?_⟩
  obtain rfl : s = options.resolve m.defaults := reports_iff.mp hs
  refine ⟨fun x hx => ?_, fun config hm => ?_⟩
  · have hstates : m.vendor.States (options.resolve m.defaults) x.2 :=
      Vendor.states_of_request (request_of_mem_sent rfl hx)
    exact ⟨hstates, hstates.expresses_iff⟩
  · obtain ⟨-, hdefaults⟩ := ChatModel.eq_of_ofVendor hm
    rw [hdefaults]
    cases hlimit : options.maxTokens <;>
      simp [CallOptions.resolve, hlimit, Vendor.settings, Claude.Config.settings]

/-- The parts of a model of Claude for which no token limit was set. -/
def unlimited : ChatModel.Plan where
  vendor := .claude { http := default }
  defaults := { model := "claude" }
  http := default
  streaming := {}

/-- The parts of a model of OpenAI. -/
def plain : ChatModel.Plan where
  vendor := .openAI { preset := .openAI, http := default }
  defaults := { model := "gpt" }
  http := default
  streaming := {}

/-- A reply is asked for and none comes. -/
def unanswered : Demand :=
  .reply fun _ _ => .error (.remote 400 "bad_request" "no" false none)

/-- Claude is told of a token limit that is not reported, and OpenAI is not told of a temperature
that is. -/
theorem exists_reports_unsent :
    (∃ m x s, ChatModel.build unlimited = .ok m ∧
      let c := begin m [] [] 0 [.user "Hello"] {} unanswered
      x ∈ c.sent [.work] ∧ (c.after [.work]).Reports s ∧ s.maxTokens = none ∧
        x.2.body.at? ["max_tokens"] = some (.ofNat 4096)) ∧
    ∃ m x s, ChatModel.build plain = .ok m ∧
      let c := begin m [] [] 0 [.user "Hello"] { temperature := some .beyond } unanswered
      x ∈ c.sent [.work] ∧ (c.after [.work]).Reports s ∧ s.temperature = some .beyond ∧
        x.2.body.at? ["temperature"] = some .null := by
  refine ⟨⟨_, (0, _), _, rfl, List.mem_cons_self, reports_iff.mpr rfl, rfl, by decide +kernel⟩,
    _, (0, _), _, rfl, List.mem_cons_self, reports_iff.mpr rfl, rfl, by decide +kernel⟩

end LiveCall

end ChatRelay
