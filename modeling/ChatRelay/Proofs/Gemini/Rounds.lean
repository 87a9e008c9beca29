import ChatRelay.Proofs.Vendor.SystemTexts

/-!
# Rounds of calls and their results

Gemini takes the result of a tool with the name of the function, and a message that tells only the id
of a call gets the name from a call before it.  Ids are used again in every round of calls, so the
latest call with the id counts.  It is one of the calls that the model asked for last
(`Gemini.Answerable`), hence in a conversation of rounds every result is sent with the name of the
function that was called in its own round (`Gemini.results_named_by_round`).

## Main definitions

* `Gemini.InRounds` — a conversation in which results answer the latest calls of the model
* `Gemini.functionResponses` — the results of tools in a request
* `Gemini.Answerable` — calls that are found first under their ids
-/

namespace ChatRelay.Gemini

open Result

/-- A message does not say itself which function it is the result of. -/
def NamesNoFunction (m : Message) : Prop :=
  ∀ name, m.toolName = some name → name = ""

/-- A conversation in rounds, of which the latest calls of the model are `asked`.  The model makes
calls with different ids, and what tools return answers those calls in any order, while the user and
the system may speak at any time.  The results are listed with the calls that they answer. -/
inductive InRounds : (asked : List ToolCall) → List Message → List (ToolCall × Message) → Prop
  | nil {asked : List ToolCall} : InRounds asked [] []
  | aside {asked : List ToolCall} {m : Message} {ms : List Message}
      {answers : List (ToolCall × Message)} (hrole : m.role = .user ∨ m.role = .system)
      (hcalls : m.toolCalls = []) (hrest : InRounds asked ms answers) :
      InRounds asked (m :: ms) answers
  | calls {asked : List ToolCall} {m : Message} {ms : List Message}
      {answers : List (ToolCall × Message)} (hrole : m.role = .assistant)
      (hids : (m.toolCalls.map ToolCall.id).Nodup)
      (harguments : ∀ call ∈ m.toolCalls, ∃ v, call.argumentsValue = .ok v)
      (hrest : InRounds m.toolCalls ms answers) : InRounds asked (m :: ms) answers
  /-- The message has no calls of its own that could be taken for those that it answers. -/
  | result {asked : List ToolCall} {m : Message} {ms : List Message}
      {answers : List (ToolCall × Message)} {call : ToolCall} (hrole : m.role = .tool)
      (hname : NamesNoFunction m) (hcall : call ∈ asked) (hid : m.toolCallId = some call.id)
      (hcalls : ∀ own ∈ m.toolCalls, ∀ call ∈ asked, own.id ≠ call.id)
      (hrest : InRounds asked ms answers) : InRounds asked (m :: ms) ((call, m) :: answers)

/-- Every message of a tool is listed with a call. -/
theorem InRounds.map_snd {asked : List ToolCall} {ms : List Message}
    {answers : List (ToolCall × Message)} (h : InRounds asked ms answers) :
    answers.map Prod.snd = ms.filter (·.role = .tool) := by
  induction h with
  | nil => rfl
  | aside hrole _ _ ih => rcases hrole with hrole | hrole <;> simp [hrole, ih]
  | calls hrole _ _ _ ih => simp [hrole, ih]
  | result hrole _ _ _ _ _ ih => simp [hrole, ih]

/-! ### Calls under their ids -/

/-- Each of some calls is the first that is found under its id, the latest message coming first. -/
def Answerable (asked : List ToolCall) (earlier : List Message) : Prop :=
  ∀ call ∈ asked, (earlier.flatMap (·.toolCalls)).find? (·.id == call.id) = some call

namespace Answerable

variable {asked : List ToolCall} {earlier : List Message} {m : Message}

theorem find?_of_nodup {calls : List ToolCall} (hids : (calls.map ToolCall.id).Nodup)
    {call : ToolCall} (hcall : call ∈ calls) : calls.find? (·.id == call.id) = some call := by
  induction calls with
  | nil => cases hcall
  | cons c calls ih =>
      rw [List.map_cons, List.nodup_cons] at hids
      rcases List.mem_cons.mp hcall with rfl | hcall
      · simp
      · have hne : c.id ≠ call.id := fun h => hids.1 (h ▸ List.mem_map_of_mem hcall)
        rw [List.find?_cons_of_neg (by simpa using hne)]
        exact ih hids.2 hcall

/-- The calls that the model makes can be answered from then on. -/
theorem of_calls (hids : (m.toolCalls.map ToolCall.id).Nodup) :
    Answerable m.toolCalls (m :: earlier) := by
  intro call hcall
  rw [List.flatMap_cons, List.find?_append, find?_of_nodup hids hcall]
  rfl

/-- Calls stay answerable as long as no other has one of their ids. -/
theorem cons (h : Answerable asked earlier)
    (hcalls : ∀ own ∈ m.toolCalls, ∀ call ∈ asked, own.id ≠ call.id) :
    Answerable asked (m :: earlier) := by
  intro call hcall
  have hnone : m.toolCalls.find? (·.id == call.id) = none :=
    List.find?_eq_none.mpr fun own hown => by simpa using hcalls own hown call hcall
  rw [List.flatMap_cons, List.find?_append, hnone, h call hcall]
  rfl

end Answerable

/-- The function of a message that does not name it is that of the latest call with its id. -/
theorem functionName?_of_namesNoFunction {earlier : List Message} {m : Message}
    (h : NamesNoFunction m) : functionName? earlier m = m.toolCallId.bind fun id =>
      ((earlier.flatMap (·.toolCalls)).find? (·.id == id)).map (·.function.name) := by
  have hnone : m.toolName.bind Vendor.nonEmpty? = none := by
    cases hname : m.toolName with
    | none => rfl
    | some name =>
        rw [h name hname]
        rfl
  rw [functionName?, hnone, Option.none_or]

/-! ### The results of tools in a request -/

/-- The values of an array that is a member of an object. -/
def itemsAt (key : String) (v : Json) : List Json :=
  ((v.get? key).bind Json.asArray?).getD []

/-- The results of tools that a request holds, in order. -/
def functionResponses (body : Json) : List Json :=
  (itemsAt "contents" body).flatMap fun turn =>
    (itemsAt "parts" turn).filterMap (·.get? "functionResponse")

/-- The result of a function, as a request holds it. -/
def responseJson (function content : String) : Json :=
  .ofMembers [("name", .text function), ("response", .ofMembers [("content", .text content)])]

theorem itemsAt_turnJson (turn : Turn) : itemsAt "parts" (turnJson turn) = turn.blocks := by
  cases turn <;> simp [itemsAt, turnJson, Json.get?_ofMembers, Json.asArray?, Turn.blocks]

/-- What was said holds no results of tools. -/
theorem filterMap_of_parts {m : Message} {content : List Json} (h : parts? m = .ok content) :
    content.filterMap (·.get? "functionResponse") = [] := by
  obtain ⟨calls, hcalls, hcontent⟩ := bind_eq_ok_iff.mp h
  cases hcontent
  have htext (text : String) : (textJson text).get? "functionResponse" = none := by
    simp [textJson, Json.get?_ofMembers]
  have hmedia (media : Media) : (mediaJson media).get? "functionResponse" = none := by
    rw [mediaJson]
    split <;> simp [Json.get?_ofMembers]
  rw [List.filterMap_append, List.filterMap_append, List.append_eq_nil_iff,
    List.append_eq_nil_iff]
  refine ⟨⟨?_, ?_⟩, ?_⟩
  · split <;> simp [htext]
  · refine List.filterMap_eq_nil_iff.mpr fun part hpart => ?_
    obtain ⟨p, -, rfl⟩ := List.mem_map.mp hpart
    cases p with
    | text text => exact htext text
    | image media => exact hmedia media
    | audio media => exact hmedia media
    | video media => exact hmedia media
  · refine List.filterMap_eq_nil_iff.mpr fun sent hsent => ?_
    obtain ⟨call, -, hcall⟩ := exists_of_mem_of_mapM_eq_ok hcalls sent hsent
    obtain ⟨arguments, -, rfl⟩ := map_eq_ok_iff.mp hcall
    simp [Json.get?_ofMembers]

/-- The results that messages add, in order. -/
def resultsOf (cs : List Contribution) : List Json :=
  (cs.flatMap Contribution.blocks).filterMap (·.get? "functionResponse")

theorem resultsOf_cons_said {role : Role} {m : Message} {content : List Json}
    (h : parts? m = .ok content) (cs : List Contribution) :
    resultsOf (.said role content :: cs) = resultsOf cs := by
  rw [resultsOf, List.flatMap_cons, List.filterMap_append]
  exact congrArg (· ++ resultsOf cs) (filterMap_of_parts h)

/-- **A request holds the results that its messages add,** and it is made if they can be put into
parts. -/
theorem exists_request {c : Config} {r : ChatRequest} {cs : List Contribution} (stream : Bool)
    (h : Contribution.ofMessages rules r.messages = .ok cs) :
    ∃ wire, request c r stream = .ok wire ∧ functionResponses wire.body = resultsOf cs := by
  have hsends : (Vendor.gemini c).Sends r stream ((Turn.ofContributions cs).map turnJson) :=
    Vendor.sends_iff.mpr (map_eq_ok_iff.mpr ⟨cs, h, rfl⟩)
  obtain ⟨wire, hwire, hturns⟩ := hsends
  refine ⟨wire, hwire, ?_⟩
  have hcontents : wire.body.get? "contents" =
      some (.array ((Turn.ofContributions cs).map turnJson)) := hturns
  have hitems : itemsAt "contents" wire.body = (Turn.ofContributions cs).map turnJson := by
    rw [itemsAt, hcontents]
    rfl
  rw [functionResponses, hitems, List.flatMap_map, resultsOf,
    ← Turn.flatMap_blocks_ofContributions, List.filterMap_flatMap]
  simp only [itemsAt_turnJson]

/-- What the user, the model or the system says is put into parts if the arguments of its calls are
JSON, and it adds no result. -/
theorem exists_ofMessage_of_said (earlier : List Message) {m : Message} (hrole : m.role ≠ .tool)
    (harguments : m.role ≠ .system → ∀ call ∈ m.toolCalls, ∃ v, call.argumentsValue = .ok v) :
    ∃ d, Contribution.ofMessage rules earlier m = .ok d ∧
      ∀ cs, resultsOf (d :: cs) = resultsOf cs := by
  by_cases hsystem : m.role = .system
  · exact ⟨_, Contribution.ofMessage_of_system hsystem, fun cs => rfl⟩
  · obtain ⟨calls, hcalls⟩ : ∃ calls, m.toolCalls.mapM callJson? = .ok calls := by
      refine exists_mapM_eq_ok fun call hcall => ?_
      obtain ⟨v, hv⟩ := harguments hsystem call hcall
      exact ⟨_, map_eq_ok_iff.mpr ⟨v, by rw [Vendor.argumentsOf, hv], rfl⟩⟩
    have hparts : parts? m = .ok _ := bind_eq_ok_iff.mpr ⟨calls, hcalls, rfl⟩
    refine ⟨.said m.role _, ?_, resultsOf_cons_said hparts⟩
    rw [Contribution.ofMessage_of_spoken hsystem hrole]
    exact map_eq_ok_iff.mpr ⟨_, hparts, rfl⟩

/-- A message that answers a call adds a result with the name of its function. -/
theorem exists_ofMessage_of_answer {asked : List ToolCall} {earlier : List Message} {m : Message}
    {call : ToolCall} (h : Answerable asked earlier) (hrole : m.role = .tool)
    (hname : NamesNoFunction m) (hcall : call ∈ asked) (hid : m.toolCallId = some call.id) :
    ∃ d, Contribution.ofMessage rules earlier m = .ok d ∧
      ∀ cs, resultsOf (d :: cs) = responseJson call.function.name m.content :: resultsOf cs := by
  have hfunction : functionName? earlier m = some call.function.name := by
    rw [functionName?_of_namesNoFunction hname, hid, Option.bind_some, h call hcall]
    rfl
  have hresult : resultJson? earlier m = .ok (.ofMembers [("functionResponse",
      responseJson call.function.name m.content)]) := by
    rw [resultJson?, hfunction]
    rfl
  refine ⟨.result (.ofMembers [("functionResponse", responseJson call.function.name m.content)]),
    ?_, fun cs => ?_⟩
  · rw [Contribution.ofMessage_of_tool hrole]
    exact map_eq_ok_iff.mpr ⟨_, hresult, rfl⟩
  · simp [resultsOf, Contribution.blocks, Json.get?_ofMembers]

/-- **Messages in rounds are put into parts, and each result names the function that it answers.** -/
theorem InRounds.exists_ofMessagesFrom {asked : List ToolCall} {ms : List Message}
    {answers : List (ToolCall × Message)} (h : InRounds asked ms answers) {earlier : List Message}
    (hearlier : Answerable asked earlier) :
    ∃ cs, Contribution.ofMessagesFrom rules earlier ms = .ok cs ∧
      resultsOf cs = answers.map fun a => responseJson a.1.function.name a.2.content := by
  induction h generalizing earlier with
  | nil => exact ⟨[], rfl, rfl⟩
  | @aside asked m ms answers hrole hcalls _ ih =>
      have htool : m.role ≠ .tool := by
        rcases hrole with hrole | hrole <;> simp [hrole]
      obtain ⟨d, hd, hnone⟩ := exists_ofMessage_of_said earlier htool fun _ => by simp [hcalls]
      obtain ⟨cs, hcs, hresults⟩ := ih (hearlier.cons (m := m) (by simp [hcalls]))
      exact ⟨d :: cs, Contribution.ofMessagesFrom_cons_eq_ok_iff.mpr ⟨d, cs, hd, hcs, rfl⟩,
        (hnone cs).trans hresults⟩
  | @calls asked m ms answers hrole hids harguments _ ih =>
      -- From here on the calls of this message are those that can be answered.
      obtain ⟨d, hd, hnone⟩ := exists_ofMessage_of_said earlier (by simp [hrole])
        fun _ => harguments
      obtain ⟨cs, hcs, hresults⟩ := ih (.of_calls hids)
      exact ⟨d :: cs, Contribution.ofMessagesFrom_cons_eq_ok_iff.mpr ⟨d, cs, hd, hcs, rfl⟩,
        (hnone cs).trans hresults⟩
  | @result asked m ms answers call hrole hname hcall hid hcalls _ ih =>
      obtain ⟨d, hd, hresult⟩ := exists_ofMessage_of_answer hearlier hrole hname hcall hid
      obtain ⟨cs, hcs, hresults⟩ := ih (hearlier.cons hcalls)
      refine ⟨d :: cs, Contribution.ofMessagesFrom_cons_eq_ok_iff.mpr ⟨d, cs, hd, hcs, rfl⟩, ?_⟩
      rw [hresult cs, hresults]
      rfl

/-- A result of which no function can be told is not put into parts. -/
theorem ofMessagesFrom_ne_ok {before after : List Message} {m : Message} (hrole : m.role = .tool)
    (hname : NamesNoFunction m)
    (hnone : ∀ id, m.toolCallId = some id → ∀ call ∈ before.flatMap (·.toolCalls), call.id ≠ id)
    (cs : List Contribution) :
    Contribution.ofMessages rules (before ++ m :: after) ≠ .ok cs := by
  intro hcs
  obtain ⟨ds, es, -, hrest, -⟩ := Contribution.ofMessagesFrom_append_eq_ok_iff.mp hcs
  obtain ⟨d, es, hd, -, -⟩ := Contribution.ofMessagesFrom_cons_eq_ok_iff.mp hrest
  have hfunction : functionName? (before.reverse ++ []) m = none := by
    rw [functionName?_of_namesNoFunction hname, List.append_nil]
    cases hid : m.toolCallId with
    | none => rfl
    | some id =>
        rw [Option.bind_some, Option.map_eq_none_iff, List.find?_eq_none]
        intro call hcall
        have hmem : call ∈ before.flatMap (·.toolCalls) := by simpa using hcall
        simpa using hnone id hid call hmem
  rw [Contribution.ofMessage_of_tool hrole] at hd
  obtain ⟨result, hresult, -⟩ := map_eq_ok_iff.mp hd
  simp only [rules, resultJson?, hfunction] at hresult
  cases hresult

/-- **The result of a tool goes to the function that was called in its own round.**  In a conversation
of rounds a request is made, and it holds one result for each message of a tool, in order, each with
the name of the function of the call that it answers.  A message that neither names a function nor has
the id of a call before it makes the request fail. -/
theorem results_named_by_round (c : Config) (r : ChatRequest) (stream : Bool) :
    (∀ answers, InRounds [] r.messages answers →
      answers.map Prod.snd = r.messages.filter (·.role = .tool) ∧
      ∃ wire, request c r stream = .ok wire ∧ functionResponses wire.body =
        answers.map fun a => responseJson a.1.function.name a.2.content) ∧
    ∀ before m after, r.messages = before ++ m :: after → m.role = .tool → NamesNoFunction m →
      (∀ id, m.toolCallId = some id →
        ∀ call ∈ before.flatMap (·.toolCalls), call.id ≠ id) →
      ∃ e, request c r stream = .error e := by
  refine ⟨fun answers hrounds => ⟨hrounds.map_snd, ?_⟩,
    fun before m after hmessages hrole hname hnone => ?_⟩
  · have hnone : Answerable [] [] := fun call hcall => by cases hcall
    obtain ⟨cs, hcs, hresults⟩ := hrounds.exists_ofMessagesFrom hnone
    obtain ⟨wire, hwire, hresponses⟩ := exists_request stream hcs
    exact ⟨wire, hwire, hresponses.trans hresults⟩
  · cases hrequest : request c r stream with
    | error e => exact ⟨e, rfl⟩
    | ok wire =>
        obtain ⟨cs, hcs, -⟩ := bind_eq_ok_iff.mp hrequest
        rw [hmessages] at hcs
        exact absurd hcs (ofMessagesFrom_ne_ok hrole hname hnone cs)

/-- Two rounds in which different functions are called under the same id. -/
def twoRounds : List Message := [
  .user "What time is it?",
  { role := .assistant, toolCalls := [{ id := "call_0", function := { name := "clock" } },
      { id := "call_1", function := { name := "zone" } }] },
  { role := .tool, toolCallId := some "call_1", content := "UTC" },
  { role := .system, content := "Be brief." },
  { role := .tool, toolCallId := some "call_0", content := "12:00" },
  { role := .assistant, toolCalls := [{ id := "call_0", function := { name := "weather" } }] },
  { role := .tool, toolCallId := some "call_0", content := "rain" }]

/-- The weather is told as such, although the clock was called under the same id before.  A result
that answers none of the calls makes the request fail. -/
theorem results_named_by_round_twoRounds :
    (∃ wire, request { http := default } { messages := twoRounds } false = .ok wire ∧
      functionResponses wire.body = [responseJson "zone" "UTC", responseJson "clock" "12:00",
        responseJson "weather" "rain"]) ∧
    ∃ e, request { http := default }
      { messages := twoRounds ++ [{ role := .tool, toolCallId := some "call_2" }] } false =
        .error e := by
  have hname (m : Message) (h : m.toolName = none) : NamesNoFunction m :=
    fun name hsome => by rw [h] at hsome; cases hsome
  have harguments (call : ToolCall) (h : call.function.arguments = "") :
      ∃ v, call.argumentsValue = .ok v :=
    ⟨.empty, by rw [ToolCall.argumentsValue, h]; rfl⟩
  have hrounds : InRounds [] twoRounds [
      ({ id := "call_1", function := { name := "zone" } }, twoRounds[2]),
      ({ id := "call_0", function := { name := "clock" } }, twoRounds[4]),
      ({ id := "call_0", function := { name := "weather" } }, twoRounds[6])] := by
    refine .aside (.inl rfl) rfl (.calls rfl (by decide) (by simp [harguments]) ?_)
    refine .result rfl (hname _ rfl) (by decide) rfl (by decide) (.aside (.inr rfl) rfl ?_)
    refine .result rfl (hname _ rfl) (by decide) rfl (by decide) ?_
    refine .calls rfl (by decide) (by simp [harguments]) ?_
    exact .result rfl (hname _ rfl) (by decide) rfl (by decide) .nil
  obtain ⟨wire, hwire, hresponses⟩ :=
    ((results_named_by_round { http := default } { messages := twoRounds } false).1 _ hrounds).2
  refine ⟨⟨wire, hwire, hresponses⟩, ?_⟩
  refine (results_named_by_round { http := default } _ false).2 twoRounds
    { role := .tool, toolCallId := some "call_2" } [] rfl rfl (hname _ rfl) fun id hid => ?_
  cases hid
  decide

end ChatRelay.Gemini
