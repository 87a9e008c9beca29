import ChatRelay.Proofs.Stream.Calls
import ChatRelay.Vendor

/-!
# The message of a stream

A stream is assembled by taking the fragment of each value, passing the fragments through an
accumulator, and concatenating what it passes on.  What comes of it is told by the fragments alone,
those that carry nothing included (`assembled_gathered`): texts are joined, reports are merged, and
only the calls need to be looked at for each vendor.  The total of the token counts is told so where
no sum of counts wraps around.

## Main definitions

* `Vendor.assembled` — the message of a stream of values
-/

namespace ChatRelay

namespace Vendor

open Result Accumulator

/-- The accumulator at the start of a stream. -/
def accumulator (v : Vendor) : Accumulator :=
  { emptyArguments := v.emptyArguments }

/-- The message of all that was passed on. -/
def collected (passed : List Message) : Result Message :=
  if passed.isEmpty then .ok (.assistant "") else Message.concat passed

/-- The message of a stream of values. -/
def assembled (v : Vendor) (chunks : List Json) : Result Message := do
  let fragments ← chunks.mapM v.fragment
  let passed ← v.accumulator.passOn fragments.reduceOption
  collected passed

/-! ### Fragments that carry nothing -/

theorem contentful?_eq_some_iff {f g : Message} :
    contentful? f = some g ↔ f = g ∧ (f.isEmptyFragment = true → f.info ≠ none) := by
  unfold contentful?
  cases hempty : f.isEmptyFragment <;> cases hinfo : f.info <;> simp

theorem contentful?_eq_none_iff {f : Message} :
    contentful? f = none ↔ f.isEmptyFragment = true ∧ f.info = none := by
  unfold contentful?
  cases hempty : f.isEmptyFragment <;> cases hinfo : f.info <;> simp

/-- A fragment of a reply that carries nothing is the empty one. -/
theorem eq_empty_of_contentful? {f : Message} (hf : f.IsFragment) (h : contentful? f = none) :
    f = .assistant "" := by
  obtain ⟨hempty, hinfo⟩ := contentful?_eq_none_iff.mp h
  obtain ⟨hrole, hparts, hid, hname, hreasoning, -, -⟩ := hf
  have hcontent : f.content = "" ∧ f.reasoning.getD "" = "" ∧ f.toolCalls = [] := by
    simp only [Message.isEmptyFragment, Bool.and_eq_true, String.isEmpty_iff,
      List.isEmpty_iff] at hempty
    exact ⟨hempty.1.1.1, hempty.1.1.2, hempty.1.2⟩
  have hnone : f.reasoning = none := by
    cases hr : f.reasoning with
    | none => rfl
    | some text =>
        rw [hr] at hcontent hreasoning
        exact absurd (congrArg some hcontent.2.1) hreasoning
  cases f
  simp_all [Message.assistant]

/-- A fragment that carries nothing leaves an accumulator as it was. -/
theorem repair_of_contentful?_eq_none {a : Accumulator} {f : Message} (h : contentful? f = none) :
    a.repair f = (a, f) := by
  obtain ⟨hempty, hinfo⟩ := contentful?_eq_none_iff.mp h
  have hcalls : f.toolCalls = [] := by
    simp only [Message.isEmptyFragment, Bool.and_eq_true, List.isEmpty_iff] at hempty
    exact hempty.1.2
  have hfinishing : isFinishing f = false := by simp [isFinishing, Message.finishReason?, hinfo]
  have hseen : a.seen f = a := by
    simp [seen, hfinishing, hcalls, repairIndices, starts, noteAll]
  have hsame : ({ f with toolCalls := [] } : Message) = f := by rw [← hcalls]
  rw [repair_eq, hseen]
  simp [hfinishing, hcalls, repairIndices, named, hsame]

/-- A fragment that carries something still does when it was repaired. -/
theorem contentful?_repair {a : Accumulator} {f : Message} (h : contentful? f ≠ none) :
    contentful? (a.repair f).2 = some (a.repair f).2 := by
  refine contentful?_eq_some_iff.mpr ⟨rfl, fun hempty => ?_⟩
  rw [repair_message] at hempty ⊢
  simp only [Message.isEmptyFragment, Bool.and_eq_true] at hempty
  intro hinfo
  have hcalls : f.toolCalls = [] := by
    have hlength := length_le_repair a f
    rw [List.isEmpty_iff.mp hempty.1.2] at hlength
    exact List.eq_nil_of_length_eq_zero (Nat.le_zero.mp hlength)
  refine h (contentful?_eq_none_iff.mpr ⟨?_, hinfo⟩)
  simp only [Message.isEmptyFragment, Bool.and_eq_true]
  exact ⟨⟨hempty.1.1, by simp [hcalls]⟩, hempty.2⟩

theorem contentful?_closing (a : Accumulator) : a.closing.filterMap contentful? = a.closing := by
  by_cases h : a.closeCalls.2 = []
  · simp [closing, h]
  · simp [closing, h, contentful?, Message.isEmptyFragment]

/-- Fragments that carry nothing may be left out before the repair or after it. -/
theorem repaired_filterMap (a : Accumulator) (fs : List Message) :
    a.repaired (fs.filterMap contentful?) = (a.repaired fs).filterMap contentful? := by
  induction fs generalizing a with
  | nil => exact (contentful?_closing a).symm
  | cons f fs ih =>
      rw [repaired]
      cases hf : contentful? f with
      | none =>
          rw [repair_of_contentful?_eq_none hf, List.filterMap_cons_none hf,
            List.filterMap_cons_none hf, ih]
      | some g =>
          obtain ⟨rfl, -⟩ := contentful?_eq_some_iff.mp hf
          rw [List.filterMap_cons_some hf, repaired, ih]
          exact (List.filterMap_cons_some (contentful?_repair (by simp [hf]))).symm

/-! ### What fragments say -/

/-- Texts may be joined in groups. -/
theorem join_map_join {α : Type} (xs : List α) (f : α → List String) :
    String.join (xs.map fun x => String.join (f x)) = String.join (xs.flatMap f) := by
  induction xs with
  | nil => rfl
  | cons x xs ih => rw [List.map_cons, String.join_cons, ih, List.flatMap_cons, String.join_append]

@[simp] theorem join_replicate_empty (n : Nat) : String.join (List.replicate n "") = "" := by
  induction n with
  | zero => rfl
  | succ n ih => rw [List.replicate_succ, String.join_cons, ih, String.append_empty]

theorem reduceOption_map {α β : Type} (xs : List α) (f : α → Option β) :
    (xs.map f).reduceOption = xs.filterMap f := by
  simp [List.reduceOption, List.filterMap_map]

theorem reportOf_ne_empty (reason : Option String) (usage : Option TokenUsage) :
    reportOf reason usage ≠ some {} := by
  cases reason <;> cases usage <;> simp [reportOf]

@[simp] theorem reportOf_finishReason (reason : Option String) (usage : Option TokenUsage) :
    (reportOf reason usage).bind ResponseInfo.finishReason = reason := by
  cases reason <;> cases usage <;> rfl

@[simp] theorem reportOf_usage (reason : Option String) (usage : Option TokenUsage) :
    (reportOf reason usage).bind ResponseInfo.usage = usage := by
  cases reason <;> cases usage <;> rfl

/-- Messages with different counts are the same but for the total where the counts are, and the same
where these are. -/
theorem agreesWhen_reportOf {fit : Prop} {usage usage' : Option TokenUsage}
    (hcounts : usage.map TokenUsage.withoutTotal = usage'.map TokenUsage.withoutTotal)
    (hsame : fit → usage = usage') (m : Message) (reason : Option String) :
    Message.AgreesWhen fit { m with info := reportOf reason usage }
      { m with info := reportOf reason usage' } := by
  have hreport (usage : Option TokenUsage) :
      (reportOf reason usage).map (ResponseInfo.mapUsage TokenUsage.withoutTotal) =
        reportOf reason (usage.map TokenUsage.withoutTotal) := by
    cases reason <;> cases usage <;> rfl
  refine ⟨?_, fun hfit => by rw [hsame hfit]⟩
  simp only [Message.withoutTotal, Message.mapUsage, hreport, hcounts]

theorem bind_nonEmpty? (text : Option String) : text.bind nonEmpty? = nonEmpty? (text.getD "") := by
  cases text <;> rfl

theorem getD_nonEmpty? (text : String) : (nonEmpty? text).getD "" = text := by
  by_cases h : text = "" <;> simp [nonEmpty?, h]

theorem nonEmpty?_ne (text : String) : nonEmpty? text ≠ some "" := by
  by_cases h : text = "" <;> simp [nonEmpty?, h]

/-- Texts, calls and a report make up a fragment of a reply. -/
theorem isFragment_of_reportOf {content : String} {reasoning : Option String}
    {calls : List ToolCall} {reason : Option String} {usage : Option TokenUsage}
    (hreasoning : reasoning ≠ some "") (hreason : reason ≠ some "") :
    ({ Message.assistant content with
        reasoning, toolCalls := calls, info := reportOf reason usage } : Message).IsFragment := by
  refine ⟨rfl, rfl, rfl, rfl, hreasoning, ?_, reportOf_ne_empty reason usage⟩
  rw [Message.finishReason?, reportOf_finishReason]
  exact hreason

/-- Texts and calls make up a fragment of a reply that reports nothing. -/
theorem isFragment_of_no_report {content : String} {reasoning : Option String}
    {calls : List ToolCall} (hreasoning : reasoning ≠ some "") :
    ({ Message.assistant content with reasoning, toolCalls := calls } : Message).IsFragment :=
  @isFragment_of_reportOf content reasoning calls none none hreasoning (by simp)

/-- The merge of reports is the report of what is merged. -/
theorem addInfo_reportOf (reason : Option String) (usage : Option TokenUsage)
    {info : Option ResponseInfo} (hinfo : info ≠ some {})
    (hreason : info.bind ResponseInfo.finishReason ≠ some "") :
    Merge.addInfo (reportOf reason usage) info =
      reportOf (ResponseInfo.lastReason reason (info.bind ResponseInfo.finishReason))
        (TokenUsage.mergeOption usage (info.bind ResponseInfo.usage)) := by
  match info with
  | none => simp [Merge.addInfo]
  | some ⟨none, none⟩ => exact absurd rfl hinfo
  | some ⟨some r, usage'⟩ =>
      have hr : r ≠ "" := fun h => hreason (congrArg some h)
      cases reason <;> cases usage <;> cases usage' <;>
        simp [Merge.addInfo, reportOf, ResponseInfo.merge, ResponseInfo.lastReason,
          TokenUsage.mergeOption, hr]
  | some ⟨none, some u⟩ =>
      cases reason <;> cases usage <;>
        simp [Merge.addInfo, reportOf, ResponseInfo.merge, TokenUsage.mergeOption]

/-- **Reports come to the last reason and the merged counts.** -/
theorem reports_eq {fs : List Message} (hfs : ∀ f ∈ fs, f.IsFragment) :
    Message.reports fs =
      reportOf ((fs.map Message.finishReason?).foldl ResponseInfo.lastReason none)
        ((fs.map Message.usage?).foldl TokenUsage.mergeOption none) := by
  suffices h : ∀ reason usage,
      fs.foldl (fun info f => Merge.addInfo info f.info) (reportOf reason usage) =
        reportOf ((fs.map Message.finishReason?).foldl ResponseInfo.lastReason reason)
          ((fs.map Message.usage?).foldl TokenUsage.mergeOption usage) from h none none
  induction fs with
  | nil => exact fun _ _ => rfl
  | cons f fs ih =>
      intro reason usage
      have hf := hfs f List.mem_cons_self
      rw [List.foldl_cons, addInfo_reportOf reason usage hf.info hf.finishReason,
        ih fun g hg => hfs g (List.mem_cons_of_mem _ hg)]
      rfl

/-- The last reason is the only one that is stated. -/
theorem foldl_lastReason {reasons : List (Option String)} {reason : Option String}
    (hreasons : reasons.reduceOption = reason.toList) (hne : reason ≠ some "") :
    reasons.foldl ResponseInfo.lastReason none = reason := by
  have hreduce (reasons : List (Option String)) (held : Option String) :
      reasons.foldl ResponseInfo.lastReason held =
        reasons.reduceOption.foldl (fun held r => ResponseInfo.lastReason held (some r)) held := by
    induction reasons generalizing held with
    | nil => rfl
    | cons r rs ih => cases r <;> simp [ih]
  rw [hreduce, hreasons]
  cases reason with
  | none => rfl
  | some r => exact ResponseInfo.none_lastReason hne

/-- What fragments say is read off one after the other, the calls apart, so fragments say the same
if they do so for every reader that ignores calls and the empty fragment. -/
theorem gathered_congr {fs gs : List Message} {calls : List ToolCall}
    (h : ∀ (β : Type) (read : β → Message → β),
      (∀ b f cs, read b { f with toolCalls := cs } = read b f) →
      (∀ b, read b (.assistant "") = b) → ∀ b, fs.foldl read b = gs.foldl read b) :
    Message.gathered fs calls = Message.gathered gs calls := by
  have hcontent := h String (fun s f => s ++ f.content) (fun _ _ _ => rfl)
    (fun _ => String.append_empty) ""
  have hreasoning := h String (fun s f => s ++ f.reasoning.getD "") (fun _ _ _ => rfl)
    (fun _ => String.append_empty) ""
  have hreports := h _ (fun info f => Merge.addInfo info f.info) (fun _ _ _ => rfl)
    (fun _ => rfl) none
  simp only [Message.gathered, Message.reports, String.join, List.foldl_map]
  rw [hcontent, hreasoning, hreports]

/-- Fragments that carry nothing say nothing. -/
theorem gathered_filterMap {fs : List Message} (hfs : ∀ f ∈ fs, f.IsFragment)
    (calls : List ToolCall) :
    Message.gathered (fs.filterMap contentful?) calls = Message.gathered fs calls := by
  refine gathered_congr fun β read _ hempty => ?_
  induction fs with
  | nil => exact fun _ => rfl
  | cons f fs ih =>
      intro b
      have hrest := ih fun g hg => hfs g (List.mem_cons_of_mem _ hg)
      cases hf : contentful? f with
      | none =>
          rw [List.filterMap_cons_none hf, List.foldl_cons, hrest,
            eq_empty_of_contentful? (hfs f List.mem_cons_self) hf, hempty]
      | some g =>
          obtain ⟨rfl, -⟩ := contentful?_eq_some_iff.mp hf
          rw [List.filterMap_cons_some hf, List.foldl_cons, List.foldl_cons, hrest]

/-- A repair changes nothing of what is said but the calls. -/
theorem gathered_repaired (a : Accumulator) (fs : List Message) (calls : List ToolCall) :
    Message.gathered (a.repaired fs) calls = Message.gathered fs calls := by
  refine gathered_congr fun β read hcalls hempty => ?_
  induction fs generalizing a with
  | nil =>
      intro b
      rw [repaired, closing]
      split
      · rfl
      · exact (hcalls b (.assistant "") _).trans (hempty b)
  | cons f fs ih =>
      intro b
      rw [repaired, List.foldl_cons, List.foldl_cons, ih, repair_message, hcalls]

theorem flatMap_toolCalls_filterMap (fs : List Message) :
    (fs.filterMap contentful?).flatMap Message.toolCalls = fs.flatMap Message.toolCalls := by
  induction fs with
  | nil => rfl
  | cons f fs ih =>
      cases hf : contentful? f with
      | none =>
          have hcalls : f.toolCalls = [] := by
            have hempty := (contentful?_eq_none_iff.mp hf).1
            simp only [Message.isEmptyFragment, Bool.and_eq_true, List.isEmpty_iff] at hempty
            exact hempty.1.2
          rw [List.filterMap_cons_none hf, List.flatMap_cons, hcalls, ih, List.nil_append]
      | some g =>
          obtain ⟨rfl, -⟩ := contentful?_eq_some_iff.mp hf
          rw [List.filterMap_cons_some hf, List.flatMap_cons, List.flatMap_cons, ih]

theorem isFragment_repaired {a : Accumulator} {fs : List Message} (hfs : ∀ f ∈ fs, f.IsFragment) :
    ∀ f ∈ a.repaired fs, f.IsFragment := by
  induction fs generalizing a with
  | nil =>
      intro f hf
      rw [repaired, closing] at hf
      split at hf
      · simp at hf
      · rw [List.mem_singleton.mp hf]
        exact isFragment_of_no_report (by simp)
  | cons f fs ih =>
      intro g hg
      rcases List.mem_cons.mp hg with rfl | hg
      · obtain ⟨hrole, hparts, hid, hname, hreasoning, hreason, hinfo⟩ := hfs f List.mem_cons_self
        rw [repair_message]
        exact ⟨hrole, hparts, hid, hname, hreasoning, hreason, hinfo⟩
      · exact ih (fun g hg => hfs g (List.mem_cons_of_mem _ hg)) g hg

/-- What fragments say, in the form in which vendors state it. -/
theorem gathered_eq {fs : List Message} (hfs : ∀ f ∈ fs, f.IsFragment) {reason : Option String}
    (hreason : (fs.map Message.finishReason?).reduceOption = reason.toList)
    (hne : reason ≠ some "") (calls : List ToolCall) :
    Message.gathered fs calls =
      { Message.assistant (String.join (fs.map Message.content)) with
        reasoning := nonEmpty? (String.join (fs.map fun f => f.reasoning.getD ""))
        toolCalls := calls
        info := reportOf reason ((fs.map Message.usage?).foldl TokenUsage.mergeOption none) } := by
  rw [Message.gathered, reports_eq hfs, foldl_lastReason hreason hne]
  rfl

/-- What is said where reports are cumulative: the last one is that of the whole reply. -/
theorem gathered_of_cumulative {f : Json → Message} {reasonOf : Json → Option String}
    {usageOf statedOf : Json → Option TokenUsage} (hf : ∀ v, (f v).IsFragment)
    (hreasonOf : ∀ v, (f v).finishReason? = reasonOf v) (husageOf : ∀ v, (f v).usage? = usageOf v)
    (hstatedOf : ∀ v, usageOf v = (statedOf v).map TokenUsage.raised)
    {chunks : List Json} {reason : Option String} {usage : Option TokenUsage}
    (hreason : chunks.filterMap reasonOf = reason.toList) (hne : reason ≠ some "")
    (hcumulative : ∀ t ∈ usage, ∀ u ∈ chunks.filterMap statedOf, u ≤ t)
    (husage : (chunks.filterMap usageOf).getLast? = usage) (calls : List ToolCall) :
    Message.AgreesWhen (TokenUsage.SumsFit (chunks.filterMap usageOf))
      (Message.gathered (chunks.map f) calls)
      { Message.assistant (String.join (chunks.map fun v => (f v).content)) with
        reasoning := nonEmpty? (String.join (chunks.map fun v => (f v).reasoning.getD ""))
        toolCalls := calls
        info := reportOf reason usage } := by
  have hfs : ∀ g ∈ chunks.map f, g.IsFragment := List.forall_mem_map.mpr fun v _ => hf v
  have hreasons : (chunks.map f).map Message.finishReason? = chunks.map reasonOf := by
    rw [List.map_map]
    exact List.map_congr_left fun v _ => hreasonOf v
  have husages : (chunks.map f).map Message.usage? = chunks.map usageOf := by
    rw [List.map_map]
    exact List.map_congr_left fun v _ => husageOf v
  have hraised : (chunks.map statedOf).map (Option.map TokenUsage.raised) = chunks.map usageOf := by
    rw [List.map_map]
    exact List.map_congr_left fun v _ => (hstatedOf v).symm
  have hlastReason : ((chunks.map f).map Message.finishReason?).reduceOption = reason.toList := by
    rw [hreasons, reduceOption_map]
    exact hreason
  have hlast := @TokenUsage.foldl_raised (chunks.map statedOf) usage
  rw [hraised, reduceOption_map, reduceOption_map] at hlast
  obtain ⟨hcounts, hsame⟩ := hlast (fun u hu t ht => hcumulative t ht u hu) husage
  rw [gathered_eq hfs hlastReason hne, husages, List.map_map, List.map_map]
  exact agreesWhen_reportOf hcounts hsame
    { Message.assistant (String.join (chunks.map fun v => (f v).content)) with
      reasoning := nonEmpty? (String.join (chunks.map fun v => (f v).reasoning.getD ""))
      toolCalls := calls } reason

/-! ### The message of a stream -/

/-- The fragments of a stream, given for each value, those that carry nothing included. -/
def Streams (v : Vendor) (chunks : List Json) (fs : List Message) : Prop :=
  List.Forall₂ (fun chunk f => v.fragment chunk = .ok (contentful? f)) chunks fs

theorem streams_map {v : Vendor} {chunks : List Json} {f : Json → Message}
    (h : ∀ chunk ∈ chunks, v.fragment chunk = .ok (contentful? (f chunk))) :
    v.Streams chunks (chunks.map f) :=
  List.forall₂_map_right_iff.mpr (List.forall₂_same.mpr h)

theorem assembled_eq_passOn {v : Vendor} {chunks : List Json} {fs : List Message}
    (h : v.Streams chunks fs) :
    v.assembled chunks = v.accumulator.passOn (fs.filterMap contentful?) >>= collected := by
  have hmapM : chunks.mapM v.fragment = .ok (fs.map contentful?) := by
    induction h with
    | nil => rfl
    | cons hf _ ih => exact mapM_cons_eq_ok_iff.mpr ⟨_, _, hf, ih, rfl⟩
  rw [← reduceOption_map, assembled, hmapM]
  rfl

/-- Fragments that carry nothing report nothing. -/
theorem filterMap_usage?_contentful? (fs : List Message) :
    (fs.filterMap contentful?).filterMap Message.usage? = fs.filterMap Message.usage? := by
  rw [List.filterMap_filterMap]
  refine List.filterMap_congr fun f _ => ?_
  cases hf : contentful? f with
  | none => simp [Message.usage?, (contentful?_eq_none_iff.mp hf).2]
  | some g =>
      obtain ⟨rfl, -⟩ := contentful?_eq_some_iff.mp hf
      rfl

/-- **A stream comes to what its repaired fragments come to,** for all but the total of the counts in
any case and for that too where no sum of counts wraps around. -/
theorem assembled_collected {v : Vendor} {chunks : List Json} {fs : List Message}
    (h : v.Streams chunks fs) :
    ((∃ m, v.assembled chunks = .ok m) ↔
      ∃ m, collected ((v.accumulator.repaired fs).filterMap contentful?) = .ok m) ∧
    ∀ m m', v.assembled chunks = .ok m →
      collected ((v.accumulator.repaired fs).filterMap contentful?) = .ok m' →
        Message.AgreesWhen (TokenUsage.SumsFit (fs.filterMap Message.usage?)) m m' := by
  have hpassed := concat_passOn (a := v.accumulator) rfl (fs.filterMap contentful?)
  rw [filterMap_usage?_contentful?, repaired_filterMap] at hpassed
  obtain ⟨hsucceeds, hagrees⟩ := hpassed
  rw [assembled_eq_passOn h]
  by_cases hnil : (v.accumulator.repaired fs).filterMap contentful? = []
  · have hnothing : v.accumulator.passOn (fs.filterMap contentful?) = .ok [] := by
      refine passOn_of_repaired_eq_nil rfl ?_
      rw [repaired_filterMap, hnil]
    rw [hnothing, hnil]
    refine ⟨Iff.rfl, fun m m' hm hm' => .of_eq ?_⟩
    exact Except.ok.inj (hm.symm.trans hm')
  · have hcollected (out : List Message) (hne : out ≠ []) : collected out = Message.concat out :=
      if_neg (mt List.isEmpty_iff.mp hne)
    have hne (out : List Message)
        (hout : v.accumulator.passOn (fs.filterMap contentful?) = .ok out) : out ≠ [] := by
      rw [ne_eq, passOn_eq_nil_iff hout, repaired_filterMap]
      exact fun h => hnil h.2
    rw [hcollected _ hnil]
    simp only [bind_eq_ok_iff]
    constructor
    · rw [← hsucceeds]
      constructor
      · rintro ⟨m, out, hout, hm⟩
        exact ⟨out, m, hout, (hcollected out (hne out hout)).symm.trans hm⟩
      · rintro ⟨out, m, hout, hm⟩
        exact ⟨m, out, hout, (hcollected out (hne out hout)).trans hm⟩
    · rintro m m' ⟨out, hout, hm⟩
      exact hagrees out m m' hout ((hcollected out (hne out hout)).symm.trans hm)

/-- A stream comes to a message when its repaired fragments do. -/
theorem exists_assembled_of_collected {v : Vendor} {chunks : List Json} {fs : List Message}
    (h : v.Streams chunks fs) {m' : Message}
    (hm' : collected ((v.accumulator.repaired fs).filterMap contentful?) = .ok m') :
    ∃ m, v.assembled chunks = .ok m ∧
      Message.AgreesWhen (TokenUsage.SumsFit (fs.filterMap Message.usage?)) m m' := by
  obtain ⟨hsucceeds, hagrees⟩ := assembled_collected h
  obtain ⟨m, hm⟩ := hsucceeds.mpr ⟨m', hm'⟩
  exact ⟨m, hm, hagrees m m' hm hm'⟩

/-- Texts are passed on as they came. -/
theorem join_passedOn {read : Message → String}
    (hcalls : ∀ f cs, read { f with toolCalls := cs } = read f)
    (hnone : ∀ f, contentful? f = none → read f = "") (a : Accumulator) (fs : List Message) :
    String.join (((a.repaired fs).filterMap contentful?).map read) =
      String.join (fs.map read) := by
  have hfilter (fs : List Message) :
      String.join ((fs.filterMap contentful?).map read) = String.join (fs.map read) := by
    induction fs with
    | nil => rfl
    | cons f fs ih =>
        rw [List.map_cons, String.join_cons, ← ih]
        cases hf : contentful? f with
        | none => rw [List.filterMap_cons_none hf, hnone f hf, String.empty_append]
        | some g =>
            obtain ⟨rfl, -⟩ := contentful?_eq_some_iff.mp hf
            rw [List.filterMap_cons_some hf, List.map_cons, String.join_cons]
  rw [hfilter]
  induction fs generalizing a with
  | nil =>
      rw [repaired, closing]
      split
      · rfl
      · have hempty : read { Message.assistant "" with toolCalls := a.closeCalls.2 } = "" :=
          (hcalls (.assistant "") _).trans (hnone _ (by decide))
        exact congrArg (fun text => String.join [text]) hempty
  | cons f fs ih =>
      rw [repaired, List.map_cons, String.join_cons, ih, repair_message, hcalls, List.map_cons,
        String.join_cons]

theorem isSpoken_repaired {a : Accumulator} {fs : List Message} (hfs : ∀ f ∈ fs, f.IsSpoken) :
    ∀ f ∈ a.repaired fs, f.IsSpoken := by
  induction fs generalizing a with
  | nil =>
      intro f hf
      rw [repaired, closing] at hf
      split at hf
      · simp at hf
      · rw [List.mem_singleton.mp hf]
        exact ⟨rfl, rfl, rfl⟩
  | cons f fs ih =>
      intro g hg
      rcases List.mem_cons.mp hg with rfl | hg
      · obtain ⟨hrole, hid, hname⟩ := hfs f List.mem_cons_self
        rw [repair_message]
        exact ⟨hrole, hid, hname⟩
      · exact ih (fun g hg => hfs g (List.mem_cons_of_mem _ hg)) g hg

/-- **A stream says what its fragments say,** the total of the counts where no sum of counts wraps
around.  The calls are assembled from the repaired fragments, unless a single fragment carries all
that the stream says; then its calls are kept as they are. -/
theorem assembled_gathered {v : Vendor} {chunks : List Json} {fs : List Message}
    (h : v.Streams chunks fs) (hfs : ∀ f ∈ fs, f.IsFragment) {calls : Assembler}
    (hcalls : ({} : Assembler).pushAll ((v.accumulator.repaired fs).flatMap Message.toolCalls) =
      .ok calls) :
    ∃ m, v.assembled chunks = .ok m ∧
      Message.AgreesWhen (TokenUsage.SumsFit (fs.filterMap Message.usage?)) m (Message.gathered fs
        (if ((v.accumulator.repaired fs).filterMap contentful?).length = 1 then
          (v.accumulator.repaired fs).flatMap Message.toolCalls
        else calls.calls)) := by
  have hrepaired := isFragment_repaired (a := v.accumulator) hfs
  have hgathered (cs : List ToolCall) : Message.gathered fs cs =
      Message.gathered ((v.accumulator.repaired fs).filterMap contentful?) cs :=
    (gathered_repaired v.accumulator fs cs).symm.trans (gathered_filterMap hrepaired cs).symm
  have hpassed : ∀ f ∈ (v.accumulator.repaired fs).filterMap contentful?, f.IsFragment := by
    intro f hf
    obtain ⟨g, hg, hfg⟩ := List.mem_filterMap.mp hf
    obtain ⟨rfl, -⟩ := contentful?_eq_some_iff.mp hfg
    exact hrepaired g hg
  refine exists_assembled_of_collected h ?_
  rw [hgathered]
  rw [← flatMap_toolCalls_filterMap] at hcalls ⊢
  -- Nothing is passed on, or one fragment that is taken as it is, or several that are merged.
  match hlist : (v.accumulator.repaired fs).filterMap contentful? with
  | [] =>
      rw [hlist] at hcalls
      cases hcalls
      rfl
  | [f] =>
      have hf : f.IsFragment := hpassed f (by simp [hlist])
      simp [collected, Message.gathered_singleton hf]
  | f :: g :: rest =>
      rw [hlist] at hcalls hpassed
      refine (Message.concat_of_isFragment hpassed hcalls).trans ?_
      simp

/-- Calls without an index are not told apart by it: those that lack an id get one, and nothing else
is repaired. -/
theorem calls_repaired_of_index_none {v : Vendor} {fs : List Message}
    (hempty : v.emptyArguments = none) (hindex : ∀ f ∈ fs, ∀ c ∈ f.toolCalls, c.index = none) :
    (v.accumulator.repaired fs).flatMap Message.toolCalls =
      named 0 (fs.flatMap Message.toolCalls) := by
  have hcalls := calls_repaired (a := v.accumulator) hempty fs
  rwa [show v.accumulator.lastIndex = none from rfl, located_of_index_none hindex] at hcalls

/-- Calls without an index are kept as they are. -/
theorem pushAll_named_of_index_none {fs : List Message}
    (hindex : ∀ f ∈ fs, ∀ c ∈ f.toolCalls, c.index = none) :
    ({} : Assembler).pushAll (named 0 (fs.flatMap Message.toolCalls)) =
      .ok { whole := named 0 (fs.flatMap Message.toolCalls) } := by
  have hnamed : ∀ c ∈ named 0 (fs.flatMap Message.toolCalls), c.index = none := by
    refine index_named (p := (· = none)) fun c hc => ?_
    obtain ⟨f, hf, hc⟩ := List.mem_flatMap.mp hc
    exact hindex f hf c hc
  simpa using Assembler.pushAll_of_index_none (a := {}) hnamed

/-- Where no call has an index, each is kept, with an id given to those that lack one. -/
theorem assembled_of_index_none {v : Vendor} {chunks : List Json} {fs : List Message}
    (h : v.Streams chunks fs) (hfs : ∀ f ∈ fs, f.IsFragment) (hempty : v.emptyArguments = none)
    (hindex : ∀ f ∈ fs, ∀ c ∈ f.toolCalls, c.index = none) :
    ∃ m, v.assembled chunks = .ok m ∧
      Message.AgreesWhen (TokenUsage.SumsFit (fs.filterMap Message.usage?)) m
        (Message.gathered fs (named 0 (fs.flatMap Message.toolCalls))) := by
  have hrepaired := calls_repaired_of_index_none hempty hindex
  have hcalls := pushAll_named_of_index_none hindex
  rw [← hrepaired] at hcalls
  have hassembled := assembled_gathered h hfs hcalls
  rw [hrepaired] at hassembled
  simpa [Assembler.calls] using hassembled

/-- A single fragment that is passed on has one call at most, if each fragment has and those that
finish the reply have none. -/
theorem length_calls_of_single {v : Vendor} {fs : List Message}
    (hone : ∀ f ∈ fs, f.toolCalls.length ≤ 1 ∧ (isFinishing f = true → f.toolCalls = []))
    (hsingle : ((v.accumulator.repaired fs).filterMap contentful?).length = 1) :
    ((v.accumulator.repaired fs).flatMap Message.toolCalls).length ≤ 1 := by
  rw [← flatMap_toolCalls_filterMap]
  rw [← repaired_filterMap] at hsingle ⊢
  -- A repair passes on at least as many fragments as came, so no more than one came.
  match hlist : fs.filterMap contentful? with
  | [] =>
      have hclosing : v.accumulator.closing = [] := by
        simp [closing, closeCalls_of_arguments_nil (show v.accumulator.arguments = [] from rfl)]
      simp [repaired, hclosing]
  | [f] =>
      rw [hlist, repaired, repaired, List.length_cons] at hsingle
      have hclosing : (v.accumulator.repair f).1.closing = [] :=
        List.eq_nil_of_length_eq_zero (by omega)
      have hmem : f ∈ fs := by
        obtain ⟨g, hg, hfg⟩ := List.mem_filterMap.mp (hlist ▸ List.mem_singleton_self f)
        exact (contentful?_eq_some_iff.mp hfg).1 ▸ hg
      obtain ⟨hlength, hfinishing⟩ := hone f hmem
      simp only [repaired, hclosing, List.flatMap_cons, List.flatMap_nil, List.append_nil]
      rw [repair_eq]
      simp only
      split
      · next hf =>
        have hcalls := hfinishing hf
        have harguments : (v.accumulator.seen f).arguments = [] := by
          simp [seen, hcalls, repairIndices, noteAll, accumulator]
        simp [hcalls, closeCalls_of_arguments_nil harguments]
      · simpa using hlength
  | f :: g :: rest =>
      rw [hlist, repaired, repaired] at hsingle
      simp at hsingle

/-- Where no fragment has two calls, and those that finish the reply have none, a single fragment
makes no difference. -/
theorem assembled_of_one_call {v : Vendor} {chunks : List Json} {fs : List Message}
    (h : v.Streams chunks fs) (hfs : ∀ f ∈ fs, f.IsFragment)
    (hone : ∀ f ∈ fs, f.toolCalls.length ≤ 1 ∧ (isFinishing f = true → f.toolCalls = []))
    {calls : Assembler}
    (hcalls : ({} : Assembler).pushAll ((v.accumulator.repaired fs).flatMap Message.toolCalls) =
      .ok calls) :
    ∃ m, v.assembled chunks = .ok m ∧
      Message.AgreesWhen (TokenUsage.SumsFit (fs.filterMap Message.usage?)) m
        (Message.gathered fs calls.calls) := by
  have hassembled := assembled_gathered h hfs hcalls
  split at hassembled
  · next hsingle =>
    have hlength := length_calls_of_single hone hsingle
    have hkept : (v.accumulator.repaired fs).flatMap Message.toolCalls = calls.calls := by
      match hlist : (v.accumulator.repaired fs).flatMap Message.toolCalls with
      | [] =>
          rw [hlist] at hcalls
          cases hcalls
          rfl
      | [c] =>
          rw [hlist] at hcalls
          exact (Assembler.calls_of_pushAll_singleton hcalls).symm
      | _ :: _ :: _ =>
          rw [hlist] at hlength
          simp at hlength
    rwa [hkept] at hassembled
  · exact hassembled

/-- What is said in pieces, or not at all. -/
theorem collected_spoken {fs : List Message} (hfs : ∀ f ∈ fs, f.IsSpoken)
    (hsingle : ∀ f, fs = [f] → f.toolCalls.length ≤ 1) :
    ((∃ m, collected fs = .ok m) ↔
        ∃ calls, ({} : Assembler).pushAll (fs.flatMap Message.toolCalls) = .ok calls) ∧
      ∀ m calls, collected fs = .ok m →
        ({} : Assembler).pushAll (fs.flatMap Message.toolCalls) = .ok calls →
          m.toolCalls = calls.calls ∧ m.content = String.join (fs.map Message.content) ∧
            m.reasoning.getD "" = String.join (fs.map fun f => f.reasoning.getD "") := by
  cases fs with
  | nil =>
      refine ⟨iff_of_true ⟨_, rfl⟩ ⟨_, rfl⟩, fun m calls hm hcalls => ?_⟩
      cases hm
      cases hcalls
      exact ⟨rfl, rfl, rfl⟩
  | cons f fs => exact Message.concat_spoken (by simp) hfs hsingle

/-- **What a stream comes to, and when it does.**  Where no fragment has two calls, and those that
finish the reply have none, only the calls decide whether a stream comes to a message. -/
theorem assembled_spoken {v : Vendor} {chunks : List Json} {fs : List Message}
    (h : v.Streams chunks fs) (hfs : ∀ f ∈ fs, f.IsSpoken)
    (hone : ∀ f ∈ fs, f.toolCalls.length ≤ 1 ∧ (isFinishing f = true → f.toolCalls = [])) :
    ((∃ m, v.assembled chunks = .ok m) ↔ ∃ a : Assembler, ({} : Assembler).pushAll
        ((v.accumulator.repaired fs).flatMap Message.toolCalls) = .ok a) ∧
      ∀ m (a : Assembler), v.assembled chunks = .ok m → ({} : Assembler).pushAll
        ((v.accumulator.repaired fs).flatMap Message.toolCalls) = .ok a →
          m.toolCalls = a.calls ∧ m.content = String.join (fs.map Message.content) ∧
            m.reasoning.getD "" = String.join (fs.map fun f => f.reasoning.getD "") := by
  have hempty (f : Message) (hf : contentful? f = none) :
      f.content = "" ∧ f.reasoning.getD "" = "" := by
    obtain ⟨hempty, -⟩ := contentful?_eq_none_iff.mp hf
    simp only [Message.isEmptyFragment, Bool.and_eq_true, String.isEmpty_iff] at hempty
    exact ⟨hempty.1.1.1, hempty.1.1.2⟩
  rw [← join_passedOn (fun _ _ => rfl) (fun f hf => (hempty f hf).1) v.accumulator,
    ← join_passedOn (fun _ _ => rfl) (fun f hf => (hempty f hf).2) v.accumulator,
    ← flatMap_toolCalls_filterMap]
  have hspoken : ∀ f ∈ (v.accumulator.repaired fs).filterMap contentful?, f.IsSpoken := by
    intro f hf
    obtain ⟨g, hg, hfg⟩ := List.mem_filterMap.mp hf
    obtain ⟨rfl, -⟩ := contentful?_eq_some_iff.mp hfg
    exact isSpoken_repaired hfs g hg
  have hsingle : ∀ f, (v.accumulator.repaired fs).filterMap contentful? = [f] →
      f.toolCalls.length ≤ 1 := by
    intro f hf
    have hlength := length_calls_of_single hone (by rw [hf, List.length_singleton])
    rw [← flatMap_toolCalls_filterMap, hf] at hlength
    simpa using hlength
  obtain ⟨hcalls, hsays⟩ := collected_spoken hspoken hsingle
  obtain ⟨hsucceeds, hagrees⟩ := assembled_collected h
  refine ⟨hsucceeds.trans hcalls, fun m a hm ha => ?_⟩
  obtain ⟨m', hm'⟩ := hsucceeds.mp ⟨m, hm⟩
  have hsame := hagrees m m' hm hm'
  rw [hsame.toolCalls, hsame.content, hsame.reasoning]
  exact hsays m' a hm' ha

/-- Values without a fragment may be left out of a stream. -/
theorem assembled_filter {v : Vendor} {chunks : List Json} {p : Json → Bool}
    (h : ∀ chunk ∈ chunks, p chunk = false → v.fragment chunk = .ok none) :
    v.assembled (chunks.filter p) = v.assembled chunks := by
  have hfragments : ((chunks.filter p).mapM v.fragment).map List.reduceOption =
      (chunks.mapM v.fragment).map List.reduceOption := by
    induction chunks with
    | nil => rfl
    | cons chunk chunks ih =>
        have hrest := ih fun c hc => h c (List.mem_cons_of_mem _ hc)
        cases hp : p chunk with
        | false =>
            rw [List.filter_cons_of_neg (by simp [hp]), hrest, List.mapM_cons,
              h chunk List.mem_cons_self hp]
            cases chunks.mapM v.fragment <;> rfl
        | true =>
            rw [List.filter_cons_of_pos hp, List.mapM_cons, List.mapM_cons]
            -- An error ends both streams at the same value.
            cases v.fragment chunk with
            | error e => rfl
            | ok f =>
                have hcons (x : Result (List (Option Message))) :
                    ((x >>= fun fs => pure (f :: fs)).map List.reduceOption) =
                      (x.map List.reduceOption).map (f.toList ++ ·) := by
                  cases x with
                  | error e => rfl
                  | ok fs => cases f <;> rfl
                exact (hcons _).trans ((congrArg _ hrest).trans (hcons _).symm)
  have hassembled (chunks : List Json) : v.assembled chunks =
      (chunks.mapM v.fragment).map List.reduceOption >>= fun fs =>
        v.accumulator.passOn fs >>= collected := by
    unfold assembled
    cases chunks.mapM v.fragment <;> rfl
  rw [hassembled, hassembled, hfragments]

end Vendor

end ChatRelay
