import ChatRelay.Proofs.Claude.Events

/-!
# Streams of Claude

A reply is a list of blocks.  Its stream starts the message, tells of each block in order, reports
the reason and stops; token counts come in two reports, each with a part of them, and pings may come
at any time.

The calls of a stream gather position by position (`gather_groups`), since a group is about one
position and positions differ.  So the message of the stream is that of the whole body.  Only the
total of the token counts may be another, where the counts of the body come to a sum that wraps
around.

## Main definitions

* `Claude.Course` — the events of a stream, pings apart
* `Claude.StreamsReply` — events that stream a body
-/

namespace ChatRelay.Claude

open Vendor

/-- The counts of a whole body are split between two reports: the early one knows the input, and
the late one knows the output. -/
def SplitsUsage : (whole early late : Option TokenUsage) → Prop
  | none, none, none => True
  | some whole, some early, some late =>
    early.promptTokens = whole.promptTokens ∧ early.completionTokens ≤ whole.completionTokens ∧
      late.promptTokens ≤ whole.promptTokens ∧ late.completionTokens = whole.completionTokens
  | _, _, _ => False

instance (whole early late : Option TokenUsage) : Decidable (SplitsUsage whole early late) := by
  unfold SplitsUsage
  split <;> infer_instance

/-- The blocks of a body, none if it has no content. -/
def content (body : Json) : List Json :=
  ((body.get? "content").bind Json.asArray?).getD []

/-- A body that is a whole reply. -/
@[mk_iff]
structure IsReply (body : Json) : Prop where
  isError : kind body ≠ some "error"
  isArray : (body.get? "content").bind Json.asArray? ≠ none
  blocks : ∀ block ∈ content body, IsBlock block
  length : (content body).length < UInt32.size
  reason : body.textAt? ["stop_reason"] ≠ some ""

instance (body : Json) : Decidable (IsReply body) :=
  decidable_of_iff' (kind body ≠ some "error" ∧
      ((body.get? "content").bind Json.asArray?).isSome ∧
      ((content body).all fun block => IsBlock block) ∧ (content body).length < UInt32.size ∧
      body.textAt? ["stop_reason"] ≠ some "")
    (by simp only [isReply_iff, List.all_eq_true, decide_eq_true_eq, Option.isSome_iff_ne_none])

/-- The events of a stream, pings apart: the start of the message, the groups of its blocks, the
growth of the message itself, and its stop. -/
structure Course where
  start : Json
  groups : List Group
  delta : Json
  stop : Json

def Course.events (c : Course) : List Json :=
  c.start :: (c.groups.flatMap Group.events ++ [c.delta, c.stop])

/-- Events stream a body: apart from pings they start the message, tell of each block in order,
report the reason, and stop. -/
@[mk_iff]
structure StreamsReply (body : Json) (c : Course) (events : List Json) : Prop where
  events : (events.filter fun event => kind event != some "ping") = c.events
  start : kind c.start = some "message_start"
  groups : List.Forall₂ (fun p g => StreamsBlock p.2 p.1 g) (content body).zipIdx c.groups
  delta : kind c.delta = some "message_delta"
  stop : kind c.stop = some "message_stop"
  reason : c.delta.textAt? ["delta", "stop_reason"] = body.textAt? ["stop_reason"]
  usage : SplitsUsage ((body.get? "usage").map usageOf)
    ((c.start.at? ["message", "usage"]).map usageOf) ((c.delta.get? "usage").map usageOf)

instance (body : Json) (c : Course) (events : List Json) :
    Decidable (StreamsReply body c events) :=
  decidable_of_iff' ((events.filter fun event => kind event != some "ping") = c.events ∧
      kind c.start = some "message_start" ∧
      ((content body).zipIdx.length = c.groups.length ∧
        (((content body).zipIdx.zip c.groups).all fun p => StreamsBlock p.1.2 p.1.1 p.2)) ∧
      kind c.delta = some "message_delta" ∧ kind c.stop = some "message_stop" ∧
      c.delta.textAt? ["delta", "stop_reason"] = body.textAt? ["stop_reason"] ∧
      SplitsUsage ((body.get? "usage").map usageOf)
        ((c.start.at? ["message", "usage"]).map usageOf) ((c.delta.get? "usage").map usageOf))
    (by simp only [streamsReply_iff, List.forall₂_iff_zip, List.all_eq_true, decide_eq_true_eq,
      Prod.forall])

variable {position : Nat} {event : Json}

/-! ### The blocks of a reply -/

/-- One more block adds its text, its thinking or its call. -/
theorem add_eq (b : Blocks) (block : Json) (position : Nat) :
    b.add block position =
      { content := b.content ++ spoken block
        reasoning := b.reasoning ++ thought block
        calls := b.calls ++ ((call? (block, position)).map Prod.snd).toList } := by
  unfold Blocks.add
  split
  · next h => simp [spoken, thought, call?, kind, h, text]
  · next h => simp [spoken, thought, call?, kind, h, thinking]
  · next h => simp [spoken, thought, call?, kind, h, arguments]
  · next h₁ h₂ h₃ =>
    have h₁' : kind block ≠ some "text" := h₁
    have h₂' : kind block ≠ some "thinking" := h₂
    have h₃' : kind block ≠ some "tool_use" := h₃
    simp [spoken, thought, call?, h₁', h₂', h₃']

/-- **What blocks say,** in full. -/
theorem ofList_eq (blocks : List Json) :
    Blocks.ofList blocks =
      { content := String.join (blocks.map spoken)
        reasoning := String.join (blocks.map thought)
        calls := (blocks.zipIdx.filterMap call?).map Prod.snd } := by
  suffices h : ∀ (k : Nat) (b : Blocks),
      (blocks.zipIdx k).foldl (fun b p => b.add p.1 p.2) b =
        { content := b.content ++ String.join (blocks.map spoken)
          reasoning := b.reasoning ++ String.join (blocks.map thought)
          calls := b.calls ++ ((blocks.zipIdx k).filterMap call?).map Prod.snd } by
    rw [Blocks.ofList, h]
    simp
  induction blocks with
  | nil =>
      intro k b
      simp
  | cons block blocks ih =>
      intro k b
      rw [List.zipIdx_cons, List.foldl_cons, ih]
      simp only [add_eq]
      cases hcall : call? (block, k) <;> simp [hcall, String.append_assoc]

/-- The calls of a reply stand under the positions of their blocks. -/
theorem mem_calls {blocks : List Json} {k : Nat} {p : UInt32 × ToolCall}
    (h : p ∈ (blocks.zipIdx k).filterMap call?) :
    ∃ n, k ≤ n ∧ n < k + blocks.length ∧ p.1 = UInt32.ofNat n ∧ p.2.index = some p.1 := by
  obtain ⟨⟨block, n⟩, hmem, hcall⟩ := List.mem_filterMap.mp h
  obtain ⟨hge, hlt⟩ := List.mem_zipIdx hmem |>.imp id (·.1)
  unfold call? at hcall
  split at hcall
  · cases hcall
    exact ⟨n, hge, by omega, rfl, rfl⟩
  · cases hcall

theorem ascending_calls {blocks : List Json} {k : Nat} (h : k + blocks.length < UInt32.size) :
    Ascending ((blocks.zipIdx k).filterMap call?) := by
  induction blocks generalizing k with
  | nil => exact Ascending.nil
  | cons block blocks ih =>
      rw [List.length_cons] at h
      have hrest := ih (k := k + 1) (by omega)
      rw [List.zipIdx_cons, List.filterMap_cons]
      split
      · exact hrest
      · next p hcall =>
        refine List.pairwise_cons.mpr ⟨fun q hq => ?_, hrest⟩
        obtain ⟨n, hge, hlt, hq, -⟩ := mem_calls hq
        unfold call? at hcall
        split at hcall
        · cases hcall
          rw [hq]
          exact (Ascending.ofNat_lt_ofNat_iff (by omega) (by omega)).mpr hge
        · cases hcall

theorem lookup_calls_cons {block : Json} {blocks : List Json} {k : Nat}
    (h : k + (block :: blocks).length < UInt32.size) (i : UInt32) :
    (((block :: blocks).zipIdx k).filterMap call?).lookup i =
      if i = UInt32.ofNat k then (call? (block, k)).map Prod.snd
      else ((blocks.zipIdx (k + 1)).filterMap call?).lookup i := by
  have hrest : ((blocks.zipIdx (k + 1)).filterMap call?).lookup (UInt32.ofNat k) = none := by
    refine Ascending.lookup_eq_none_of_lt fun p hp => ?_
    obtain ⟨n, hge, hlt, hn, -⟩ := mem_calls hp
    rw [List.length_cons] at h
    exact hn ▸ (Ascending.ofNat_lt_ofNat_iff (by omega) (by omega)).mpr hge
  rw [List.zipIdx_cons, List.filterMap_cons]
  by_cases hkind : kind block = some "tool_use"
  · simp [call?, hkind, Ascending.lookup_cons]
  · by_cases hi : i = UInt32.ofNat k
    · subst hi
      simpa [call?, hkind] using hrest
    · simp [call?, hkind, hi]

/-- The groups of a reply say what its blocks say. -/
theorem texts_of_groups {blocks : List Json} {k : Nat} {groups : List Group}
    (h : List.Forall₂ (fun p g => StreamsBlock p.2 p.1 g) (blocks.zipIdx k) groups) :
    String.join (((groups.flatMap Group.events).map said).map Message.content) =
        String.join (blocks.map spoken) ∧
      String.join (((groups.flatMap Group.events).map said).map fun f => f.reasoning.getD "") =
        String.join (blocks.map thought) := by
  induction blocks generalizing k groups with
  | nil =>
      cases h
      exact ⟨rfl, rfl⟩
  | cons block blocks ih =>
      obtain ⟨g, gs, hg, hgs, rfl⟩ := List.forall₂_cons_left_iff.mp h
      obtain ⟨hcontent, hreasoning⟩ := texts_of_group hg
      obtain ⟨hcontent', hreasoning'⟩ := ih hgs
      constructor
      · rw [List.flatMap_cons, List.map_append, List.map_append, String.join_append, hcontent,
          hcontent', List.map_cons, String.join_cons]
      · rw [List.flatMap_cons, List.map_append, List.map_append, String.join_append, hreasoning,
          hreasoning', List.map_cons, String.join_cons]

/-- Every group tells of a block. -/
theorem streamsBlock_of_mem {ps : List (Json × Nat)} {groups : List Group}
    (h : List.Forall₂ (fun p g => StreamsBlock p.2 p.1 g) ps groups) :
    ∀ g ∈ groups, ∃ p ∈ ps, StreamsBlock p.2 p.1 g := by
  induction h with
  | nil => simp
  | @cons p g _ _ hg _ ih =>
      intro g' hg'
      rcases List.mem_cons.mp hg' with rfl | hg'
      · exact ⟨p, List.mem_cons_self, hg⟩
      · obtain ⟨q, hq, hblock⟩ := ih g' hg'
        exact ⟨q, List.mem_cons_of_mem _ hq, hblock⟩

/-- Every call of the groups is one of a group. -/
theorem mem_calls_of_groups {ps : List (Json × Nat)} {groups : List Group}
    (h : List.Forall₂ (fun p g => StreamsBlock p.2 p.1 g) ps groups) {call : ToolCall}
    (hcall : call ∈ ((groups.flatMap Group.events).map said).flatMap Message.toolCalls) :
    ∃ p ∈ ps, ∃ g, StreamsBlock p.2 p.1 g ∧
      call ∈ (g.events.map said).flatMap Message.toolCalls := by
  obtain ⟨f, hf, hcall⟩ := List.mem_flatMap.mp hcall
  obtain ⟨event, hevent, rfl⟩ := List.mem_map.mp hf
  obtain ⟨g, hg, hevent⟩ := List.mem_flatMap.mp hevent
  obtain ⟨p, hp, hblock⟩ := streamsBlock_of_mem h g hg
  exact ⟨p, hp, g, hblock, List.mem_flatMap.mpr ⟨_, List.mem_map_of_mem hevent, hcall⟩⟩

/-- The calls of the groups are about the positions of their blocks. -/
theorem index_of_groups {blocks : List Json} {k : Nat} {groups : List Group}
    (h : List.Forall₂ (fun p g => StreamsBlock p.2 p.1 g) (blocks.zipIdx k) groups) :
    ∀ c ∈ ((groups.flatMap Group.events).map said).flatMap Message.toolCalls,
      ∃ n, k ≤ n ∧ n < k + blocks.length ∧ c.index = some (UInt32.ofNat n) := by
  intro c hc
  obtain ⟨⟨block, n⟩, hmem, g, hg, hc⟩ := mem_calls_of_groups h hc
  obtain ⟨hge, hlt⟩ := List.mem_zipIdx hmem |>.imp id (·.1)
  exact ⟨n, hge, hlt, index_of_group hg c hc⟩

/-- **Each index has the calls of one group,** that of the block at the position, or none. -/
theorem at?_groups {blocks : List Json} {k : Nat} {groups : List Group}
    (hlength : k + blocks.length < UInt32.size)
    (h : List.Forall₂ (fun p g => StreamsBlock p.2 p.1 g) (blocks.zipIdx k) groups) (i : UInt32) :
    (Assembler.at? i (((groups.flatMap Group.events).map said).flatMap Message.toolCalls) = [] ∧
        ((blocks.zipIdx k).filterMap call?).lookup i = none) ∨
      ∃ position block g, StreamsBlock position block g ∧ i = UInt32.ofNat position ∧
        Assembler.at? i (((groups.flatMap Group.events).map said).flatMap Message.toolCalls) =
          (g.events.map said).flatMap Message.toolCalls ∧
        ((blocks.zipIdx k).filterMap call?).lookup i =
          (call? (block, position)).map Prod.snd := by
  induction blocks generalizing k groups with
  | nil =>
      cases h
      exact Or.inl ⟨rfl, rfl⟩
  | cons block blocks ih =>
      obtain ⟨g, gs, hg, hgs, rfl⟩ := List.forall₂_cons_left_iff.mp h
      rw [List.length_cons] at hlength
      have hrest := ih (by omega) hgs
      simp only [List.flatMap_cons, List.map_append, List.flatMap_append, Assembler.at?_append]
      rw [lookup_calls_cons (by rw [List.length_cons]; omega)]
      by_cases hi : i = UInt32.ofNat k
      · -- The position of the first block: no later group is about it.
        subst hi
        have hnone : Assembler.at? (UInt32.ofNat k)
            (((gs.flatMap Group.events).map said).flatMap Message.toolCalls) = [] := by
          refine Assembler.at?_eq_nil fun c hc => ?_
          obtain ⟨n, hge, hlt, hn⟩ := index_of_groups hgs c hc
          rw [hn]
          intro heq
          have hlt' := (Ascending.ofNat_lt_ofNat_iff (by omega) (by omega)).mpr hge
          rw [Option.some.inj heq] at hlt'
          exact UInt32.lt_irrefl _ hlt'
        rw [hnone, List.append_nil, if_pos rfl, Assembler.at?_eq_self (index_of_group hg)]
        exact Or.inr ⟨k, block, g, hg, rfl, rfl, rfl⟩
      · -- A later position, or none.
        have hnone : Assembler.at? i ((g.events.map said).flatMap Message.toolCalls) = [] := by
          refine Assembler.at?_eq_nil fun c hc => ?_
          rw [index_of_group hg c hc]
          exact fun heq => hi (Option.some.inj heq).symm
        rw [hnone, List.nil_append, if_neg hi]
        exact hrest

/-- **The calls of the groups gather position by position** to those of the blocks. -/
theorem gather_groups {blocks : List Json} {k : Nat} {groups : List Group}
    (hlength : k + blocks.length < UInt32.size)
    (h : List.Forall₂ (fun p g => StreamsBlock p.2 p.1 g) (blocks.zipIdx k) groups) (i : UInt32) :
    let calls := Assembler.at? i
      (((groups.flatMap Group.events).map said).flatMap Message.toolCalls)
    Assembler.gather none
        (calls ++ Accumulator.closingAt emptyArguments i (Accumulator.noted none calls)) =
      some (((blocks.zipIdx k).filterMap call?).lookup i) := by
  rcases at?_groups hlength h i with ⟨hnil, hnone⟩ | ⟨position, block, g, hg, rfl, hat, hlookup⟩
  · rw [hnil, hnone]
    rfl
  · rw [hat, hlookup]
    exact gather_group hg

/-! ### The events about the message -/

theorem said_messageStart (h : kind event = some "message_start") :
    said event =
      { Message.assistant "" with
        info := reportOf none ((event.at? ["message", "usage"]).map usageOf) } := by
  simp [said, h, eventFragment?]

theorem said_messageDelta (h : kind event = some "message_delta") :
    said event =
      { Message.assistant "" with
        info := reportOf ((event.textAt? ["delta", "stop_reason"]).map finishReason)
          ((event.get? "usage").map usageOf) } := by
  simp [said, h, eventFragment?]

theorem said_messageStop (h : kind event = some "message_stop") : said event = .assistant "" := by
  simp [said, h, eventFragment?]

section SplitsUsage

variable {whole early late : TokenUsage} (h : SplitsUsage (some whole) (some early) (some late))
include h

/-- The counts of two reports that split those of a body are the counts of the body. -/
theorem counts_of_splitsUsage :
    max early.promptTokens.toNat late.promptTokens.toNat = whole.promptTokens.toNat ∧
      max early.completionTokens.toNat late.completionTokens.toNat =
        whole.completionTokens.toNat := by
  obtain ⟨hprompt, hcompletion, hprompt', hcompletion'⟩ := h
  rw [UInt64.le_iff_toNat_le] at hcompletion hprompt'
  rw [hprompt, hcompletion']
  exact ⟨Nat.max_eq_left hprompt', Nat.max_eq_right hcompletion⟩

theorem fitsWith_iff_of_splitsUsage : early.FitsWith late ↔ whole.Fits := by
  obtain ⟨hprompt, hcompletion⟩ := counts_of_splitsUsage h
  rw [TokenUsage.FitsWith, TokenUsage.Fits, hprompt, hcompletion]

theorem withoutTotal_merge_of_splitsUsage :
    (early.merge late).withoutTotal = whole.withoutTotal := by
  obtain ⟨hprompt, hcompletion⟩ := counts_of_splitsUsage h
  refine TokenUsage.ext_toNat ?_ ?_ rfl
  · exact (TokenUsage.toNat_promptTokens_merge early late).trans hprompt
  · exact (TokenUsage.toNat_completionTokens_merge early late).trans hcompletion

end SplitsUsage

/-- The counts of a whole body can be added. -/
def CountsFit (body : Json) : Prop :=
  ∀ u ∈ body.get? "usage", (usageOf u).Fits

instance (body : Json) : Decidable (CountsFit body) :=
  decidable_of_iff' ((body.get? "usage").all fun u => (usageOf u).Fits)
    (by simp only [CountsFit, Option.all_eq_true, Option.mem_def, decide_eq_true_eq])

/-- Reports that split the counts merge to those of the whole body, with their total where it does
not wrap around. -/
theorem merge_of_splitsUsage {w e l : Json}
    (h : SplitsUsage (some (usageOf w)) (some (usageOf e)) (some (usageOf l)))
    (hfits : (usageOf w).Fits) : (usageOf e).merge (usageOf l) = usageOf w := by
  obtain ⟨hprompt, hcompletion⟩ := counts_of_splitsUsage h
  have hfitsWith := (fitsWith_iff_of_splitsUsage h).mpr hfits
  have hsum : (usageOf w).promptTokens.toNat + (usageOf w).completionTokens.toNat < UInt64.size :=
    hfits
  have htotal (u : Json)
      (hle : (usageOf u).promptTokens.toNat + (usageOf u).completionTokens.toNat ≤
        (usageOf w).promptTokens.toNat + (usageOf w).completionTokens.toNat) :
      (usageOf u).totalTokens.toNat =
        (usageOf u).promptTokens.toNat + (usageOf u).completionTokens.toNat :=
    TokenUsage.toNat_add (Nat.lt_of_le_of_lt hle hsum)
  refine TokenUsage.ext_toNat ?_ ?_ ?_
  · rw [TokenUsage.toNat_promptTokens_merge, hprompt]
  · rw [TokenUsage.toNat_completionTokens_merge, hcompletion]
  · rw [TokenUsage.toNat_totalTokens_merge hfitsWith, hprompt, hcompletion,
      htotal e (by omega), htotal l (by omega), htotal w (Nat.le_refl _)]
    omega

/-- The reports of a stream, if there are any, come to that of the whole body. -/
theorem mergeOption_of_splitsUsage {whole early late : Option Json}
    (h : SplitsUsage (whole.map usageOf) (early.map usageOf) (late.map usageOf)) :
    (TokenUsage.mergeOption (early.map usageOf) (late.map usageOf)).map TokenUsage.withoutTotal =
        (whole.map usageOf).map TokenUsage.withoutTotal ∧
      ((∀ u ∈ whole, (usageOf u).Fits) →
        TokenUsage.SumsFit ((early.map usageOf).toList ++ (late.map usageOf).toList) ∧
          TokenUsage.mergeOption (early.map usageOf) (late.map usageOf) = whole.map usageOf) := by
  match whole, early, late, h with
  | none, none, none, _ => exact ⟨rfl, fun _ => ⟨List.Pairwise.nil, rfl⟩⟩
  | some w, some e, some l, h =>
      refine ⟨congrArg some (withoutTotal_merge_of_splitsUsage h), fun hfits => ?_⟩
      have hw : (usageOf w).Fits := hfits w rfl
      exact ⟨List.pairwise_pair.mpr ((fitsWith_iff_of_splitsUsage h).mpr hw),
        congrArg some (merge_of_splitsUsage h hw)⟩

theorem finishReason_ne_empty {r : String} (h : r ≠ "") : finishReason r ≠ "" := by
  unfold finishReason
  split
  · simp
  · split
    · simp
    · split
      · simp
      · exact h

/-! ### The message of a stream -/

variable {body : Json} {c : Course} {events : List Json}

/-- The finish reason of a whole body. -/
def reason (body : Json) : Option String :=
  (body.textAt? ["stop_reason"]).map finishReason

theorem reason_of_stop_reason (hbody : body.textAt? ["stop_reason"] ≠ some "") :
    reason body ≠ some "" := by
  intro h
  obtain ⟨r, hr, hempty⟩ := Option.map_eq_some_iff.mp h
  refine finishReason_ne_empty (fun hnil => hbody ?_) hempty
  rw [hr, hnil]

theorem reason_ne_empty (hbody : IsReply body) : reason body ≠ some "" :=
  reason_of_stop_reason hbody.reason

/-- What the events of a stream say, one after the other. -/
theorem said_course (h : StreamsReply body c events) :
    c.events.map said =
      { Message.assistant "" with
        info := reportOf none ((c.start.at? ["message", "usage"]).map usageOf) } ::
      ((c.groups.flatMap Group.events).map said ++
        [{ Message.assistant "" with
            info := reportOf (reason body) ((c.delta.get? "usage").map usageOf) },
          .assistant ""]) := by
  simp [Course.events, said_messageStart h.start, said_messageDelta h.delta,
    said_messageStop h.stop, h.reason, reason]

theorem isQuiet_of_groups (h : StreamsReply body c events) :
    ∀ f ∈ (c.groups.flatMap Group.events).map said, IsQuiet f := by
  intro f hf
  obtain ⟨event, hevent, rfl⟩ := List.mem_map.mp hf
  obtain ⟨g, hg, hevent⟩ := List.mem_flatMap.mp hevent
  obtain ⟨p, -, hblock⟩ := streamsBlock_of_mem h.groups g hg
  exact isQuiet_of_group hblock _ (List.mem_map_of_mem hevent)

/-- What holds of everything said in a stream. -/
theorem fragments_of_reason (hreason : reason body ≠ some "") (h : StreamsReply body c events) :
    ∀ f ∈ c.events.map said, f.IsFragment ∧ f.toolCalls.length ≤ 1 ∧
      (Accumulator.isFinishing f = true → f.toolCalls = []) := by
  intro f hf
  rw [said_course h] at hf
  rcases List.mem_cons.mp hf with rfl | hf
  · exact ⟨isFragment_of_reportOf (by simp) (by simp), Nat.zero_le 1, fun _ => rfl⟩
  · rcases List.mem_append.mp hf with hf | hf
    · have hquiet := isQuiet_of_groups h f hf
      refine ⟨hquiet.isFragment, hquiet.length, fun hfinishing => ?_⟩
      simp [Accumulator.isFinishing, Message.finishReason?, hquiet.info] at hfinishing
    · rcases List.mem_cons.mp hf with rfl | hf
      · exact ⟨isFragment_of_reportOf (by simp) hreason, Nat.zero_le 1, fun _ => rfl⟩
      · rw [List.mem_singleton.mp hf]
        exact ⟨isFragment_of_no_report (by simp), Nat.zero_le 1, fun _ => rfl⟩

/-- No calls follow the fragment that finishes the reply. -/
theorem pairwise_of_streamsReply (h : StreamsReply body c events) :
    (c.events.map said).Pairwise fun f g =>
      Accumulator.isFinishing f = true → g.toolCalls = [] := by
  have hopen : ∀ f ∈ (c.groups.flatMap Group.events).map said,
      Accumulator.isFinishing f = false := by
    intro f hf
    simp [Accumulator.isFinishing, Message.finishReason?, (isQuiet_of_groups h f hf).info]
  rw [said_course h]
  refine List.pairwise_cons.mpr ⟨fun g _ hfinishing => ?_, List.pairwise_append.mpr ⟨?_, ?_, ?_⟩⟩
  · simp [Accumulator.isFinishing, Message.finishReason?] at hfinishing
  · refine List.pairwise_of_forall_mem_list fun f hf g _ hfinishing => ?_
    rw [hopen f hf] at hfinishing
    cases hfinishing
  · simp [Message.assistant]
  · intro f hf g _ hfinishing
    rw [hopen f hf] at hfinishing
    cases hfinishing

/-- All calls of a stream are those of its groups. -/
theorem calls_of_course (h : StreamsReply body c events) :
    (c.events.map said).flatMap Message.toolCalls =
      ((c.groups.flatMap Group.events).map said).flatMap Message.toolCalls := by
  rw [said_course h]
  simp [Message.assistant]

theorem index_of_streamsReply (h : StreamsReply body c events) :
    ∀ f ∈ c.events.map said, ∀ call ∈ f.toolCalls, call.index ≠ none := by
  intro f hf call hcall
  have hmem : call ∈ (c.events.map said).flatMap Message.toolCalls :=
    List.mem_flatMap.mpr ⟨f, hf, hcall⟩
  rw [calls_of_course h] at hmem
  obtain ⟨n, -, -, hn⟩ := index_of_groups h.groups call hmem
  rw [hn]
  exact Option.some_ne_none _

/-- What a body says, the calls as given. -/
def told (calls : List ToolCall) (body : Json) : Message :=
  { Message.assistant (String.join ((content body).map spoken)) with
    reasoning := nonEmpty? (String.join ((content body).map thought))
    toolCalls := calls
    info := reportOf (reason body) ((body.get? "usage").map usageOf) }

/-- The message of a body that is no error and has blocks, in full. -/
theorem reply_of_blocks (herror : kind body ≠ some "error")
    (harray : (body.get? "content").bind Json.asArray? ≠ none) :
    reply body = .ok (told (((content body).zipIdx.filterMap call?).map Prod.snd) body) := by
  have hfailure : failure? body = none := if_neg herror
  obtain ⟨blocks, hblocks⟩ := Option.ne_none_iff_exists'.mp harray
  have hcontent : content body = blocks := by simp [content, hblocks]
  simp only [reply, hfailure, hblocks, told, hcontent, ofList_eq]
  rfl

/-- Pings have no fragment. -/
theorem fragment_ping (h : kind event = some "ping") : fragment event = .ok none := by
  rw [fragment_eq (by simp [h]) (by simp [h])]
  have hsaid : said event = .assistant "" := by simp [said, h, eventFragment?]
  rw [hsaid]
  rfl

theorem kind_of_streamsReply (h : StreamsReply body c events) :
    ∀ event ∈ c.events, kind event ≠ none ∧ kind event ≠ some "error" := by
  intro event hevent
  rcases List.mem_cons.mp hevent with rfl | hevent
  · simp [h.start]
  · rcases List.mem_append.mp hevent with hevent | hevent
    · obtain ⟨g, hg, hevent⟩ := List.mem_flatMap.mp hevent
      obtain ⟨p, -, hblock⟩ := streamsBlock_of_mem h.groups g hg
      rcases List.mem_cons.mp hevent with rfl | hevent
      · simp [hblock.start.1]
      · rcases List.mem_append.mp hevent with hevent | hevent
        · simp [(hblock.deltas event hevent).1]
        · simp [List.mem_singleton.mp hevent, hblock.stop.1]
    · rcases List.mem_cons.mp hevent with rfl | hevent
      · simp [h.delta]
      · simp [List.mem_singleton.mp hevent, h.stop]

/-- A stream has the reason of the whole body, and two reports at most. -/
theorem report_of_streamsReply (h : StreamsReply body c events) :
    ((c.events.map said).map Message.finishReason?).reduceOption = (reason body).toList ∧
      (c.events.map said).filterMap Message.usage? =
        ((c.start.at? ["message", "usage"]).map usageOf).toList ++
          ((c.delta.get? "usage").map usageOf).toList := by
  have hreasons : ((c.groups.flatMap Group.events).map said).map Message.finishReason? =
      List.replicate ((c.groups.flatMap Group.events).map said).length none :=
    List.map_eq_replicate_iff.mpr fun f hf => by
      rw [Message.finishReason?, (isQuiet_of_groups h f hf).info, Option.bind_none]
  have husages : ((c.groups.flatMap Group.events).map said).filterMap Message.usage? = [] :=
    List.filterMap_eq_nil_iff.mpr fun f hf => by
      rw [Message.usage?, (isQuiet_of_groups h f hf).info, Option.bind_none]
  rw [said_course h]
  constructor
  · simp only [List.map_cons, List.map_append, hreasons, Message.finishReason?,
      reportOf_finishReason]
    cases hreason : reason body <;> simp [List.reduceOption_append, Message.assistant]
  · simp only [List.filterMap_cons, List.filterMap_append, husages, Message.usage?, reportOf_usage]
    cases (c.start.at? ["message", "usage"]).map usageOf <;>
      cases (c.delta.get? "usage").map usageOf <;> rfl

/-- What the fragments say, but for the calls, is what the body says, the total of the counts where
they can be added. -/
theorem gathered_of_streamsReply (hne : reason body ≠ some "") (h : StreamsReply body c events)
    (calls : List ToolCall) :
    Message.AgreesWhen (CountsFit body) (Message.gathered (c.events.map said) calls)
      (told calls body) := by
  obtain ⟨hreason, husages⟩ := report_of_streamsReply h
  obtain ⟨hcounts, hsame⟩ := mergeOption_of_splitsUsage h.usage
  have husage : ((c.events.map said).map Message.usage?).foldl TokenUsage.mergeOption none =
      TokenUsage.mergeOption ((c.start.at? ["message", "usage"]).map usageOf)
        ((c.delta.get? "usage").map usageOf) := by
    rw [TokenUsage.foldl_mergeOption_reduceOption, reduceOption_map, husages,
      TokenUsage.foldl_mergeOption_toList]
  have hcontent : String.join ((c.events.map said).map Message.content) =
      String.join ((content body).map spoken) := by
    rw [said_course h, ← (texts_of_groups h.groups).1]
    simp [Message.assistant, String.join_append]
  have hreasoning : String.join ((c.events.map said).map fun f => f.reasoning.getD "") =
      String.join ((content body).map thought) := by
    rw [said_course h, ← (texts_of_groups h.groups).2]
    simp [Message.assistant, String.join_append]
  rw [gathered_eq (fun f hf => (fragments_of_reason hne h f hf).1) hreason hne, husage, hcontent,
    hreasoning]
  exact agreesWhen_reportOf hcounts (fun hfits => (hsame hfits).2) (told calls body) (reason body)

/-- A stream comes to what its body says, with the calls that are assembled, the total of the counts
where they can be added. -/
theorem assembled_of_streamsReply (config : Config) (hne : reason body ≠ some "")
    (h : StreamsReply body c events) {a : Assembler}
    (hcalls : ({} : Assembler).pushAll (((Vendor.claude config).accumulator.repaired
      (c.events.map said)).flatMap Message.toolCalls) = .ok a) :
    ∃ m, (Vendor.claude config).assembled events = .ok m ∧
      Message.AgreesWhen (CountsFit body) m (told a.calls body) := by
  have hpings : (Vendor.claude config).assembled events =
      (Vendor.claude config).assembled c.events := by
    rw [← h.events, assembled_filter]
    intro event _ hping
    exact fragment_ping (by simpa using hping)
  have hstream : (Vendor.claude config).Streams c.events (c.events.map said) := by
    refine streams_map fun event hevent => ?_
    obtain ⟨hkind, herror⟩ := kind_of_streamsReply h event hevent
    exact fragment_eq hkind herror
  have hfs := fragments_of_reason hne h
  obtain ⟨m, hm, hgathered⟩ := assembled_of_one_call hstream (fun f hf => (hfs f hf).1)
    (fun f hf => (hfs f hf).2) hcalls
  rw [(report_of_streamsReply h).2] at hgathered
  have hfit (hcounts : CountsFit body) := ((mergeOption_of_splitsUsage h.usage).2 hcounts).1
  exact ⟨m, hpings.trans hm, (hgathered.imp hfit).trans (gathered_of_streamsReply hne h a.calls)⟩

end ChatRelay.Claude
