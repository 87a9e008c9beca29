import ChatRelay.Proofs.Stream.Assembled

/-!
# Streams of Gemini

Whole bodies and chunks are read alike, so all depends on how the parts of a reply are spread over
chunks.  A text may be cut further, into parts of the same kind, and every other part is kept whole.
Reading does not see the cuts (`said_flatten`), and so the message of such a stream is that of the
whole body, ids included.  Only the total of the token counts may be another, where a sum of counts
wraps around.

## Main definitions

* `Gemini.stated?` — token counts as they are stated
* `Gemini.Cut` — a part and the parts into which it was cut
* `Gemini.IsReply` — a body that is a whole reply
* `Gemini.StreamsReply` — chunks that stream a body
-/

namespace ChatRelay.Gemini

open Vendor

/-! ### Views of a body or chunk -/

/-- The first candidate, if there is any. -/
def first? (v : Json) : Option Json :=
  v.at? ["candidates", "0"]

def parts (v : Json) : List Json :=
  (((first? v).bind (·.at? ["content", "parts"])).bind Json.asArray?).getD []

def reason (v : Json) : Option String :=
  (first? v).bind finishReason?

/-- The token counts of a body or chunk as it states them. -/
def stated? (v : Json) : Option TokenUsage :=
  (v.get? "usageMetadata").map fun u =>
    ⟨u.countAt ["promptTokenCount"], u.countAt ["candidatesTokenCount"],
      u.countAt ["totalTokenCount"]⟩

/-- Whether the text of a part is thought. -/
def IsThought (part : Json) : Prop :=
  (part.get? "thought").bind Json.asBool? = some true

instance (part : Json) : Decidable (IsThought part) :=
  inferInstanceAs (Decidable (_ = _))

/-- What a part adds to the content. -/
def spoken (part : Json) : String :=
  if IsThought part then "" else textAt ["text"] part

/-- What a part adds to the reasoning. -/
def thought (part : Json) : String :=
  if IsThought part then textAt ["text"] part else ""

/-- The call of a part that has no text. -/
def call? (part : Json) : Option Json :=
  if part.textAt? ["text"] = none then part.get? "functionCall" else none

/-- A call has a name, and its id, if it states one, is not empty. -/
def IsCall (call : Json) : Prop :=
  textAt ["name"] call ≠ "" ∧ call.textAt? ["id"] ≠ some ""

instance (call : Json) : Decidable (IsCall call) :=
  inferInstanceAs (Decidable (_ ∧ _))

/-- A part is kept whole, or it is a text and cut into consecutive texts of its kind. -/
def Cut (part : Json) (pieces : List Json) : Prop :=
  pieces = [part] ∨
    part.textAt? ["text"] = some (String.join (pieces.map (textAt ["text"]))) ∧
      ∀ piece ∈ pieces, piece.textAt? ["text"] ≠ none ∧ (IsThought piece ↔ IsThought part)

instance (part : Json) (pieces : List Json) : Decidable (Cut part pieces) :=
  inferInstanceAs (Decidable (_ ∨ _ ∧ _))

/-- A body or chunk that reports no error. -/
def IsAccepted (v : Json) : Prop :=
  failure? v = none ∧ (first? v = none → refusal? v = none)

instance (v : Json) : Decidable (IsAccepted v) :=
  inferInstanceAs (Decidable (_ ∧ _))

/-- A body that is a whole reply. -/
@[mk_iff]
structure IsReply (body : Json) : Prop where
  failure : failure? body = none
  first : first? body ≠ none
  calls : ∀ call ∈ (parts body).filterMap call?, IsCall call

-- Statements about all members of a list are decided by running through the computed list.
instance (body : Json) : Decidable (IsReply body) :=
  decidable_of_iff' (failure? body = none ∧ first? body ≠ none ∧
      (((parts body).filterMap call?).all fun call => IsCall call))
    (by simp only [isReply_iff, List.all_eq_true, decide_eq_true_eq])

/-- Chunks stream a body: the pieces into which its parts were cut in consecutive slices, its
reason on one chunk, and cumulative reports of which the last is that of the body. -/
@[mk_iff]
structure StreamsReply (body : Json) (pieces : List (List Json)) (chunks : List Json) : Prop where
  accepted : ∀ chunk ∈ chunks, IsAccepted chunk
  cut : List.Forall₂ Cut (parts body) pieces
  parts : chunks.flatMap parts = pieces.flatten
  reason : chunks.filterMap reason = (reason body).toList
  cumulative : ∀ t ∈ usage? body, ∀ u ∈ chunks.filterMap stated?, u ≤ t
  usage : (chunks.filterMap usage?).getLast? = usage? body

instance (body : Json) (pieces : List (List Json)) (chunks : List Json) :
    Decidable (StreamsReply body pieces chunks) :=
  decidable_of_iff' ((∀ chunk ∈ chunks, IsAccepted chunk) ∧
      ((Gemini.parts body).length = pieces.length ∧
        (((Gemini.parts body).zip pieces).all fun p => Cut p.1 p.2)) ∧
      chunks.flatMap Gemini.parts = pieces.flatten ∧
      chunks.filterMap Gemini.reason = (Gemini.reason body).toList ∧
      ((usage? body).all fun t => (chunks.filterMap stated?).all fun u => u ≤ t) ∧
      (chunks.filterMap usage?).getLast? = usage? body)
    (by simp only [streamsReply_iff, List.forall₂_iff_zip, List.all_eq_true, Option.all_eq_true,
      decide_eq_true_eq, Prod.forall, Option.mem_def])

/-! ### Reading parts -/

/-- One more part adds its text, its thought or its call. -/
theorem add_eq (numbered : Bool) (p : Parts) (part : Json) :
    p.add numbered part =
      { content := p.content ++ spoken part
        reasoning := p.reasoning ++ thought part
        calls := p.calls ++ (call? part).toList.map
          (callOf (if numbered then some p.calls.length else none)) } := by
  unfold Parts.add spoken thought call? textAt
  cases htext : part.textAt? ["text"] with
  | some text =>
      by_cases hthought : IsThought part
      · have hflag : (part.get? "thought").bind Json.asBool? = some true := hthought
        simp [hthought, hflag]
      · have hflag : (part.get? "thought").bind Json.asBool? ≠ some true := hthought
        simp [hthought, hflag]
  | none =>
      cases hcall : part.get? "functionCall" <;> simp

/-- **What parts say,** in full. -/
theorem ofList_eq (numbered : Bool) (ps : List Json) :
    Parts.ofList numbered ps =
      { content := String.join (ps.map spoken)
        reasoning := String.join (ps.map thought)
        calls := (ps.filterMap call?).mapIdx fun i call =>
          callOf (if numbered then some i else none) call } := by
  induction ps using List.reverseRecOn with
  | nil => rfl
  | append_singleton ps p ih =>
      have hstep : Parts.ofList numbered (ps ++ [p]) =
          (Parts.ofList numbered ps).add numbered p := by
        simp [Parts.ofList]
      rw [hstep, ih, add_eq]
      cases hcall : call? p <;> simp [hcall, List.filterMap_append, String.join_append]

/-- Reading does not see how a part was cut. -/
theorem said_cut {part : Json} {pieces : List Json} (h : Cut part pieces) :
    String.join (pieces.map spoken) = spoken part ∧
      String.join (pieces.map thought) = thought part ∧
      pieces.filterMap call? = (call? part).toList := by
  rcases h with rfl | ⟨htext, hpieces⟩
  · cases hcall : call? part <;> simp [hcall]
  · have hjoin : textAt ["text"] part = String.join (pieces.map (textAt ["text"])) := by
      simp [textAt, htext]
    have hcalls : pieces.filterMap call? = [] := by
      refine List.filterMap_eq_nil_iff.mpr fun piece hpiece => ?_
      rw [call?, if_neg (hpieces piece hpiece).1]
    have hcall : call? part = none := by simp [call?, htext]
    -- The pieces are texts of one kind, so they add to the content or to the reasoning alone.
    by_cases hthought : IsThought part
    · have hspoken : pieces.map spoken = pieces.map fun _ => "" :=
        List.map_congr_left fun piece hpiece => if_pos ((hpieces piece hpiece).2.mpr hthought)
      have hthoughts : pieces.map thought = pieces.map (textAt ["text"]) :=
        List.map_congr_left fun piece hpiece => if_pos ((hpieces piece hpiece).2.mpr hthought)
      rw [hspoken, hthoughts, hcalls, hcall]
      simp [spoken, thought, hthought, hjoin]
    · have hspoken : pieces.map spoken = pieces.map (textAt ["text"]) :=
        List.map_congr_left fun piece hpiece =>
          if_neg fun hp => hthought ((hpieces piece hpiece).2.mp hp)
      have hthoughts : pieces.map thought = pieces.map fun _ => "" :=
        List.map_congr_left fun piece hpiece =>
          if_neg fun hp => hthought ((hpieces piece hpiece).2.mp hp)
      rw [hspoken, hthoughts, hcalls, hcall]
      simp [spoken, thought, hthought, hjoin]

/-- **Reading does not see how parts were cut.** -/
theorem said_flatten {ps : List Json} {pieces : List (List Json)} (h : List.Forall₂ Cut ps pieces) :
    String.join (pieces.flatten.map spoken) = String.join (ps.map spoken) ∧
      String.join (pieces.flatten.map thought) = String.join (ps.map thought) ∧
      pieces.flatten.filterMap call? = ps.filterMap call? := by
  induction h with
  | nil => exact ⟨rfl, rfl, rfl⟩
  | @cons p _ ps _ hcut _ ih =>
      obtain ⟨hspoken, hthought, hcalls⟩ := said_cut hcut
      obtain ⟨hspoken', hthought', hcalls'⟩ := ih
      refine ⟨?_, ?_, ?_⟩
      · rw [List.flatten_cons, List.map_append, String.join_append, hspoken, hspoken',
          List.map_cons, String.join_cons]
      · rw [List.flatten_cons, List.map_append, String.join_append, hthought, hthought',
          List.map_cons, String.join_cons]
      · rw [List.flatten_cons, List.filterMap_append, hcalls, hcalls']
        cases hcall : call? p <;> simp [hcall]

/-! ### The fragment of a chunk -/

theorem lowercase_ne_empty {text : String} (h : text ≠ "") : Text.lowercase text ≠ "" := by
  obtain ⟨c, cs, hcs⟩ := List.exists_cons_of_ne_nil (String.toList_eq_nil_iff.not.mpr h)
  intro hempty
  rw [Text.lowercase, hcs, Text.lowercaseFrom] at hempty
  have hnil := congrArg String.toList hempty
  rw [String.toList_ofList] at hnil
  obtain ⟨hfirst, -⟩ := List.append_eq_nil_iff.mp hnil
  split at hfirst
  · cases hfirst
  · split at hfirst <;> cases hfirst

theorem finishReason_ne_empty {r : String} (h : r ≠ "") : finishReason r ≠ "" := by
  unfold finishReason
  split
  · simp
  · split
    · simp
    · split
      · simp
      · exact lowercase_ne_empty h

theorem reason_ne_empty (v : Json) : reason v ≠ some "" := by
  intro h
  obtain ⟨first, -, hreason⟩ := Option.bind_eq_some_iff.mp h
  obtain ⟨r, hr, hempty⟩ := Option.map_eq_some_iff.mp hreason
  have hne : r ≠ "" := by
    have hkeep := (Option.filter_eq_some_iff.mp hr).2
    simp only [Bool.and_eq_true, Bool.not_eq_true', String.isEmpty_eq_false_iff] at hkeep
    exact hkeep.1
  exact finishReason_ne_empty hne hempty

/-- What a body or chunk says; `numbered` if it holds all calls of the reply. -/
def said (numbered : Bool) (v : Json) : Message :=
  { Message.assistant (String.join ((parts v).map spoken)) with
    reasoning := nonEmpty? (String.join ((parts v).map thought))
    toolCalls := ((parts v).filterMap call?).mapIdx fun i call =>
      callOf (if numbered then some i else none) call
    info := reportOf (reason v) (usage? v) }

theorem candidate_eq {v : Json} (h : first? v = none → refusal? v = none) (numbered : Bool) :
    candidate numbered v = .ok (said numbered v) := by
  have hnone : (if (v.at? ["candidates", "0"]).isNone then refusal? v else none) = none := by
    split
    · next hfirst => exact h (Option.isNone_iff_eq_none.mp hfirst)
    · rfl
  simp only [candidate, hnone, ofList_eq]
  rfl

/-- What comes of a body or chunk is what it says. -/
theorem eq_said_of_candidate {numbered : Bool} {v : Json} {m : Message}
    (h : candidate numbered v = .ok m) : m = said numbered v := by
  have hrefusal : first? v = none → refusal? v = none := by
    intro hfirst
    cases hrefusal : refusal? v with
    | none => rfl
    | some e =>
        have hnone : (v.at? ["candidates", "0"]).isNone = true := by
          rw [show v.at? ["candidates", "0"] = none from hfirst]
          rfl
        simp only [candidate, hnone, if_true, hrefusal] at h
        cases h
  rw [candidate_eq hrefusal] at h
  exact (Except.ok.inj h).symm

theorem eq_said_of_reply {m : Message} (h : reply body = .ok m) : m = said true body := by
  rw [reply] at h
  split at h
  · cases h
  · split at h
    · cases h
    · exact eq_said_of_candidate h

theorem eq_said_of_fragment {chunk : Json} {found : Option Message}
    (h : fragment chunk = .ok found) : found = contentful? (said false chunk) := by
  rw [fragment] at h
  split at h
  · cases h
  · obtain ⟨m, hm, rfl⟩ := Result.map_eq_ok_iff.mp h
    rw [eq_said_of_candidate hm]

theorem said_finishReason? (numbered : Bool) (v : Json) :
    (said numbered v).finishReason? = reason v :=
  reportOf_finishReason ..

theorem said_usage? (numbered : Bool) (v : Json) : (said numbered v).usage? = usage? v :=
  reportOf_usage ..

theorem isFragment_said (numbered : Bool) (v : Json) : (said numbered v).IsFragment :=
  isFragment_of_reportOf (nonEmpty?_ne _) (reason_ne_empty v)

/-- A call that lacks an id is written with that of its position, where that is known. -/
theorem callOf_some {call : Json} (h : IsCall call) (n : Nat) :
    callOf (some n) call =
      if (callOf none call).id = "" then
        { callOf none call with id := ToolCall.positionalId n }
      else callOf none call :=
  ToolCall.ofFunction_getD h.2 n ..

theorem usage?_eq (v : Json) : usage? v = (stated? v).map TokenUsage.raised := by
  rw [usage?, stated?, Option.map_map]
  rfl

variable {body : Json} {pieces : List (List Json)} {chunks : List Json}

/-- The calls of a stream, once the accumulator has given ids, are those of the whole body. -/
theorem calls_of_streamsReply (hbody : IsReply body)
    (hcalls : (chunks.flatMap parts).filterMap call? = (parts body).filterMap call?) :
    Accumulator.named 0 ((chunks.map (said false)).flatMap Message.toolCalls) =
      (said true body).toolCalls := by
  have hslice (chunk : Json) : (said false chunk).toolCalls =
      ((parts chunk).filterMap call?).map (callOf none) :=
    List.mapIdx_eq_iff.mpr fun i => by simp
  have hall : (chunks.map (said false)).flatMap Message.toolCalls =
      ((parts body).filterMap call?).map (callOf none) := by
    rw [← hcalls, List.filterMap_flatMap, List.flatMap_map, List.map_flatMap]
    exact congrArg (List.flatMap · _) (funext hslice)
  have hname : ∀ call ∈ (parts body).filterMap call?, (callOf none call).function.name ≠ "" :=
    fun call hcall => (hbody.calls call hcall).1
  rw [hall, Accumulator.named_map hname fun call hcall => callOf_some (hbody.calls call hcall)]
  simp [said]

/-- The fragments of a stream say what the whole body says, the total of the counts where no sum of
counts wraps around. -/
theorem gathered_of_streamsReply (h : StreamsReply body pieces chunks) (cs : List ToolCall) :
    Message.AgreesWhen (TokenUsage.SumsFit (chunks.filterMap usage?))
      (Message.gathered (chunks.map (said false)) cs) { said true body with toolCalls := cs } := by
  obtain ⟨hspoken, hthought, -⟩ := said_flatten h.cut
  rw [← h.parts] at hspoken hthought
  have hcontent : String.join (chunks.map fun chunk => (said false chunk).content) =
      String.join ((parts body).map spoken) := by
    rw [← hspoken, List.map_flatMap, ← join_map_join]
    rfl
  have hreasoning : String.join (chunks.map fun chunk => (said false chunk).reasoning.getD "") =
      String.join ((parts body).map thought) := by
    rw [← hthought, List.map_flatMap, ← join_map_join]
    exact congrArg String.join (List.map_congr_left fun chunk _ => getD_nonEmpty? _)
  have hgathered := gathered_of_cumulative (isFragment_said false) (said_finishReason? false)
    (said_usage? false) usage?_eq h.reason (reason_ne_empty body) h.cumulative h.usage cs
  rw [hcontent, hreasoning] at hgathered
  exact hgathered

end ChatRelay.Gemini
