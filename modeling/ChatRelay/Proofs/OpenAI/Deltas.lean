import ChatRelay.Proofs.Stream.Assembled

/-!
# Deltas of calls in streams of the OpenAI family

A call is streamed in deltas, and those of several calls may come in any order.  Each states the
index of its call, which the chunk that finishes the reply may leave out where a call continues
(`Tells`).  The accumulator puts such indices back (`located_of_tells`).  A call then gathers what
its own deltas carry, whatever comes between them (`pushAll_of_pieces`).

The order in which deltas come shows only where they are kept as they are: the calls of a reply are
its deltas just when each comes in a single one, in order (`map_callAt_eq_iff`).

## Main definitions

* `OpenAI.Tells` — the positions of the calls of which deltas tell
* `OpenAI.StreamsCall` — deltas that stream one call
-/

namespace ChatRelay.OpenAI

open Vendor

/-! ### Views of a body or chunk -/

/-- The first choice, if there is any. -/
def first? (v : Json) : Option Json :=
  v.at? ["choices", "0"]

/-- The `message` of a body or the `delta` of a chunk, null where there is no choice. -/
def message (field : String) (v : Json) : Json :=
  ((first? v).map (·.getD field)).getD .null

def reason (v : Json) : Option String :=
  (first? v).bind (nonEmptyAt? ["finish_reason"])

/-- The calls of a body. -/
def calls (body : Json) : List Json :=
  callsOf (message "message" body)

/-- The deltas of calls in a chunk, each with whether the chunk finishes the reply. -/
def deltas (chunk : Json) : List (Bool × Json) :=
  (callsOf (message "delta" chunk)).map ((reason chunk).isSome, ·)

/-- The index that a call or a delta states. -/
def index? (call : Json) : Option Nat :=
  (call.get? "index").bind Json.asCount?

def id (call : Json) : String :=
  textAt ["id"] call

def name (call : Json) : String :=
  textAt ["function", "name"] call

def arguments (call : Json) : String :=
  textAt ["function", "arguments"] call

/-- A call, or a delta of one, at the position of the call. -/
def callAt (position : Nat) (call : Json) : ToolCall :=
  (ToolCall.ofFunction (id call) (name call) (arguments call)).withIndex (UInt32.ofNat position)

/-- Deltas tell of the calls at some positions: each states the position of its call, or it finishes
the reply, states none, and continues the call of which was told last. -/
def Tells : (last : Option Nat) → List (Bool × Json) → (positions : List Nat) → Prop
  | _, [], [] => True
  | last, (finishing, delta) :: deltas, k :: positions =>
    (index? delta = some k ∨ index? delta = none ∧ finishing = true ∧ last = some k) ∧
      Tells (some k) deltas positions
  | _, _, _ => False

/-- The deltas of a stream with the positions of their calls. -/
def pieces (positions : List Nat) (deltas : List (Bool × Json)) : List (Nat × Json) :=
  positions.zip (deltas.map Prod.snd)

theorem pieces_append {before after : List Nat} {ds es : List (Bool × Json)}
    (h : before.length = ds.length) :
    pieces (before ++ after) (ds ++ es) = pieces before ds ++ pieces after es := by
  rw [pieces, List.map_append, List.zip_append (by simpa using h)]
  rfl

/-- The deltas of the call at one position. -/
def about (position : Nat) (pieces : List (Nat × Json)) : List Json :=
  (pieces.filter fun p => p.1 = position).map Prod.snd

/-- Deltas stream a call: the first has its id and its name, and the arguments are in pieces. -/
def StreamsCall (call : Json) : List Json → Prop
  | [] => False
  | first :: rest =>
    id first = id call ∧ name first = name call ∧
      (∀ delta ∈ rest, id delta = "" ∧ name delta = "") ∧
      String.join ((first :: rest).map arguments) = arguments call

instance decidableTells : ∀ (last : Option Nat) (deltas : List (Bool × Json))
    (positions : List Nat), Decidable (Tells last deltas positions)
  | _, [], [] => inferInstanceAs (Decidable True)
  | last, (finishing, delta) :: deltas, k :: positions =>
    have := decidableTells (some k) deltas positions
    inferInstanceAs (Decidable
      ((index? delta = some k ∨ index? delta = none ∧ finishing = true ∧ last = some k) ∧
        Tells (some k) deltas positions))
  | _, [], _ :: _ => inferInstanceAs (Decidable False)
  | _, _ :: _, [] => inferInstanceAs (Decidable False)

instance (call : Json) : ∀ deltas, Decidable (StreamsCall call deltas)
  | [] => inferInstanceAs (Decidable False)
  | _ :: _ => inferInstanceAs (Decidable (_ ∧ _ ∧ _ ∧ _))

/-! ### Indices -/

@[simp] theorem callAt_index (k : Nat) (call : Json) :
    (callAt k call).index = some (UInt32.ofNat k) := rfl

theorem callOf_of_index {position : Option UInt32} {k : Nat} {call : Json}
    (h : index? call = some k) : callOf position call = callAt k call := by
  have hindex : (call.get? "index").bind Json.asCount? = some k := h
  simp [callOf, hindex, callAt, ToolCall.withIndex, id, name, arguments]

theorem callOf_of_index_none {position : Option UInt32} {call : Json} (h : index? call = none) :
    callOf position call =
      { ToolCall.ofFunction (id call) (name call) (arguments call) with index := position } := by
  have hindex : (call.get? "index").bind Json.asCount? = none := h
  simp [callOf, hindex, id, name, arguments]

/-- Within a chunk, the index that was left out is the one seen last. -/
theorem repairIndices_of_tells {finishing : Bool} {ds : List Json} {rest : List (Bool × Json)}
    {last : Option Nat} {positions : List Nat}
    (h : Tells last (ds.map (finishing, ·) ++ rest) positions) :
    ∃ now before after, positions = before ++ after ∧ before.length = ds.length ∧
      Tells now rest after ∧
      Accumulator.repairIndices finishing (last.map UInt32.ofNat) (ds.map (callOf none)) =
        (now.map UInt32.ofNat, List.zipWith callAt before ds) := by
  induction ds generalizing last positions with
  | nil => exact ⟨last, [], positions, rfl, rfl, h, rfl⟩
  | cons d ds ih =>
      match positions with
      | [] => exact h.elim
      | k :: positions =>
          obtain ⟨hd, hrest⟩ := h
          obtain ⟨now, before, after, rfl, hlength, hafter, hrepair⟩ := ih hrest
          refine ⟨now, k :: before, after, rfl, by simp [hlength], hafter, ?_⟩
          -- Stated or left out, the position becomes the one seen last.
          rw [Option.map_some] at hrepair
          rcases hd with hindex | ⟨hindex, rfl, rfl⟩
          · rw [List.map_cons, callOf_of_index hindex]
            simp [Accumulator.repairIndices, hrepair]
          · rw [List.map_cons, callOf_of_index_none hindex]
            simp [Accumulator.repairIndices, hrepair]
            rfl

theorem length_of_tells {last : Option Nat} {ds : List (Bool × Json)} {positions : List Nat}
    (h : Tells last ds positions) : positions.length = ds.length := by
  induction ds generalizing last positions with
  | nil =>
      match positions with
      | [] => rfl
      | _ :: _ => exact h.elim
  | cons d ds ih =>
      match positions with
      | [] => exact h.elim
      | k :: positions => rw [List.length_cons, List.length_cons, ih h.2]

/-- What a body or chunk says, the calls as given. -/
def said (field : String) (calls : List ToolCall) (v : Json) : Message :=
  { Message.assistant (textAt ["content"] (message field v)) with
    reasoning := nonEmptyAt? ["reasoning_content"] (message field v)
    toolCalls := calls
    info := reportOf (reason v) (usage? v) }

/-- What a chunk says, its deltas as they are. -/
def saidOf (chunk : Json) : Message :=
  said "delta" ((callsOf (message "delta" chunk)).map (callOf none)) chunk

theorem nonEmptyAt?_ne (path : List String) (v : Json) : nonEmptyAt? path v ≠ some "" := by
  rw [nonEmptyAt?, bind_nonEmpty?]
  exact nonEmpty?_ne _

theorem reason_ne_empty (v : Json) : reason v ≠ some "" := by
  unfold reason
  cases first? v with
  | none => simp
  | some choice => exact nonEmptyAt?_ne _ choice

theorem saidOf_finishReason? (chunk : Json) : (saidOf chunk).finishReason? = reason chunk :=
  reportOf_finishReason ..

theorem isFinishing_saidOf (chunk : Json) :
    Accumulator.isFinishing (saidOf chunk) = (reason chunk).isSome := by
  rw [Accumulator.isFinishing, saidOf_finishReason?]
  cases hreason : reason chunk with
  | none => rfl
  | some r =>
      have hne : r ≠ "" := by
        intro hempty
        exact reason_ne_empty chunk (hreason.trans (congrArg some hempty))
      simp [hne]

/-- **Every delta gets the index of its call.** -/
theorem located_of_tells {chunks : List Json} {last : Option Nat} {positions : List Nat}
    (h : Tells last (chunks.flatMap deltas) positions) :
    Accumulator.located (last.map UInt32.ofNat) (chunks.map saidOf) =
      (pieces positions (chunks.flatMap deltas)).map fun p => callAt p.1 p.2 := by
  induction chunks generalizing last positions with
  | nil =>
      match positions with
      | [] => rfl
      | _ :: _ => exact h.elim
  | cons chunk chunks ih =>
      rw [List.flatMap_cons] at h
      obtain ⟨now, before, after, rfl, hlength, hafter, hrepair⟩ := repairIndices_of_tells h
      have hcalls : (saidOf chunk).toolCalls =
          (callsOf (message "delta" chunk)).map (callOf none) := rfl
      have hpieces : pieces before (deltas chunk) =
          before.zip (callsOf (message "delta" chunk)) := by
        simp [pieces, deltas, Function.comp_def]
      have hlength' : before.length = (deltas chunk).length := by simpa [deltas] using hlength
      rw [List.map_cons, Accumulator.located, isFinishing_saidOf, hcalls, hrepair, ih hafter,
        List.flatMap_cons, pieces_append hlength', List.map_append, hpieces,
        List.map_zip_eq_zipWith]
      rfl

/-! ### Calls -/

/-- The deltas of one call have its index. -/
theorem at?_pieces {ps : List (Nat × Json)} {k : Nat} (hk : k < UInt32.size)
    (hps : ∀ p ∈ ps, p.1 < UInt32.size) :
    Assembler.at? (UInt32.ofNat k) (ps.map fun p => callAt p.1 p.2) =
      (about k ps).map (callAt k) := by
  rw [Assembler.at?, List.filter_map, about, List.map_map]
  have hfilter : ps.filter ((fun c => c.index = some (UInt32.ofNat k)) ∘ fun p => callAt p.1 p.2) =
      ps.filter fun p => p.1 = k := by
    refine List.filter_congr fun p hp => ?_
    have hinj : UInt32.ofNat p.1 = UInt32.ofNat k ↔ p.1 = k := by
      constructor
      · intro heq
        rw [← UInt32.toNat_ofNat_of_lt' (hps p hp), heq, UInt32.toNat_ofNat_of_lt' hk]
      · exact congrArg _
    simp [hinj]
  rw [hfilter]
  refine List.map_congr_left fun p hp => ?_
  have hposition : p.1 = k := by simpa using (List.mem_filter.mp hp).2
  simp [hposition]

/-- **A call gathers from its deltas.** -/
theorem gather_of_streamsCall {call : Json} {ds : List Json} (h : StreamsCall call ds) (k : Nat) :
    Assembler.gather none (ds.map (callAt k)) = some (some (callAt k call)) := by
  match ds with
  | [] => exact h.elim
  | first :: rest =>
      obtain ⟨hid, hname, hrest, harguments⟩ := h
      have hpieces : ∀ f ∈ rest.map (callAt k), f.id = "" ∧ f.function.name = "" := by
        intro f hf
        obtain ⟨delta, hdelta, rfl⟩ := List.mem_map.mp hf
        exact hrest delta hdelta
      have hkind : (callAt k first).kind ≠ "" := by
        simp [callAt, ToolCall.ofFunction, ToolCall.withIndex]
      rw [List.map_cons, Assembler.gather_none_cons, Assembler.gather_pieces hkind hpieces]
      rw [List.map_cons, String.join_cons] at harguments
      simp [callAt, ToolCall.ofFunction, ToolCall.withIndex, hid, hname, ← harguments,
        Function.comp_def]

/-- The calls of a body under their positions. -/
def entries (calls : List Json) : List (UInt32 × ToolCall) :=
  calls.zipIdx.map fun p => (UInt32.ofNat p.2, callAt p.2 p.1)

variable {calls : List Json}

theorem mem_entries {p : UInt32 × ToolCall} (h : p ∈ entries calls) :
    ∃ k call, calls[k]? = some call ∧ p = (UInt32.ofNat k, callAt k call) := by
  obtain ⟨⟨call, k⟩, hmem, rfl⟩ := List.mem_map.mp h
  exact ⟨k, call, List.mem_zipIdx_iff_getElem?.mp hmem, rfl⟩

theorem ascending_entries (h : calls.length ≤ UInt32.size) : Ascending (entries calls) := by
  refine List.pairwise_iff_getElem.mpr fun i j hi hj hlt => ?_
  have hj' : j < calls.length := by simpa [entries] using hj
  simpa [entries] using (Ascending.ofNat_lt_ofNat_iff (by omega) (by omega)).mpr hlt

theorem lookup_entries (h : calls.length ≤ UInt32.size) {k : Nat} {call : Json}
    (hcall : calls[k]? = some call) :
    (entries calls).lookup (UInt32.ofNat k) = some (callAt k call) := by
  refine Ascending.lookup_of_mem (ascending_entries h) (List.mem_map.mpr ⟨(call, k), ?_, rfl⟩)
  exact List.mem_zipIdx_iff_getElem?.mpr hcall

/-- **The calls of a reply are assembled from their deltas,** in whatever order these come. -/
theorem pushAll_of_pieces {ps : List (Nat × Json)} (hlength : calls.length ≤ UInt32.size)
    (hps : ∀ p ∈ ps, p.1 < calls.length)
    (hcalls : ∀ p ∈ calls.zipIdx, StreamsCall p.1 (about p.2 ps)) :
    ({} : Assembler).pushAll (ps.map fun p => callAt p.1 p.2) =
      .ok { indexed := entries calls } := by
  have hbound : ∀ p ∈ ps, p.1 < UInt32.size := fun p hp => Nat.lt_of_lt_of_le (hps p hp) hlength
  refine Assembler.pushAll_of_gather (ascending_entries hlength) ?_ ?_ fun i => ?_
  · intro p hp
    obtain ⟨k, call, -, rfl⟩ := mem_entries hp
    rfl
  · intro c hc
    obtain ⟨p, -, rfl⟩ := List.mem_map.mp hc
    exact Option.some_ne_none _
  · by_cases hi : ∃ k < calls.length, i = UInt32.ofNat k
    · obtain ⟨k, hk, rfl⟩ := hi
      have hcall : calls[k]? = some calls[k] := List.getElem?_eq_getElem hk
      have hstreams := hcalls (calls[k], k) (List.mem_zipIdx_iff_getElem?.mpr hcall)
      rw [at?_pieces (Nat.lt_of_lt_of_le hk hlength) hbound, gather_of_streamsCall hstreams,
        lookup_entries hlength hcall]
    · -- No call stands under such an index, and no delta is about one.
      have hnone : (entries calls).lookup i = none := by
        refine List.lookup_eq_none_iff.mpr fun p hp => ?_
        obtain ⟨k, call, hcall, rfl⟩ := mem_entries hp
        have hk : k < calls.length := (List.getElem?_eq_some_iff.mp hcall).1
        simpa using fun heq => hi ⟨k, hk, heq⟩
      have hat : Assembler.at? i (ps.map fun p => callAt p.1 p.2) = [] := by
        refine Assembler.at?_eq_nil fun c hc hindex => ?_
        obtain ⟨p, hp, rfl⟩ := List.mem_map.mp hc
        exact hi ⟨p.1, hps p hp, (Option.some.inj hindex).symm⟩
      rw [hat, hnone]
      rfl

/-- Pieces are in the order of their indices when they are in that of their positions. -/
theorem ascending_pieces_iff {ps : List (Nat × Json)} (hps : ∀ p ∈ ps, p.1 < UInt32.size) :
    Ascending (ps.map fun p => (UInt32.ofNat p.1, callAt p.1 p.2)) ↔
      (ps.map Prod.fst).Pairwise (· < ·) := by
  rw [Ascending, List.pairwise_map, List.pairwise_map]
  refine List.Pairwise.iff_of_mem fun hp hq => ?_
  exact Ascending.ofNat_lt_ofNat_iff (hps _ hp) (hps _ hq)

/-- **Deltas are the calls themselves just when they come one for each call, in order.** -/
theorem map_callAt_eq_iff {ps : List (Nat × Json)} (hlength : calls.length ≤ UInt32.size)
    (hps : ∀ p ∈ ps, p.1 < calls.length)
    (hcalls : ∀ p ∈ calls.zipIdx, StreamsCall p.1 (about p.2 ps)) :
    (ps.map fun p => callAt p.1 p.2) = (entries calls).map Prod.snd ↔
      (ps.map Prod.fst).Pairwise (· < ·) := by
  have hbound : ∀ p ∈ ps, p.1 < UInt32.size := fun p hp => Nat.lt_of_lt_of_le (hps p hp) hlength
  rw [← ascending_pieces_iff hbound]
  constructor
  · intro heq
    have hindex : (ps.map fun p => UInt32.ofNat p.1) = (entries calls).map Prod.fst := by
      refine List.map_injective_iff.mpr (Option.some_injective _) ?_
      have hindices := congrArg (List.map ToolCall.index) heq
      simpa [entries, Function.comp_def] using hindices
    have hasc := ascending_entries hlength
    rw [Ascending, ← List.pairwise_map (f := Prod.fst) (R := (· < ·)), ← hindex] at hasc
    exact List.pairwise_map.mpr (List.pairwise_map.mp hasc)
  · intro hasc
    have hwf : Assembler.WellFormed
        { indexed := ps.map fun p => (UInt32.ofNat p.1, callAt p.1 p.2) } := by
      refine ⟨hasc, fun p hp => ?_, by simp⟩
      obtain ⟨q, -, rfl⟩ := List.mem_map.mp hp
      rfl
    -- Calls in the order of their indices are already assembled, and there is one outcome.
    have hsame := Assembler.pushAll_calls hwf
    have hkept : Assembler.calls
        { indexed := ps.map fun p => (UInt32.ofNat p.1, callAt p.1 p.2) } =
          ps.map fun p => callAt p.1 p.2 := by
      simp [Assembler.calls, Function.comp_def]
    rw [hkept, pushAll_of_pieces hlength hps hcalls] at hsame
    have hentries : entries calls = ps.map fun p => (UInt32.ofNat p.1, callAt p.1 p.2) :=
      congrArg Assembler.indexed (Except.ok.inj hsame)
    rw [hentries, List.map_map]
    rfl

end ChatRelay.OpenAI
