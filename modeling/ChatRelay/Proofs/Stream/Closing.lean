import ChatRelay.Proofs.Message.Joined
import ChatRelay.Proofs.Stream.Coalescing
import ChatRelay.Proofs.Stream.Ids

/-!
# Calls without arguments are closed once

A call for which no arguments come is closed with the empty arguments of the vendor, in the fragment
that finishes the reply or at the end of the stream.  Whatever comes of a stream, the arguments under
an index are those that came for it, or the empty ones if none came, and never both or the empty ones
twice (`Accumulator.closed_once`).

They are those of one call unless a single fragment makes up all that is passed on
(`Accumulator.PassesAlone`).  That fragment is merged with no other, and so nothing joins the calls in
it, nor a call and the one that closes it (`Accumulator.exists_unmerged_closing`).

## Main definitions

* `Assembler.argumentsAt` — the arguments under an index
* `Accumulator.PassesAlone` — a single fragment makes up all that is passed on
-/

namespace ChatRelay

open Result
open Assembler (at?)

namespace Assembler

/-- The arguments under an index, joined in order. -/
def argumentsAt (i : UInt32) (cs : List ToolCall) : String :=
  String.join ((at? i cs).map fun c => c.function.arguments)

theorem at?_eq_nil_iff {i : UInt32} {cs : List ToolCall} :
    at? i cs = [] ↔ ∀ c ∈ cs, c.index ≠ some i := by
  simp [at?, List.filter_eq_nil_iff]

end Assembler

open Assembler (argumentsAt)

/-! ### The calls of a message -/

namespace Message

variable {fs : List Message} {m : Message}

/-- Calls without an index are kept as they are. -/
theorem filter_toolCalls_of_concat (h : concat fs = .ok m) :
    m.toolCalls.filter (fun c => c.index = none) =
      (fs.flatMap toolCalls).filter fun c => c.index = none := by
  rcases toolCalls_of_concat h with ⟨-, hcalls⟩ | ⟨-, b, hwf, hgathers, hcalls⟩
  · rw [hcalls]
  · rw [hcalls, Assembler.filter_calls hwf, hgathers.whole]
    rfl

/-- Several fragments leave one call under an index, and a single fragment those that it has. -/
theorem at?_toolCalls_of_concat (h : concat fs = .ok m) (i : UInt32) :
    at? i m.toolCalls =
      if fs.length = 1 ∨ at? i (fs.flatMap toolCalls) = [] then at? i (fs.flatMap toolCalls)
      else [ToolCall.joined i (at? i (fs.flatMap toolCalls))] := by
  rcases toolCalls_of_concat h with ⟨hlength, hcalls⟩ | ⟨hlength, b, hwf, hgathers, hcalls⟩
  · rw [hcalls, if_pos (Or.inl hlength)]
  · have hlookup := Assembler.lookup_of_gathers hgathers i
    rw [hcalls, Assembler.at?_calls hwf, Assembler.held, hlookup]
    by_cases hnil : at? i (fs.flatMap toolCalls) = [] <;> simp [hnil, hlength]

/-- The arguments under an index are those of the fragments. -/
theorem argumentsAt_of_concat (h : concat fs = .ok m) (i : UInt32) :
    argumentsAt i m.toolCalls = argumentsAt i (fs.flatMap toolCalls) := by
  rw [argumentsAt, at?_toolCalls_of_concat h]
  split
  · rfl
  · simp [ToolCall.joined, argumentsAt]

/-- A message has calls with just the indices that its fragments have. -/
theorem at?_toolCalls_eq_nil_iff (h : concat fs = .ok m) (i : UInt32) :
    at? i m.toolCalls = [] ↔ at? i (fs.flatMap toolCalls) = [] := by
  rw [at?_toolCalls_of_concat h]
  split
  · exact Iff.rfl
  · next hnot => exact iff_of_false (List.cons_ne_nil _ _) fun hnil => hnot (Or.inr hnil)

/-- The calls of an index are one where several fragments were merged, or there was only one. -/
theorem exists_at?_eq_singleton_iff (h : concat fs = .ok m) {i : UInt32}
    (hi : at? i (fs.flatMap toolCalls) ≠ []) : (∃ call, at? i m.toolCalls = [call]) ↔
      fs.length ≠ 1 ∨ (at? i (fs.flatMap toolCalls)).length = 1 := by
  rw [at?_toolCalls_of_concat h]
  by_cases hlength : fs.length = 1
  · simp [hlength, List.length_eq_one_iff]
  · simp [hlength, hi]

end Message

namespace Accumulator

variable {emptyArguments : Option String} {fs : List Message}

/-! ### What closes an index -/

/-- The call that closes an index: one if calls came for the index and no arguments did. -/
def closer (emptyArguments : Option String) (i : UInt32) (cs : List ToolCall) : List ToolCall :=
  if at? i cs ≠ [] ∧ argumentsAt i cs = "" then
    emptyArguments.toList.map fun text => (ToolCall.ofFunction "" "" text).withIndex i
  else []

theorem closer_eq_nil_iff {i : UInt32} {cs : List ToolCall} : closer emptyArguments i cs = [] ↔
    emptyArguments = none ∨ (at? i cs ≠ [] → argumentsAt i cs ≠ "") := by
  unfold closer
  split
  · next h => simp [h]
  · next h => exact iff_of_true rfl (Or.inr fun hcs hnone => h ⟨hcs, hnone⟩)

theorem noted_eq_some_false_iff {cs : List ToolCall} : noted none cs = some false ↔
    cs ≠ [] ∧ String.join (cs.map fun c => c.function.arguments) = "" := by
  cases cs with
  | nil => simp [noted]
  | cons c cs =>
      have hstep : noted none (c :: cs) = noted (some (!c.function.arguments.isEmpty)) cs := by
        simp [noted]
      rw [hstep, noted_some]
      by_cases hc : c.function.arguments = "" <;> simp [hc]

theorem closingAt_noted (text : String) (i : UInt32) (cs : List ToolCall) :
    closingAt text i (noted none (at? i cs)) = closer (some text) i cs := by
  simp only [closingAt, noted_eq_some_false_iff, closer, argumentsAt]
  rfl

/-- What closes an index brings the arguments that are missing. -/
theorem argumentsAt_append_closer (emptyArguments : Option String) {i : UInt32} {cs : List ToolCall}
    (hcs : at? i cs ≠ []) :
    argumentsAt i cs ++
        String.join ((closer emptyArguments i cs).map fun c => c.function.arguments) =
      if argumentsAt i cs = "" then emptyArguments.getD "" else argumentsAt i cs := by
  by_cases h : argumentsAt i cs = ""
  · rw [closer, if_pos ⟨hcs, h⟩, if_pos h, h, String.empty_append]
    cases emptyArguments with
    | none => rfl
    | some text => simp [ToolCall.withIndex, ToolCall.ofFunction]
  · rw [closer, if_neg fun hclosed => h hclosed.2, if_neg h, List.map_nil, String.join_nil,
      String.append_empty]

/-! ### The calls that are passed on -/

/-- Under an index are the calls that came for it, with the ids that they lack, and the one that
closes it. -/
theorem at?_repaired_start (hfs : emptyArguments ≠ none →
      fs.Pairwise fun f g => isFinishing f → g.toolCalls = []) (i : UInt32) :
    at? i ((({ emptyArguments } : Accumulator).repaired fs).flatMap Message.toolCalls) =
      at? i (named 0 (located none fs)) ++ closer emptyArguments i (located none fs) := by
  cases emptyArguments with
  | none =>
      rw [calls_repaired rfl]
      simp [closer]
  | some text =>
      rw [at?_repaired Ascending.nil rfl (hfs (Option.some_ne_none text)), ← closingAt_noted]
      rfl

/-- What closes calls has an index, so the calls without one are those that came. -/
theorem filter_repaired (a : Accumulator) (fs : List Message) :
    ((a.repaired fs).flatMap Message.toolCalls).filter (fun c => c.index = none) =
      (named a.started (located a.lastIndex fs)).filter fun c => c.index = none := by
  have hclosing (a : Accumulator) : a.closeCalls.2.filter (fun c => c.index = none) = [] :=
    List.filter_eq_nil_iff.mpr fun c hc => by simpa using index_closeCalls a c hc
  induction fs generalizing a with
  | nil =>
      rw [calls_repaired_nil, hclosing]
      rfl
  | cons f fs ih =>
      have hstarted (a : Accumulator) : a.closeCalls.1.started = a.started := by
        cases h : a.emptyArguments <;> simp [closeCalls, h]
      have hlast (a : Accumulator) : a.closeCalls.1.lastIndex = a.lastIndex := by
        cases h : a.emptyArguments <;> simp [closeCalls, h]
      rw [repaired, List.flatMap_cons, List.filter_append, ih, located, named_append,
        List.filter_append, repair_eq]
      cases hfinishing : isFinishing f with
      | false => simp [seen, hfinishing]
      | true => simp [seen, hfinishing, hclosing, hstarted, hlast]

/-- A single fragment makes up all that is passed on: no other came, and no call is left to close at
the end of the stream. -/
def PassesAlone (emptyArguments : Option String) (fs : List Message) : Prop :=
  ∃ f, fs = [f] ∧ (isFinishing f = true ∨ emptyArguments = none ∨
    ∀ c ∈ located none fs, ∀ i, c.index = some i → argumentsAt i (located none fs) ≠ "")

/-- A fragment that does not finish the reply leaves what closes its calls to the end. -/
theorem at?_closeCalls_repair {f : Message} (hf : isFinishing f = false) (i : UInt32) :
    at? i (({ emptyArguments } : Accumulator).repair f).1.closeCalls.2 =
      closer emptyArguments i (located none [f]) := by
  have h : at? i ((({ emptyArguments } : Accumulator).repaired [f]).flatMap Message.toolCalls) =
      at? i (named 0 (located none [f])) ++ closer emptyArguments i (located none [f]) :=
    at?_repaired_start (fun _ => List.pairwise_singleton _ f) i
  have hcalls : (({ emptyArguments } : Accumulator).repair f).2.toolCalls =
      named 0 (located none [f]) := by simp [repair_eq, hf, located]
  rw [repaired, List.flatMap_cons, calls_repaired_nil, Assembler.at?_append, hcalls] at h
  exact List.append_cancel_left h

theorem closeCalls_repair_eq_nil_iff {f : Message} :
    (({ emptyArguments } : Accumulator).repair f).1.closeCalls.2 = [] ↔
      isFinishing f = true ∨ emptyArguments = none ∨
        ∀ c ∈ located none [f], ∀ i, c.index = some i → argumentsAt i (located none [f]) ≠ "" := by
  cases hf : isFinishing f with
  | true => simp [repair_eq, hf, closeCalls_closeCalls]
  | false =>
      -- What closes calls is there just when it is under some index.
      have hnil (a : Accumulator) : a.closeCalls.2 = [] ↔ ∀ i, at? i a.closeCalls.2 = [] := by
        constructor
        · intro h i
          rw [h, Assembler.at?_nil]
        · intro h
          refine List.eq_nil_iff_forall_not_mem.mpr fun c hc => ?_
          obtain ⟨i, hi⟩ := Option.ne_none_iff_exists'.mp (index_closeCalls a c hc)
          exact Assembler.at?_eq_nil_iff.mp (h i) c hc hi
      simp only [hnil, at?_closeCalls_repair hf, closer_eq_nil_iff, forall_or_left, ne_eq,
        Assembler.at?_eq_nil_iff]
      grind

theorem length_repaired_eq_one_iff :
    (({ emptyArguments } : Accumulator).repaired fs).length = 1 ↔ PassesAlone emptyArguments fs := by
  rcases fs with _ | ⟨f, _ | ⟨g, fs⟩⟩
  · simp [PassesAlone, repaired, closing, closeCalls_of_arguments_nil]
  · have hlength (a : Accumulator) : a.closing.length = 0 ↔ a.closeCalls.2 = [] := by
      by_cases h : a.closeCalls.2 = [] <;> simp [closing, h]
    simp only [repaired, List.length_cons, Nat.add_eq_right, hlength, PassesAlone,
      List.cons.injEq, and_true, exists_eq_left', closeCalls_repair_eq_nil_iff]
  · simp [PassesAlone, repaired]

/-- Nothing is passed on under an index for which nothing came. -/
theorem at?_named_append_closer_eq_nil_iff {i : UInt32} {cs : List ToolCall} :
    at? i (named 0 cs) ++ closer emptyArguments i cs = [] ↔ at? i cs = [] := by
  have hnamed : at? i (named 0 cs) = [] ↔ at? i cs = [] := by
    rw [← List.length_eq_zero_iff, length_at?_named, List.length_eq_zero_iff]
  rw [List.append_eq_nil_iff, hnamed]
  exact and_iff_left_of_imp fun hnil => closer_eq_nil_iff.mpr (Or.inr fun hne => absurd hnil hne)

/-- One call is passed on under an index where one came and is not closed. -/
theorem length_at?_eq_one_iff (emptyArguments : Option String) {i : UInt32} {cs : List ToolCall}
    (hcs : at? i cs ≠ []) :
    (at? i (named 0 cs) ++ closer emptyArguments i cs).length = 1 ↔
      ∃ c, at? i cs = [c] ∧ (emptyArguments = none ∨ c.function.arguments ≠ "") := by
  have hpos : 0 < (at? i cs).length := List.length_pos_of_ne_nil hcs
  have hone : (at? i (named 0 cs) ++ closer emptyArguments i cs).length = 1 ↔
      (at? i cs).length = 1 ∧ closer emptyArguments i cs = [] := by
    rw [List.length_append, length_at?_named, ← List.length_eq_zero_iff]
    omega
  rw [hone, closer_eq_nil_iff, List.length_eq_one_iff]
  constructor
  · rintro ⟨⟨c, hc⟩, hopen⟩
    exact ⟨c, hc, by simpa [argumentsAt, hc] using hopen⟩
  · rintro ⟨c, hc, hopen⟩
    exact ⟨⟨c, hc⟩, by simpa [argumentsAt, hc] using hopen⟩

/-- **Calls without arguments are closed once.**  Whatever comes of a stream in which no calls follow
the fragment that finishes the reply, the arguments under an index are those that came for it, or the
empty ones if none came.  They are those of one call, unless a single fragment makes up all that is
passed on: then the calls of an index are one only where one came and is not closed.  Calls without
an index are those that came, with the ids that they lack. -/
theorem closed_once {emptyArguments : Option String} {fs out : List Message} {m : Message}
    (hfs : emptyArguments ≠ none → fs.Pairwise fun f g => isFinishing f → g.toolCalls = [])
    (hout : ({ emptyArguments } : Accumulator).passOn fs = .ok out)
    (hm : Message.concat out = .ok m) :
    let calls := located none fs
    (∀ i, (∃ c ∈ calls, c.index = some i) →
      argumentsAt i m.toolCalls =
        (if argumentsAt i calls = "" then emptyArguments.getD "" else argumentsAt i calls) ∧
      ((∃ call, at? i m.toolCalls = [call]) ↔ ¬ PassesAlone emptyArguments fs ∨
        ∃ c, at? i calls = [c] ∧ (emptyArguments = none ∨ c.function.arguments ≠ ""))) ∧
    (∀ c ∈ m.toolCalls, ∀ i, c.index = some i → ∃ d ∈ calls, d.index = some i) ∧
    m.toolCalls.filter (fun c => c.index = none) =
      (named 0 calls).filter fun c => c.index = none := by
  intro calls
  obtain ⟨hsucceeds, hagrees⟩ := concat_passOn (a := { emptyArguments }) rfl fs
  obtain ⟨m', hconcat⟩ := hsucceeds.mp ⟨out, m, hout, hm⟩
  rw [(hagrees out m m' hout hm hconcat).toolCalls]
  have hat := at?_repaired_start hfs
  have hnil (i : UInt32) : at? i ((({ emptyArguments } : Accumulator).repaired fs).flatMap
      Message.toolCalls) = [] ↔ at? i calls = [] := by
    rw [hat, at?_named_append_closer_eq_nil_iff]
  refine ⟨fun i hi => ?_, fun c hc i hi => ?_, ?_⟩
  · have hcalls : at? i calls ≠ [] := fun hnone => by
      obtain ⟨c, hc, hindex⟩ := hi
      exact Assembler.at?_eq_nil_iff.mp hnone c hc hindex
    constructor
    · rw [Message.argumentsAt_of_concat hconcat, argumentsAt, hat, List.map_append,
        String.join_append, arguments_at?_named]
      exact argumentsAt_append_closer emptyArguments hcalls
    · rw [Message.exists_at?_eq_singleton_iff hconcat (mt (hnil i).mp hcalls), hat,
        length_at?_eq_one_iff emptyArguments hcalls, ← length_repaired_eq_one_iff]
  · by_contra hnone
    have hcalls : at? i calls = [] := Assembler.at?_eq_nil_iff.mpr fun d hd hindex =>
      hnone ⟨d, hd, hindex⟩
    have hmessage := (Message.at?_toolCalls_eq_nil_iff hconcat i).mpr ((hnil i).mpr hcalls)
    exact Assembler.at?_eq_nil_iff.mp hmessage c hc hi
  · rw [Message.filter_toolCalls_of_concat hconcat, filter_repaired]

/-- One call gets no arguments, and of another the last piece has lost its index.  The call without
an index is kept. -/
theorem closed_once_three_calls :
    let whole : ToolCall := { id := "x", function := { name := "add", arguments := "1" } }
    let fragments := [
      { Message.assistant "" with
        toolCalls := [{ index := some 0, id := "a", function := { name := "now" } }, whole] },
      { Message.assistant "" with
        toolCalls := [{ index := some 1, function := { name := "find", arguments := "[" } }] },
      { Message.assistant "" with
        toolCalls := [{ function := { arguments := "]" } }]
        info := some { finishReason := some "stop" } }]
    ∃ out m, ({ emptyArguments := some "\x7b\x7d" } : Accumulator).passOn fragments = .ok out ∧
      Message.concat out = .ok m ∧
      argumentsAt 0 m.toolCalls = "\x7b\x7d" ∧ (∃ call, at? 0 m.toolCalls = [call]) ∧
      argumentsAt 1 m.toolCalls = "[]" ∧ (∃ call, at? 1 m.toolCalls = [call]) ∧
      m.toolCalls.filter (fun c => c.index = none) = [whole] := by
  intro whole fragments
  obtain ⟨out, m, hout, hm⟩ : ∃ out m,
      ({ emptyArguments := some "\x7b\x7d" } : Accumulator).passOn fragments = .ok out ∧
        Message.concat out = .ok m := ⟨_, _, rfl, rfl⟩
  have hseveral : ¬ PassesAlone (some "\x7b\x7d") fragments := by
    rintro ⟨f, hf, -⟩
    simp [fragments] at hf
  obtain ⟨hindices, -, hwhole⟩ := closed_once (fun _ => by decide) hout hm
  obtain ⟨hzero, hzero'⟩ := hindices 0 (by decide)
  obtain ⟨hone, hone'⟩ := hindices 1 (by decide)
  exact ⟨out, m, hout, hm, hzero, hzero'.mpr (Or.inl hseveral), hone, hone'.mpr (Or.inl hseveral),
    hwhole⟩

/-- A single fragment that finishes the reply is passed on with a call and the one that closes it,
and nothing merges the two. -/
theorem exists_unmerged_closing :
    let call : ToolCall := { index := some 0, id := "a", function := { name := "now" } }
    let f : Message := { Message.assistant "" with
      toolCalls := [call], info := some { finishReason := some "tool_calls" } }
    ∃ out m, ({ emptyArguments := some "\x7b\x7d" } : Accumulator).passOn [f] = .ok out ∧
      Message.concat out = .ok m ∧ at? 0 (located none [f]) = [call] ∧
      at? 0 m.toolCalls = [call, (ToolCall.ofFunction "" "" "\x7b\x7d").withIndex 0] :=
  ⟨_, _, rfl, rfl, rfl, rfl⟩

end Accumulator

end ChatRelay
