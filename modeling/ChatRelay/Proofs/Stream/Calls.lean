import ChatRelay.Proofs.Stream.Accumulator

/-!
# The calls of a repaired stream

What an accumulator does to the calls of a stream does not depend on how they are spread over
fragments.  Indices are repaired first (`located`), then ids are given (`named`), and both are
operations on the whole list of calls.  Without calls to close, nothing else happens to them
(`calls_repaired`).

Closing is told index by index.  Once a fragment has finished the reply and no calls follow it, a
call is closed just when no arguments came for it, and it is closed once (`at?_repaired`).

## Main definitions

* `Accumulator.located` — the calls of a stream with their indices repaired
* `ToolCall.StartsWithoutId` — a fragment is given an id
* `Accumulator.named` — calls with the ids given that they lack
* `Accumulator.noted` — whether arguments came for an index
-/

namespace ChatRelay

/-- A call that lacks an id is written with that of its position, where that is known. -/
theorem ToolCall.ofFunction_getD {id : Option String} (hid : id ≠ some "") (n : Nat)
    (name arguments : String) :
    ofFunction (id.getD (positionalId n)) name arguments =
      if (ofFunction (id.getD "") name arguments).id = "" then
        { ofFunction (id.getD "") name arguments with id := positionalId n }
      else ofFunction (id.getD "") name arguments := by
  cases id with
  | none => simp [ofFunction]
  | some text =>
      have hne : text ≠ "" := fun hempty => hid (congrArg some hempty)
      simp [ofFunction, hne]

/-- A fragment starts a call and states no id for it. -/
def ToolCall.StartsWithoutId (c : ToolCall) : Prop :=
  c.function.name ≠ "" ∧ c.id = ""

instance (c : ToolCall) : Decidable c.StartsWithoutId :=
  inferInstanceAs (Decidable (_ ∧ _))

namespace Accumulator

open Assembler (at?)

/-! ### Indices -/

/-- The calls of a stream with their indices repaired, given the index seen last. -/
def located (last : Option UInt32) : List Message → List ToolCall
  | [] => []
  | f :: fs =>
    let repaired := repairIndices (isFinishing f) last f.toolCalls
    repaired.2 ++ located repaired.1 fs

@[simp] theorem length_repairIndices (finishing : Bool) (last : Option UInt32)
    (cs : List ToolCall) : (repairIndices finishing last cs).2.length = cs.length := by
  induction cs generalizing last with
  | nil => rfl
  | cons c cs ih =>
      unfold repairIndices
      split <;> simp [ih]

/-- Calls that state an index keep it. -/
theorem repairIndices_of_index {finishing : Bool} {last : Option UInt32} {cs : List ToolCall}
    (hcs : ∀ c ∈ cs, c.index ≠ none) : (repairIndices finishing last cs).2 = cs := by
  induction cs generalizing last with
  | nil => rfl
  | cons c cs ih =>
      obtain ⟨i, hi⟩ := Option.ne_none_iff_exists'.mp (hcs c List.mem_cons_self)
      have hrest := @ih (some i) fun d hd => hcs d (List.mem_cons_of_mem _ hd)
      simp [repairIndices, hi, hrest]

/-- Where no index was seen and none is stated, there is none to give. -/
theorem repairIndices_of_index_none {finishing : Bool} {cs : List ToolCall}
    (hcs : ∀ c ∈ cs, c.index = none) : repairIndices finishing none cs = (none, cs) := by
  induction cs with
  | nil => rfl
  | cons c cs ih =>
      have hc : c.index = none := hcs c List.mem_cons_self
      have hsame : ({ c with index := none } : ToolCall) = c := by rw [← hc]
      have hrest := ih fun d hd => hcs d (List.mem_cons_of_mem _ hd)
      simp [repairIndices, hc, hrest, hsame]

theorem located_of_index {last : Option UInt32} {fs : List Message}
    (hfs : ∀ f ∈ fs, ∀ c ∈ f.toolCalls, c.index ≠ none) :
    located last fs = fs.flatMap Message.toolCalls := by
  induction fs generalizing last with
  | nil => rfl
  | cons f fs ih =>
      rw [located, repairIndices_of_index (hfs f List.mem_cons_self),
        ih fun g hg => hfs g (List.mem_cons_of_mem _ hg), List.flatMap_cons]

theorem located_of_index_none {fs : List Message}
    (hfs : ∀ f ∈ fs, ∀ c ∈ f.toolCalls, c.index = none) :
    located none fs = fs.flatMap Message.toolCalls := by
  induction fs with
  | nil => rfl
  | cons f fs ih =>
      rw [located, repairIndices_of_index_none (hfs f List.mem_cons_self),
        ih fun g hg => hfs g (List.mem_cons_of_mem _ hg), List.flatMap_cons]

theorem located_of_no_calls {last : Option UInt32} {fs : List Message}
    (hfs : ∀ f ∈ fs, f.toolCalls = []) : located last fs = [] := by
  induction fs generalizing last with
  | nil => rfl
  | cons f fs ih =>
      have hf : f.toolCalls = [] := hfs f List.mem_cons_self
      simp [located, hf, repairIndices, ih fun g hg => hfs g (List.mem_cons_of_mem _ hg)]

/-! ### Ids -/

/-- Calls with the ids given that they lack, where some number of calls has started before. -/
def named (started : Nat) : List ToolCall → List ToolCall
  | [] => []
  | c :: cs =>
    if c.function.name.isEmpty then c :: named started cs
    else (if c.id.isEmpty then { c with id := ToolCall.positionalId started } else c) ::
      named (started + 1) cs

/-- The number of calls that start in a list. -/
def starts (cs : List ToolCall) : Nat :=
  cs.countP fun c => !c.function.name.isEmpty

theorem starts_append (cs ds : List ToolCall) : starts (cs ++ ds) = starts cs + starts ds :=
  List.countP_append

theorem starts_cons (c : ToolCall) (cs : List ToolCall) :
    starts (c :: cs) = starts [c] + starts cs :=
  starts_append [c] cs

/-- A call as it is passed on where some number of calls has started before. -/
def identified (started : Nat) (c : ToolCall) : ToolCall :=
  if c.StartsWithoutId then { c with id := ToolCall.positionalId started } else c

@[simp] theorem identified_index (started : Nat) (c : ToolCall) :
    (identified started c).index = c.index := by
  unfold identified
  split <;> rfl

@[simp] theorem identified_name (started : Nat) (c : ToolCall) :
    (identified started c).function.name = c.function.name := by
  unfold identified
  split <;> rfl

/-- Ids are given call by call, and only the calls that have started before matter. -/
theorem named_cons (started : Nat) (c : ToolCall) (cs : List ToolCall) :
    named started (c :: cs) = identified started c :: named (started + starts [c]) cs := by
  by_cases hname : c.function.name = "" <;> by_cases hid : c.id = "" <;>
    simp [named, identified, ToolCall.StartsWithoutId, starts, hname, hid]

theorem named_append (started : Nat) (cs ds : List ToolCall) :
    named started (cs ++ ds) = named started cs ++ named (started + starts cs) ds := by
  induction cs generalizing started with
  | nil => rfl
  | cons c cs ih =>
      rw [List.cons_append, named_cons, ih, named_cons, starts_cons c cs, Nat.add_assoc,
        List.cons_append]

@[simp] theorem length_named (started : Nat) (cs : List ToolCall) :
    (named started cs).length = cs.length := by
  induction cs generalizing started with
  | nil => rfl
  | cons c cs ih => simp [named_cons, ih]

/-- Giving ids leaves indices alone. -/
theorem index_named {started : Nat} {cs : List ToolCall} {p : Option UInt32 → Prop}
    (hcs : ∀ c ∈ cs, p c.index) : ∀ c ∈ named started cs, p c.index := by
  induction cs generalizing started with
  | nil => exact hcs
  | cons c cs ih =>
      rw [named_cons]
      intro d hd
      rcases List.mem_cons.mp hd with rfl | hd
      · rw [identified_index]
        exact hcs c List.mem_cons_self
      · exact ih (fun d hd => hcs d (List.mem_cons_of_mem _ hd)) d hd

/-- Calls that start with an id keep it. -/
theorem named_of_id {started : Nat} {cs : List ToolCall}
    (hcs : ∀ c ∈ cs, c.function.name = "" ∨ c.id ≠ "") : named started cs = cs := by
  induction cs generalizing started with
  | nil => rfl
  | cons c cs ih =>
      have hc : ¬ c.StartsWithoutId := fun h => (hcs c List.mem_cons_self).elim h.1 (· h.2)
      rw [named_cons, identified, if_neg hc, ih fun d hd => hcs d (List.mem_cons_of_mem _ hd)]

/-- Where every fragment is a call of its own, each lacking id is that of the call's position. -/
theorem named_eq_mapIdx {started : Nat} {cs : List ToolCall}
    (hcs : ∀ c ∈ cs, c.function.name ≠ "") :
    named started cs = cs.mapIdx fun i c =>
      if c.id = "" then { c with id := ToolCall.positionalId (started + i) } else c := by
  induction cs generalizing started with
  | nil => rfl
  | cons c cs ih =>
      have hc : c.function.name ≠ "" := hcs c List.mem_cons_self
      have hcount : starts [c] = 1 := by simp [starts, hc]
      have hrest := @ih (started + 1) fun d hd => hcs d (List.mem_cons_of_mem _ hd)
      have hshift (i : Nat) : started + 1 + i = started + (i + 1) := by omega
      rw [named_cons, hcount, hrest]
      simp [identified, ToolCall.StartsWithoutId, hc, List.mapIdx_cons, hshift]

/-- A vendor that states ids or leaves them out may write a call with its position or without. -/
theorem named_map {α : Type} {started : Nat} {vs : List α} {callOf : Option Nat → α → ToolCall}
    (hname : ∀ v ∈ vs, (callOf none v).function.name ≠ "")
    (hposition : ∀ v ∈ vs, ∀ n, callOf (some n) v =
      if (callOf none v).id = "" then { callOf none v with id := ToolCall.positionalId n }
      else callOf none v) :
    named started (vs.map (callOf none)) = vs.mapIdx fun i v => callOf (some (started + i)) v := by
  have hnames : ∀ c ∈ vs.map (callOf none), c.function.name ≠ "" := by
    intro c hc
    obtain ⟨v, hv, rfl⟩ := List.mem_map.mp hc
    exact hname v hv
  rw [named_eq_mapIdx hnames]
  refine List.ext_getElem (by simp) fun i _ hi => ?_
  rw [List.length_mapIdx] at hi
  have hcall := hposition _ (List.getElem_mem hi) (started + i)
  simp [hcall]

/-! ### Arguments -/

/-- What is remembered of arguments after one more call. -/
def note (arguments : List (UInt32 × Bool)) (c : ToolCall) : List (UInt32 × Bool) :=
  match c.index with
  | some i => noteArguments i (!c.function.arguments.isEmpty) arguments
  | none => arguments

/-- What is remembered of arguments after some calls. -/
def noteAll (arguments : List (UInt32 × Bool)) (cs : List ToolCall) : List (UInt32 × Bool) :=
  cs.foldl note arguments

/-- Whether arguments came for an index, after some calls of it; `none` if it was not seen. -/
def noted (before : Option Bool) (cs : List ToolCall) : Option Bool :=
  cs.foldl (fun before c => some (before.getD false || !c.function.arguments.isEmpty)) before

theorem noteArguments_eq_update (i : UInt32) (given : Bool) (l : List (UInt32 × Bool)) :
    noteArguments i given l = Ascending.update i (fun old => old.getD false || given) l := by
  induction l with
  | nil => simp [noteArguments, Ascending.update]
  | cons p rest ih =>
      obtain ⟨k, g⟩ := p
      simp [noteArguments, Ascending.update, ih]

theorem ascending_noteAll {arguments : List (UInt32 × Bool)} (h : Ascending arguments)
    (cs : List ToolCall) : Ascending (noteAll arguments cs) := by
  induction cs generalizing arguments with
  | nil => exact h
  | cons c cs ih =>
      rw [noteAll, List.foldl_cons]
      refine ih ?_
      unfold note
      split
      · rw [noteArguments_eq_update]
        exact Ascending.update_ascending h _ _
      · exact h

/-- What is remembered under an index depends on the calls of that index only. -/
theorem lookup_noteAll {arguments : List (UInt32 × Bool)} (h : Ascending arguments)
    (cs : List ToolCall) (i : UInt32) :
    (noteAll arguments cs).lookup i = noted (arguments.lookup i) (at? i cs) := by
  induction cs generalizing arguments with
  | nil => rfl
  | cons c cs ih =>
      rw [noteAll, List.foldl_cons, ← noteAll, ← List.singleton_append, Assembler.at?_append,
        Assembler.at?_singleton]
      cases hc : c.index with
      | none =>
          have hsame : note arguments c = arguments := by simp [note, hc]
          rw [hsame, ih h]
          simp
      | some k =>
          have hupdate : note arguments c = Ascending.update k
              (fun old => old.getD false || !c.function.arguments.isEmpty) arguments := by
            simp [note, hc, noteArguments_eq_update]
          -- A call changes what is remembered of its own index, and the rest goes on from there.
          rw [hupdate, ih (Ascending.update_ascending h k _), Ascending.lookup_update h]
          by_cases hk : i = k
          · subst hk
            simp [noted]
          · simp [hk, Ne.symm hk]

/-! ### One fragment -/

theorem trackCall_eq (a : Accumulator) (c : ToolCall) :
    a.trackCall c =
      ({ a with started := a.started + starts [c], arguments := note a.arguments c },
        identified a.started c) := by
  by_cases h : c.function.name = "" <;> by_cases hid : c.id = "" <;>
    simp [trackCall, identified, ToolCall.StartsWithoutId, starts, h, hid] <;> rfl

/-- **Calls are tracked as a whole.**  What is remembered and which ids are given depends on the
list of calls only. -/
theorem trackCalls_eq (a : Accumulator) (cs : List ToolCall) :
    a.trackCalls cs =
      ({ a with started := a.started + starts cs, arguments := noteAll a.arguments cs },
        named a.started cs) := by
  induction cs generalizing a with
  | nil => rfl
  | cons c cs ih =>
      simp only [trackCalls, trackCall_eq, ih]
      rw [starts_cons c cs, named_cons, ← Nat.add_assoc]
      rfl

/-- The accumulator when the calls of a fragment were tracked. -/
def seen (a : Accumulator) (f : Message) : Accumulator :=
  let repaired := repairIndices (isFinishing f) a.lastIndex f.toolCalls
  { a with
    lastIndex := repaired.1
    started := a.started + starts repaired.2
    arguments := noteAll a.arguments repaired.2 }

theorem repair_eq (a : Accumulator) (f : Message) :
    a.repair f =
      let calls := named a.started (repairIndices (isFinishing f) a.lastIndex f.toolCalls).2
      if isFinishing f then
        ((a.seen f).closeCalls.1, { f with toolCalls := calls ++ (a.seen f).closeCalls.2 })
      else (a.seen f, { f with toolCalls := calls }) := by
  simp only [repair, trackCalls_eq]
  split <;> simp_all [seen]

/-- A repair takes no call away. -/
theorem length_le_repair (a : Accumulator) (f : Message) :
    f.toolCalls.length ≤ (a.repair f).2.toolCalls.length := by
  rw [repair_eq]
  simp only
  split <;> simp

/-- A repair changes nothing of a fragment but its calls. -/
theorem repair_message (a : Accumulator) (f : Message) :
    (a.repair f).2 = { f with toolCalls := (a.repair f).2.toolCalls } := by
  rw [repair_eq]
  simp only
  split <;> rfl

/-! ### The calls of a stream -/

theorem closeCalls_of_none {a : Accumulator} (h : a.emptyArguments = none) :
    a.closeCalls = (a, []) := by
  simp [closeCalls, h]

/-- A stream ends with the calls that close others. -/
theorem calls_repaired_nil (a : Accumulator) :
    (a.repaired []).flatMap Message.toolCalls = a.closeCalls.2 := by
  by_cases hnil : a.closeCalls.2 = [] <;> simp [repaired, closing, hnil]

/-- Where no index was seen, there is nothing to close. -/
theorem closeCalls_of_arguments_nil {a : Accumulator} (h : a.arguments = []) :
    a.closeCalls.2 = [] := by
  unfold closeCalls
  split
  · rfl
  · simp [h]

/-- **Without calls to close, indices are repaired and ids are given,** and that is all. -/
theorem calls_repaired {a : Accumulator} (h : a.emptyArguments = none) (fs : List Message) :
    (a.repaired fs).flatMap Message.toolCalls = named a.started (located a.lastIndex fs) := by
  induction fs generalizing a with
  | nil => simp [repaired, closing, closeCalls_of_none h, located, named]
  | cons f fs ih =>
      have hseen : (a.seen f).emptyArguments = none := h
      have hrepair : a.repair f = (a.seen f, { f with
          toolCalls :=
            named a.started (repairIndices (isFinishing f) a.lastIndex f.toolCalls).2 }) := by
        simp [repair_eq, closeCalls_of_none hseen]
      rw [repaired, List.flatMap_cons, hrepair, ih hseen, located, named_append]
      rfl

theorem length_repaired {a : Accumulator} (h : a.emptyArguments = none) (fs : List Message) :
    (a.repaired fs).length = fs.length := by
  induction fs generalizing a with
  | nil => simp [repaired, closing, closeCalls_of_none h]
  | cons f fs ih =>
      have hrepair : (a.repair f).1.emptyArguments = none := by
        have hseen : (a.seen f).emptyArguments = none := h
        rw [repair_eq]
        simp only
        split
        · rw [closeCalls_of_none hseen]
          exact hseen
        · exact hseen
      rw [repaired, List.length_cons, ih hrepair, List.length_cons]

/-- The calls that close an index: one if it was seen and no arguments came for it. -/
def closingAt (text : String) (i : UInt32) (given : Option Bool) : List ToolCall :=
  if given = some false then [(ToolCall.ofFunction "" "" text).withIndex i] else []

/-- Arguments came if their pieces come to some text. -/
theorem noted_some (given : Bool) (cs : List ToolCall) :
    noted (some given) cs =
      some (given || String.join (cs.map fun c => c.function.arguments) ≠ "") := by
  induction cs generalizing given with
  | nil => simp [noted]
  | cons c cs ih =>
      have hstep : noted (some given) (c :: cs) =
          noted (some (given || !c.function.arguments.isEmpty)) cs := rfl
      rw [hstep, ih]
      have hempty : ("" : String).isEmpty = true := rfl
      by_cases hc : c.function.arguments = "" <;> simp [hc, hempty]

/-- **A call gathers its arguments,** or those that close it if none came. -/
theorem gather_closed {call : ToolCall} (hkind : call.kind ≠ "")
    (hcall : call.function.arguments = "") {pieces : List ToolCall}
    (hpieces : ∀ piece ∈ pieces, piece.id = "" ∧ piece.function.name = "") (text : String)
    (i : UInt32) :
    let joined := String.join (pieces.map fun c => c.function.arguments)
    Assembler.gather none (call :: pieces ++ closingAt text i (noted none (call :: pieces))) =
      some (some { call with
        function := { call.function with
          arguments := if joined = "" then text else joined } }) := by
  have hstep : noted none (call :: pieces) = noted (some false) pieces := by
    rw [noted, List.foldl_cons, hcall]
    rfl
  rw [hstep, noted_some]
  simp only [List.cons_append, Assembler.gather_none_cons]
  by_cases hjoined : String.join (pieces.map fun c => c.function.arguments) = ""
  · have hclosing : ∀ piece ∈ pieces ++ [(ToolCall.ofFunction "" "" text).withIndex i],
        piece.id = "" ∧ piece.function.name = "" := by
      intro piece hpiece
      rcases List.mem_append.mp hpiece with hpiece | hpiece
      · exact hpieces piece hpiece
      · rw [List.mem_singleton.mp hpiece]
        exact ⟨rfl, rfl⟩
    rw [closingAt, if_pos (by simp [hjoined]), Assembler.gather_pieces hkind hclosing]
    simp [hcall, hjoined, String.join_append, ToolCall.withIndex, ToolCall.ofFunction]
  · rw [closingAt, if_neg (by simp [hjoined]), List.append_nil,
      Assembler.gather_pieces hkind hpieces]
    simp [hcall, hjoined]

theorem closeCalls_of_some {a : Accumulator} {text : String} (h : a.emptyArguments = some text) :
    a.closeCalls =
      ({ a with arguments := a.arguments.map fun p => (p.1, true) },
        (a.arguments.filter fun p => !p.2).map fun p =>
          (ToolCall.ofFunction "" "" text).withIndex p.1) := by
  simp [closeCalls, h]

/-- At an index, closing adds the call that is due, and from then on none is. -/
theorem closeCalls_spec {a : Accumulator} (ha : Ascending a.arguments) {text : String}
    (h : a.emptyArguments = some text) (i : UInt32) :
    at? i a.closeCalls.2 = closingAt text i (a.arguments.lookup i) ∧
      Ascending a.closeCalls.1.arguments ∧
      a.closeCalls.1.arguments.lookup i ≠ some false := by
  rw [closeCalls_of_some h]
  refine ⟨?_, Ascending.map_values ha fun _ => true, ?_⟩
  · have hfilter : (a.arguments.filter fun p => !p.2).filter (fun p => p.1 = i) =
        (a.arguments.lookup i).toList.filterMap fun given =>
          if given then none else some (i, given) := by
      rw [List.filter_comm, Ascending.filter_index ha]
      cases a.arguments.lookup i with
      | none => rfl
      | some given => cases given <;> rfl
    have hat (l : List (UInt32 × Bool)) :
        at? i (l.map fun p => (ToolCall.ofFunction "" "" text).withIndex p.1) =
          (l.filter fun p => p.1 = i).map fun p =>
            (ToolCall.ofFunction "" "" text).withIndex p.1 := by
      simp [at?, List.filter_map, ToolCall.withIndex, Function.comp_def]
    rw [hat, hfilter]
    rcases a.arguments.lookup i with _ | _ | _ <;> rfl
  · intro hfalse
    have hmem := Ascending.mem_of_lookup hfalse
    simp at hmem

theorem noted_append (before : Option Bool) (cs ds : List ToolCall) :
    noted before (cs ++ ds) = noted (noted before cs) ds :=
  List.foldl_append ..

/-- Closing calls have an index. -/
theorem index_closeCalls (a : Accumulator) : ∀ c ∈ a.closeCalls.2, c.index ≠ none := by
  intro c hc
  unfold closeCalls at hc
  split at hc
  · simp at hc
  · obtain ⟨p, -, rfl⟩ := List.mem_map.mp hc
    exact Option.some_ne_none p.1

/-- Where all calls state an index, so do the repaired ones. -/
theorem index_repaired {a : Accumulator} {fs : List Message}
    (hfs : ∀ f ∈ fs, ∀ c ∈ f.toolCalls, c.index ≠ none) :
    ∀ c ∈ (a.repaired fs).flatMap Message.toolCalls, c.index ≠ none := by
  induction fs generalizing a with
  | nil =>
      intro c hc
      obtain ⟨f, hf, hc⟩ := List.mem_flatMap.mp hc
      rw [repaired, closing] at hf
      split at hf
      · simp at hf
      · rw [List.mem_singleton.mp hf] at hc
        exact index_closeCalls a c hc
  | cons f fs ih =>
      intro c hc
      rw [repaired, List.flatMap_cons] at hc
      rcases List.mem_append.mp hc with hc | hc
      · have hf := hfs f List.mem_cons_self
        have hnamed : ∀ c ∈ named a.started f.toolCalls, c.index ≠ none :=
          index_named (p := (· ≠ none)) hf
        rw [repair_eq, repairIndices_of_index hf] at hc
        simp only at hc
        split at hc
        · rcases List.mem_append.mp hc with hc | hc
          · exact hnamed c hc
          · exact index_closeCalls _ c hc
        · exact hnamed c hc
      · exact ih (fun g hg => hfs g (List.mem_cons_of_mem _ hg)) c hc

/-- **Calls without arguments are closed once.**  If no calls follow the fragment that finishes the
reply, an index ends with the call that closes it, if one is due. -/
theorem at?_repaired {a : Accumulator} (ha : Ascending a.arguments) {text : String}
    (h : a.emptyArguments = some text) {fs : List Message}
    (hfs : fs.Pairwise fun f g => isFinishing f → g.toolCalls = []) (i : UInt32) :
    at? i ((a.repaired fs).flatMap Message.toolCalls) =
      at? i (named a.started (located a.lastIndex fs)) ++
        closingAt text i (noted (a.arguments.lookup i) (at? i (located a.lastIndex fs))) := by
  induction fs generalizing a with
  | nil =>
      obtain ⟨hclose, -, -⟩ := closeCalls_spec ha h i
      rw [calls_repaired_nil, hclose]
      rfl
  | cons f fs ih =>
      obtain ⟨hf, hfs⟩ := List.pairwise_cons.mp hfs
      have hseen : Ascending (a.seen f).arguments := ascending_noteAll ha _
      have hlookup : (a.seen f).arguments.lookup i = _ := lookup_noteAll ha _ i
      rw [repaired, List.flatMap_cons, repair_eq, located, named_append, Assembler.at?_append,
        Assembler.at?_append, Assembler.at?_append, noted_append, ← hlookup]
      cases hfinishing : isFinishing f with
      | false =>
          have hrest := ih (a := a.seen f) hseen h hfs
          have hlast : (a.seen f).lastIndex =
              (repairIndices false a.lastIndex f.toolCalls).1 := by simp [seen, hfinishing]
          have hstarted : (a.seen f).started =
              a.started + starts (repairIndices false a.lastIndex f.toolCalls).2 := by
            simp [seen, hfinishing]
          rw [hlast, hstarted] at hrest
          simp [hrest, List.append_assoc]
      | true =>
          -- No calls follow, so what closes the index now is all that will.
          have hnone : ∀ g ∈ fs, g.toolCalls = [] := fun g hg => hf g hg hfinishing
          obtain ⟨hclose, hasc, hdone⟩ := closeCalls_spec hseen h i
          have hemptyArguments : (a.seen f).closeCalls.1.emptyArguments = some text := by
            simp [closeCalls, seen, h]
          have hrest := ih hasc hemptyArguments hfs
          rw [located_of_no_calls hnone] at hrest
          have hnothing : closingAt text i ((a.seen f).closeCalls.1.arguments.lookup i) = [] :=
            if_neg hdone
          simp [hrest, located_of_no_calls hnone, hclose, noted, named, hnothing]

end Accumulator

end ChatRelay
