import ChatRelay.Proofs.Stream.Numbering

/-!
# The calls of one index apart

Fragments that only continue a call may come for an index at which no call ever starts.  They make
up a call without a name there, and that is all they do: the calls of the other indices are
numbered, closed and put together as if those fragments had been left out of the stream
(`calls_repaired_others`, `calls_others`).

Two accumulators run side by side for this, one over the whole stream and one over what is left of
it.  The second has seen nothing of the index, and agrees with the first on all else (`Forgets`);
this is what every fragment preserves (`Forgets.repair`).

## Main definitions

* `ToolCall.others` — the calls of all indices but one
* `Accumulator.Forgets` — an accumulator has seen what another has, but for one index
-/

namespace ChatRelay

open ToolCall

namespace Ascending

theorem lookup_filter_ne {β : Type} (l : List (UInt32 × β)) (i k : UInt32) :
    (l.filter fun p => p.1 ≠ i).lookup k = if k = i then none else l.lookup k := by
  induction l with
  | nil => simp
  | cons p l ih =>
      by_cases hp : p.1 = i
      · rw [List.filter_cons_of_neg (by simp [hp]), ih, lookup_cons]
        by_cases hk : k = i
        · simp [hk]
        · simp [hk, show ¬ k = p.1 from fun h => hk (h.trans hp)]
      · rw [List.filter_cons_of_pos (by simp [hp]), lookup_cons, lookup_cons, ih]
        by_cases hk : k = i
        · simp [hk, Ne.symm hp]
        · simp [hk]

end Ascending

namespace ToolCall

/-- The calls of all indices but one. -/
def others (i : UInt32) (cs : List ToolCall) : List ToolCall :=
  cs.filter fun c => c.index ≠ some i

variable {i : UInt32} {cs : List ToolCall}

@[simp] theorem others_nil (i : UInt32) : others i [] = [] := rfl

@[simp] theorem others_append (i : UInt32) (cs ds : List ToolCall) :
    others i (cs ++ ds) = others i cs ++ others i ds :=
  List.filter_append ..

theorem others_eq_self (h : ∀ c ∈ cs, c.index ≠ some i) : others i cs = cs :=
  List.filter_eq_self.mpr fun c hc => by simpa using h c hc

theorem others_eq_nil (h : ∀ c ∈ cs, c.index = some i) : others i cs = [] :=
  List.filter_eq_nil_iff.mpr fun c hc => by simpa using h c hc

theorem others_cons_of_index {c : ToolCall} (h : c.index = some i) (cs : List ToolCall) :
    others i (c :: cs) = others i cs :=
  List.filter_cons_of_neg (by simpa using h)

theorem others_cons_of_index_ne {c : ToolCall} (h : c.index ≠ some i) (cs : List ToolCall) :
    others i (c :: cs) = c :: others i cs :=
  List.filter_cons_of_pos (by simpa using h)

theorem mem_others {c : ToolCall} : c ∈ others i cs ↔ c ∈ cs ∧ c.index ≠ some i := by
  simp [others]

end ToolCall

namespace Assembler

variable {i : UInt32} {cs : List ToolCall}

theorem at?_others (i k : UInt32) (cs : List ToolCall) :
    at? k (others i cs) = if k = i then [] else at? k cs := by
  split
  · next hk =>
    subst hk
    exact at?_eq_nil fun c hc => (mem_others.mp hc).2
  · next hk =>
    rw [at?, at?, others, List.filter_filter]
    refine List.filter_congr fun c _ => ?_
    by_cases hc : c.index = some k <;> simp [hc, hk]

/-- What only continues a call conflicts with nothing. -/
theorem exists_pushAll_others (hcs : ∀ c ∈ cs, c.index ≠ none)
    (hi : ∀ c ∈ cs, c.index = some i → c.Continues) :
    (∃ a, ({} : Assembler).pushAll (others i cs) = .ok a) ↔
      ∃ a, ({} : Assembler).pushAll cs = .ok a := by
  rw [exists_pushAll_iff hcs, exists_pushAll_iff fun c hc => hcs c (mem_others.mp hc).1, others,
    List.pairwise_filter]
  constructor
  · intro h
    refine h.imp_of_mem fun {c d} hc hd hcd hconflict => ?_
    by_cases hindex : d.index = some i
    · exact hconflict.2 (label_join (hi d hd hindex)).1
    · have hindex' : c.index ≠ some i := fun h => hindex (hconflict.1.symm.trans h)
      exact hcd (by simpa using hindex') (by simpa using hindex) hconflict
  · exact fun h => h.imp fun hcd _ _ => hcd

/-- **The calls of the other indices are assembled alike.** -/
theorem calls_others (hcs : ∀ c ∈ cs, c.index ≠ none) {a b : Assembler}
    (ha : ({} : Assembler).pushAll cs = .ok a)
    (hb : ({} : Assembler).pushAll (others i cs) = .ok b) : b.calls = others i a.calls := by
  obtain ⟨hwf, hgathers⟩ := (pushAll_eq_ok_iff wellFormed_empty).mp ha
  obtain ⟨hwf', hgathers'⟩ := (pushAll_eq_ok_iff wellFormed_empty).mp hb
  have hwhole (ds : List ToolCall) (hds : ∀ c ∈ ds, c.index ≠ none) :
      (ds.filter fun c => c.index = none) = [] :=
    List.filter_eq_nil_iff.mpr fun c hc => by simpa using hds c hc
  have hindexed : b.indexed = a.indexed.filter fun p => p.1 ≠ i := by
    refine Ascending.ext hwf'.ascending (hwf.ascending.filter _) fun k => ?_
    have hk := hgathers'.held k
    rw [at?_others] at hk
    rw [Ascending.lookup_filter_ne]
    split at hk
    · next heq =>
      rw [if_pos heq]
      exact (Option.some.inj hk).symm
    · next hne =>
      rw [if_neg hne]
      exact Option.some.inj (hk.symm.trans (hgathers.held k))
  have hfilter : (a.indexed.filter fun p => p.1 ≠ i) =
      a.indexed.filter ((fun c : ToolCall => decide (c.index ≠ some i)) ∘ Prod.snd) :=
    List.filter_congr fun p hp => by simp [hwf.index p hp]
  rw [calls, calls, hgathers'.whole, hgathers.whole, hwhole cs hcs,
    hwhole _ fun c hc => hcs c (mem_others.mp hc).1, hindexed, hfilter]
  simp [others, List.filter_map]

/-- Fragments that only continue a call come to a call that has no name. -/
theorem continues_of_pushAll (hi : ∀ c ∈ cs, c.index = some i → c.Continues) {a : Assembler}
    (ha : ({} : Assembler).pushAll cs = .ok a) :
    (∀ c ∈ a.calls, c.index = some i → c.Continues) ∧
      ((∃ c ∈ a.calls, c.index = some i) ↔ at? i cs ≠ []) := by
  obtain ⟨hwf, hgathers⟩ := (pushAll_eq_ok_iff wellFormed_empty).mp ha
  have hheld := hgathers.held i
  have hat := at?_calls hwf i
  have hmem (c : ToolCall) : c ∈ a.calls ∧ c.index = some i ↔ c ∈ at? i a.calls := by
    simp [at?]
  have hcontinues : ∀ c ∈ at? i cs, c.Continues := by
    intro c hc
    obtain ⟨hc, hindex⟩ := List.mem_filter.mp hc
    exact hi c hc (by simpa using hindex)
  simp only [hmem]
  rw [hat]
  cases hlist : at? i cs with
  | nil =>
      rw [hlist] at hheld
      rw [← Option.some.inj hheld]
      refine ⟨fun c hc hindex => ?_, by simp⟩
      have hc := (hmem c).mp ⟨hc, hindex⟩
      rw [hat, ← Option.some.inj hheld] at hc
      simp at hc
  | cons f fs =>
      rw [hlist] at hheld hcontinues
      obtain ⟨d, hd, hlabel⟩ := gather_of_continues (c := f) fun g hg =>
        hcontinues g (List.mem_cons_of_mem _ hg)
      have hsome : a.held i = some d := Option.some.inj (hheld.symm.trans hd)
      rw [hsome] at hat ⊢
      refine ⟨fun c hc hindex => ?_, by simp⟩
      have hc := (hmem c).mp ⟨hc, hindex⟩
      rw [hat] at hc
      rw [List.mem_singleton.mp hc, continues_iff, hlabel]
      exact continues_iff.mp (hcontinues f List.mem_cons_self)

end Assembler

namespace Accumulator

open Assembler (at?)

variable {i : UInt32}

/-! ### Side by side -/

theorem identified_of_continues {c : ToolCall} (hc : c.Continues) (n : Nat) :
    identified n c = c :=
  if_neg hc.not_startsWithoutId

theorem starts_of_continues {c : ToolCall} (hc : c.Continues) : starts [c] = 0 := by
  simp [starts, hc.2]

/-- Ids are given past what only continues a call. -/
theorem named_others {started : Nat} {cs : List ToolCall}
    (hcs : ∀ c ∈ cs, c.index = some i → c.Continues) :
    named started (others i cs) = others i (named started cs) ∧
      starts (others i cs) = starts cs := by
  induction cs generalizing started with
  | nil => exact ⟨rfl, rfl⟩
  | cons c cs ih =>
      have hrest (s : Nat) := @ih s fun d hd => hcs d (List.mem_cons_of_mem _ hd)
      rw [named_cons, starts_cons c cs]
      by_cases hindex : c.index = some i
      · have hc := hcs c List.mem_cons_self hindex
        rw [others_cons_of_index hindex, others_cons_of_index (by simpa using hindex),
          starts_of_continues hc, Nat.add_zero, Nat.zero_add]
        exact hrest started
      · obtain ⟨hnamed, hstarts⟩ := hrest (started + starts [c])
        rw [others_cons_of_index_ne hindex, others_cons_of_index_ne (by simpa using hindex),
          named_cons, hnamed, starts_cons c (others i cs), hstarts]
        exact ⟨rfl, rfl⟩

/-- What is remembered of the other indices does not depend on the calls of one. -/
theorem noteAll_others {arguments : List (UInt32 × Bool)} (h : Ascending arguments)
    (cs : List ToolCall) :
    noteAll (arguments.filter fun p => p.1 ≠ i) (others i cs) =
      (noteAll arguments cs).filter fun p => p.1 ≠ i := by
  refine Ascending.ext (ascending_noteAll (h.filter _) _) ((ascending_noteAll h cs).filter _)
    fun k => ?_
  rw [lookup_noteAll (h.filter _), Ascending.lookup_filter_ne, Ascending.lookup_filter_ne,
    lookup_noteAll h, Assembler.at?_others]
  split <;> rfl

/-- An accumulator has seen what another has, but nothing of one index. -/
structure Forgets (i : UInt32) (a b : Accumulator) : Prop where
  started : b.started = a.started
  arguments : b.arguments = a.arguments.filter fun p => p.1 ≠ i
  emptyArguments : b.emptyArguments = a.emptyArguments

theorem Forgets.closeCalls {a b : Accumulator} (h : Forgets i a b) :
    Forgets i a.closeCalls.1 b.closeCalls.1 ∧ b.closeCalls.2 = others i a.closeCalls.2 := by
  cases hempty : a.emptyArguments with
  | none =>
      rw [closeCalls_of_none hempty, closeCalls_of_none (h.emptyArguments.trans hempty)]
      exact ⟨h, rfl⟩
  | some text =>
      rw [closeCalls_of_some hempty, closeCalls_of_some (h.emptyArguments.trans hempty)]
      refine ⟨⟨h.started, ?_, h.emptyArguments⟩, ?_⟩
      · simp [h.arguments, List.filter_map, Function.comp_def]
      · simp [h.arguments, others, List.filter_map, Function.comp_def, ToolCall.withIndex,
          Bool.and_comm]

/-- **A fragment is repaired alike without its calls of the index.** -/
theorem Forgets.repair {a b : Accumulator} (h : Forgets i a b) (ha : Ascending a.arguments)
    {f : Message} (hindex : ∀ c ∈ f.toolCalls, c.index ≠ none)
    (hcontinues : ∀ c ∈ f.toolCalls, c.index = some i → c.Continues) :
    Forgets i (a.repair f).1 (b.repair { f with toolCalls := others i f.toolCalls }).1 ∧
      (b.repair { f with toolCalls := others i f.toolCalls }).2.toolCalls =
        others i (a.repair f).2.toolCalls := by
  have hindex' : ∀ c ∈ others i f.toolCalls, c.index ≠ none := fun c hc =>
    hindex c (mem_others.mp hc).1
  obtain ⟨hnamed, hstarts⟩ := @named_others i a.started _ hcontinues
  have hseen : Forgets i (a.seen f) (b.seen { f with toolCalls := others i f.toolCalls }) := by
    refine ⟨?_, ?_, h.emptyArguments⟩
    · simp only [seen, repairIndices_of_index hindex, repairIndices_of_index hindex', h.started,
        hstarts]
    · simp only [seen, repairIndices_of_index hindex, repairIndices_of_index hindex', h.arguments]
      exact noteAll_others ha _
  obtain ⟨hclosed, hclosing⟩ := hseen.closeCalls
  have hfinishing : isFinishing { f with toolCalls := others i f.toolCalls } = isFinishing f := rfl
  rw [repair_eq, repair_eq, hfinishing]
  simp only [repairIndices_of_index hindex, repairIndices_of_index hindex', h.started, hnamed]
  split
  · exact ⟨hclosed, by rw [hclosing, others_append]⟩
  · exact ⟨hseen, rfl⟩

/-- A fragment without calls that does not finish the reply leaves an accumulator as it was. -/
theorem repair_of_no_calls {a : Accumulator} {f : Message} (hcalls : f.toolCalls = [])
    (hfinishing : isFinishing f = false) : a.repair f = (a, f) := by
  have hsame : ({ f with toolCalls := [] } : Message) = f := by rw [← hcalls]
  rw [repair_eq]
  simp [hfinishing, hcalls, seen, repairIndices, starts, noteAll, named, hsame]

theorem ascending_repair {a : Accumulator} (ha : Ascending a.arguments) (f : Message) :
    Ascending (a.repair f).1.arguments := by
  have hseen : Ascending (a.seen f).arguments := ascending_noteAll ha _
  rw [repair_eq]
  simp only
  split
  · unfold closeCalls
    split
    · exact hseen
    · exact Ascending.map_values hseen fun _ => true
  · exact hseen

/-- **What a stream says of one index may be left out without a change to its other calls,** where
it only continues calls. -/
theorem calls_repaired_others {α : Type} {said : α → Message} {keep : α → Bool} {vs : List α}
    (hindex : ∀ v ∈ vs, ∀ c ∈ (said v).toolCalls, c.index ≠ none)
    (hkept : ∀ v ∈ vs, keep v = true → ∀ c ∈ (said v).toolCalls, c.index ≠ some i)
    (hleft : ∀ v ∈ vs, keep v = false → isFinishing (said v) = false ∧
      ∀ c ∈ (said v).toolCalls, c.index = some i ∧ c.Continues)
    {a b : Accumulator} (h : Forgets i a b) (ha : Ascending a.arguments) :
    (b.repaired ((vs.filter keep).map said)).flatMap Message.toolCalls =
      others i ((a.repaired (vs.map said)).flatMap Message.toolCalls) := by
  induction vs generalizing a b with
  | nil =>
      rw [List.filter_nil, List.map_nil, calls_repaired_nil, calls_repaired_nil]
      exact h.closeCalls.2
  | cons v vs ih =>
      have hrest {a b : Accumulator} := @ih (fun w hw => hindex w (List.mem_cons_of_mem _ hw))
        (fun w hw => hkept w (List.mem_cons_of_mem _ hw))
        (fun w hw => hleft w (List.mem_cons_of_mem _ hw)) a b
      rw [List.map_cons, repaired, List.flatMap_cons, others_append]
      cases hkeep : keep v with
      | true =>
          have hothers := hkept v List.mem_cons_self hkeep
          obtain ⟨hforgets, hcalls⟩ := h.repair ha (hindex v List.mem_cons_self)
            fun c hc hi => absurd hi (hothers c hc)
          have hsame : ({ said v with toolCalls := others i (said v).toolCalls } : Message) =
              said v := by rw [others_eq_self hothers]
          rw [hsame] at hforgets hcalls
          rw [List.filter_cons_of_pos hkeep, List.map_cons, repaired, List.flatMap_cons, hcalls,
            hrest hforgets (ascending_repair ha _)]
      | false =>
          obtain ⟨hfinishing, hcalls⟩ := hleft v List.mem_cons_self hkeep
          have hnone : others i (said v).toolCalls = [] :=
            others_eq_nil fun c hc => (hcalls c hc).1
          obtain ⟨hforgets, hothers⟩ := h.repair ha (hindex v List.mem_cons_self)
            fun c hc _ => (hcalls c hc).2
          have hstays : b.repair { said v with toolCalls := others i (said v).toolCalls } =
              (b, { said v with toolCalls := others i (said v).toolCalls }) :=
            repair_of_no_calls hnone hfinishing
          rw [hstays] at hforgets hothers
          rw [List.filter_cons_of_neg (by simp [hkeep]), hrest hforgets (ascending_repair ha _),
            ← hothers, hnone, List.nil_append]

/-! ### The calls of the index -/

theorem continues_closeCalls (a : Accumulator) : ∀ c ∈ a.closeCalls.2, c.Continues := by
  intro c hc
  unfold closeCalls at hc
  split at hc
  · simp at hc
  · obtain ⟨p, -, rfl⟩ := List.mem_map.mp hc
    exact ⟨rfl, rfl⟩

theorem continues_named {started : Nat} {cs : List ToolCall}
    (hcs : ∀ c ∈ cs, c.index = some i → c.Continues) :
    ∀ c ∈ named started cs, c.index = some i → c.Continues := by
  induction cs generalizing started with
  | nil => simp [named]
  | cons c cs ih =>
      rw [named_cons]
      intro d hd hindex
      rcases List.mem_cons.mp hd with rfl | hd
      · have hc := hcs c List.mem_cons_self (by simpa using hindex)
        rwa [identified_of_continues hc]
      · exact ih (fun d hd => hcs d (List.mem_cons_of_mem _ hd)) d hd hindex

/-- Where fragments only continue a call, so do the repaired ones. -/
theorem continues_repaired {fs : List Message}
    (hindex : ∀ f ∈ fs, ∀ c ∈ f.toolCalls, c.index ≠ none)
    (hfs : ∀ f ∈ fs, ∀ c ∈ f.toolCalls, c.index = some i → c.Continues) (a : Accumulator) :
    ∀ c ∈ (a.repaired fs).flatMap Message.toolCalls, c.index = some i → c.Continues := by
  induction fs generalizing a with
  | nil =>
      intro c hc _
      rw [calls_repaired_nil] at hc
      exact continues_closeCalls a c hc
  | cons f fs ih =>
      intro c hc hi
      rw [repaired, List.flatMap_cons] at hc
      rcases List.mem_append.mp hc with hc | hc
      · have hnamed := @continues_named i a.started _ (hfs f List.mem_cons_self)
        rw [repair_eq, repairIndices_of_index (hindex f List.mem_cons_self)] at hc
        simp only at hc
        split at hc
        · rcases List.mem_append.mp hc with hc | hc
          · exact hnamed c hc hi
          · exact continues_closeCalls _ c hc
        · exact hnamed c hc hi
      · exact ih (fun g hg => hindex g (List.mem_cons_of_mem _ hg))
          (fun g hg => hfs g (List.mem_cons_of_mem _ hg)) _ c hc hi

/-- What was not seen is not closed. -/
theorem lookup_closeCalls {a : Accumulator} (h : a.arguments.lookup i = none) :
    at? i a.closeCalls.2 = [] ∧ a.closeCalls.1.arguments.lookup i = none := by
  cases hempty : a.emptyArguments with
  | none =>
      rw [closeCalls_of_none hempty]
      exact ⟨rfl, h⟩
  | some text =>
      rw [closeCalls_of_some hempty]
      refine ⟨Assembler.at?_eq_nil fun c hc hindex => ?_, ?_⟩
      · obtain ⟨p, hp, rfl⟩ := List.mem_map.mp hc
        obtain rfl : p.1 = i := Option.some.inj hindex
        have hne := List.lookup_eq_none_iff.mp h p (List.mem_of_mem_filter hp)
        simp at hne
      · rw [Ascending.lookup_map a.arguments (fun _ => true), h]
        rfl

/-- A repair adds a call of an index only where there is one, or where the index was seen. -/
theorem at?_repair {a : Accumulator} (ha : Ascending a.arguments)
    (hseen : a.arguments.lookup i = none) {f : Message}
    (hindex : ∀ c ∈ f.toolCalls, c.index ≠ none) :
    (at? i (a.repair f).2.toolCalls = [] ↔ at? i f.toolCalls = []) ∧
      (at? i f.toolCalls = [] → (a.repair f).1.arguments.lookup i = none) := by
  have hnamed : at? i (named a.started f.toolCalls) = [] ↔ at? i f.toolCalls = [] := by
    rw [← List.length_eq_zero_iff, length_at?_named, List.length_eq_zero_iff]
  have hlookup (hnil : at? i f.toolCalls = []) : (a.seen f).arguments.lookup i = none := by
    simp only [seen, repairIndices_of_index hindex]
    rw [lookup_noteAll ha, hnil, hseen]
    rfl
  rw [repair_eq]
  simp only [repairIndices_of_index hindex]
  split
  · rw [Assembler.at?_append, List.append_eq_nil_iff, hnamed]
    exact ⟨⟨fun h => h.1, fun h => ⟨h, (lookup_closeCalls (hlookup h)).1⟩⟩,
      fun h => (lookup_closeCalls (hlookup h)).2⟩
  · exact ⟨hnamed, hlookup⟩

/-- Repaired calls are of the indices of which calls came. -/
theorem at?_repaired_eq_nil_iff {fs : List Message}
    (hindex : ∀ f ∈ fs, ∀ c ∈ f.toolCalls, c.index ≠ none) {a : Accumulator}
    (ha : Ascending a.arguments) (hseen : a.arguments.lookup i = none) :
    at? i ((a.repaired fs).flatMap Message.toolCalls) = [] ↔
      at? i (fs.flatMap Message.toolCalls) = [] := by
  induction fs generalizing a with
  | nil =>
      simp [calls_repaired_nil, (lookup_closeCalls hseen).1]
  | cons f fs ih =>
      obtain ⟨hrepair, hlookup⟩ := at?_repair ha hseen (hindex f List.mem_cons_self)
      rw [repaired, List.flatMap_cons, List.flatMap_cons, Assembler.at?_append,
        Assembler.at?_append, List.append_eq_nil_iff, List.append_eq_nil_iff, hrepair]
      refine and_congr_right fun hnil => ?_
      exact ih (fun g hg => hindex g (List.mem_cons_of_mem _ hg)) (ascending_repair ha f)
        (hlookup hnil)

end Accumulator

end ChatRelay
