import ChatRelay.Proofs.Stream.Calls
import ChatRelay.Proofs.Tool.Agreement

/-!
# When the ids that are given fit

An accumulator gives an id to every fragment that starts a call without one, and looks at no other
fragment for it.  The id may conflict with what later fragments of the call state, or with what
earlier ones did.  Fragments that could be merged as they came can be merged when they are passed on
just when the ids fit (`passOn_of_concat`), and then the message differs in such ids only, and in
the total of the token counts where a sum of counts wraps around.

The ids do not fit where a vendor repeats the name of a call, as each repetition starts a call
anew, nor where it states the id of a call after its name (`concat_passOn_late_id_repeated_name`).

## Main definitions

* `Accumulator.IdsFit` — the ids that are given conflict with nothing that is stated
-/

namespace ChatRelay

namespace Accumulator

open Result ToolCall

/-! ### One call -/

theorem identifies_identified (started : Nat) (c : ToolCall) :
    c.Identifies (identified started c) := by
  unfold identified
  split
  · next h => exact Or.inr ⟨h.2, started, rfl⟩
  · exact Or.inl rfl

/-- A call that is given an id agrees with what lacks one or states the same. -/
theorem agrees_identified_iff {c d : ToolCall} {m n : Nat}
    (hname : Agree c.function.name d.function.name) (hd : d.StartsWithoutId)
    (hne : c.StartsWithoutId → m ≠ n) :
    (identified m c).Agrees (identified n d) ↔
      ¬ c.StartsWithoutId ∧ (c.id = "" ∨ c.id = positionalId n) := by
  have hn := positionalId_ne_empty n
  have hnames : Agree (identified m c).function.name (identified n d).function.name := by
    simpa using hname
  have hid : (identified n d).id = positionalId n := by simp [identified, hd]
  by_cases hc : c.StartsWithoutId
  · -- Two ids that are given never agree, as each call that starts is counted.
    have hid' : (identified m c).id = positionalId m := by simp [identified, hc]
    have hdiffer : positionalId m ≠ positionalId n := fun h =>
      hne hc (positionalId_injective h)
    simp [Agrees, hid, hid', Agree, hc, hdiffer, hn, positionalId_ne_empty m]
  · have hsame : identified m c = c := if_neg hc
    rw [hsame] at hnames ⊢
    simp only [Agrees, hnames, hid, hc, not_false_eq_true, true_and, and_true]
    simp [Agree, hn]

/-! ### The calls of a stream -/

/-- The calls before a position decide which id is given there. -/
theorem getElem_named {started : Nat} {cs : List ToolCall} {k : Nat}
    (hk : k < (named started cs).length) (hk' : k < cs.length) :
    (named started cs)[k] = identified (started + starts (cs.take k)) cs[k] := by
  induction cs generalizing started k with
  | nil => simp at hk'
  | cons c cs ih =>
      simp only [named_cons]
      cases k with
      | zero => simp [starts]
      | succ k =>
          rw [List.getElem_cons_succ, ih _ (by simpa using hk'), List.take_succ_cons,
            starts_cons c (cs.take k), ← Nat.add_assoc]
          rfl

theorem forall₂_named (started : Nat) (cs : List ToolCall) :
    List.Forall₂ Identifies cs (named started cs) := by
  induction cs generalizing started with
  | nil => exact .nil
  | cons c cs ih =>
      rw [named_cons]
      exact .cons (identifies_identified started c) (ih _)

/-- Giving ids changes no arguments. -/
theorem arguments_at?_named (started : Nat) (cs : List ToolCall) (i : UInt32) :
    (Assembler.at? i (named started cs)).map (fun c => c.function.arguments) =
      (Assembler.at? i cs).map fun c => c.function.arguments := by
  have h : List.Forall₂ ToolCall.Identifies (Assembler.at? i cs) (Assembler.at? i (named started cs)) :=
    Assembler.filter_identified (forall₂_named started cs) (some i)
  generalize Assembler.at? i cs = ds, Assembler.at? i (named started cs) = es at h
  induction h with
  | nil => rfl
  | cons hcd _ ih => rw [List.map_cons, List.map_cons, ih, hcd.function]

theorem length_at?_named (started : Nat) (cs : List ToolCall) (i : UInt32) :
    (Assembler.at? i (named started cs)).length = (Assembler.at? i cs).length := by
  simpa using congrArg List.length (arguments_at?_named started cs i)

/-- More calls have started after a position where one does. -/
theorem starts_take_lt {cs : List ToolCall} {j k : Nat} (hjk : j < k) (hj : j < cs.length)
    (hname : cs[j].function.name ≠ "") : starts (cs.take j) < starts (cs.take k) := by
  have hstep : starts (cs.take (j + 1)) = starts (cs.take j) + 1 := by
    rw [List.take_succ_eq_append_getElem hj, starts_append]
    simp [starts, hname]
  have hle : starts (cs.take (j + 1)) ≤ starts (cs.take k) :=
    (List.take_sublist_take_left hjk).countP_le
  omega

/-- The ids that are given fit: where a fragment of an index starts a call without an id, no other
fragment of the index does so, and none states an id but the one that is given. -/
def IdsFit (cs : List ToolCall) : Prop :=
  ∀ j k : Fin cs.length, j ≠ k → cs[j].index = cs[k].index → cs[k].StartsWithoutId →
    ¬ cs[j].StartsWithoutId ∧ (cs[j].id = "" ∨ cs[j].id = positionalId (starts (cs.take k)))

instance (cs : List ToolCall) : Decidable (IdsFit cs) :=
  inferInstanceAs (Decidable (∀ _ _ : Fin cs.length, _))

/-- **Calls that can be assembled still can when they are given ids,** just when the ids fit. -/
theorem pairwise_named_iff {cs : List ToolCall} (hcs : cs.Pairwise fun c d => ¬ c.Conflicting d) :
    (named 0 cs).Pairwise (fun c d => ¬ c.Conflicting d) ↔ IdsFit cs := by
  rw [pairwise_not_conflicting_iff] at hcs ⊢
  -- Of two positions where calls start, the later one is given another id.
  have hdiffer {j k : Nat} (hj : j < cs.length) (hk : k < cs.length) (hne : j ≠ k)
      (hstart : cs[j].StartsWithoutId) (hstart' : cs[k].StartsWithoutId) :
      0 + starts (cs.take j) ≠ 0 + starts (cs.take k) := by
    rcases Nat.lt_or_gt_of_ne hne with hlt | hlt
    · have := starts_take_lt hlt hj hstart.1
      omega
    · have := starts_take_lt hlt hk hstart'.1
      omega
  have hfits {j k : Nat} (hj : j < cs.length) (hk : k < cs.length) (hne : j ≠ k)
      (hindex : cs[j].index = cs[k].index) (hstart : cs[k].StartsWithoutId) :
      (identified (0 + starts (cs.take j)) cs[j]).Agrees
          (identified (0 + starts (cs.take k)) cs[k]) ↔
        ¬ cs[j].StartsWithoutId ∧
          (cs[j].id = "" ∨ cs[j].id = positionalId (starts (cs.take k))) := by
    rw [agrees_identified_iff (hcs j k hj hk hne hindex).2 hstart
      fun hstart' => hdiffer hj hk hne hstart' hstart, Nat.zero_add]
  constructor
  · rintro h ⟨j, hj⟩ ⟨k, hk⟩ hne hindex hstart
    have hne : j ≠ k := fun heq => hne (Fin.ext heq)
    have hagrees := h j k (by simpa using hj) (by simpa using hk) hne
    rw [getElem_named _ hj, getElem_named _ hk] at hagrees
    exact (hfits hj hk hne hindex hstart).mp (hagrees (by simpa using hindex))
  · intro h j k hj hk hne hindex
    rw [length_named] at hj hk
    rw [getElem_named _ hj, getElem_named _ hk] at hindex ⊢
    simp only [identified_index] at hindex
    have hfin : (⟨j, hj⟩ : Fin cs.length) ≠ ⟨k, hk⟩ := fun heq => hne (Fin.mk.inj heq)
    by_cases hstart : cs[k].StartsWithoutId
    · exact (hfits hj hk hne hindex hstart).mpr (h ⟨j, hj⟩ ⟨k, hk⟩ hfin hindex hstart)
    · by_cases hstart' : cs[j].StartsWithoutId
      · exact ((hfits hk hj hne.symm hindex.symm hstart').mpr
          (h ⟨k, hk⟩ ⟨j, hj⟩ hfin.symm hindex.symm hstart')).symm
      · rw [identified, identified, if_neg hstart, if_neg hstart']
        exact hcs j k hj hk hne hindex

/-! ### Streams -/

/-- Without calls to close, every fragment is passed on with other calls at most. -/
theorem forall₂_repaired {a : Accumulator} (h : a.emptyArguments = none) (fs : List Message) :
    List.Forall₂ (fun f g => g = { f with toolCalls := g.toolCalls }) fs (a.repaired fs) := by
  induction fs generalizing a with
  | nil => simp [repaired, closing, closeCalls_of_none h]
  | cons f fs ih =>
      have hseen : (a.seen f).emptyArguments = none := h
      have hrepair : (a.repair f).1 = a.seen f := by simp [repair_eq, closeCalls_of_none hseen]
      rw [repaired, hrepair]
      exact .cons (repair_message a f) (ih hseen)

/-- A single fragment is passed on with ids given to its calls, and is merged with no other. -/
theorem concat_repaired_singleton {f : Message} (hindex : ∀ c ∈ f.toolCalls, c.index ≠ none) :
    Message.concat (({} : Accumulator).repaired [f]) =
      .ok { f with toolCalls := named 0 f.toolCalls } := by
  have hcalls := calls_repaired (a := {}) rfl [f]
  rw [located_of_index (by simpa using hindex)] at hcalls
  have hrepaired := forall₂_repaired (a := {}) rfl [f]
  generalize ({} : Accumulator).repaired [f] = gs at hcalls hrepaired
  obtain ⟨g, rest, hg, hrest, rfl⟩ := List.forall₂_cons_left_iff.mp hrepaired
  cases hrest
  simp only [List.flatMap_cons, List.flatMap_nil, List.append_nil] at hcalls
  rw [Message.concat_singleton, hg, hcalls]

/-- Several fragments are passed on as some that can be merged just when their calls can be
assembled with the ids that were given. -/
theorem concat_repaired {fs : List Message} (hlength : fs.length ≠ 1)
    (hindex : ∀ f ∈ fs, ∀ c ∈ f.toolCalls, c.index ≠ none) {m m' : Message}
    (hconcat : Message.concat fs = .ok m) :
    Message.concat (({} : Accumulator).repaired fs) = .ok m' ↔ ∃ b : Assembler,
      ({} : Assembler).pushAll (named 0 (fs.flatMap Message.toolCalls)) = .ok b ∧
        m' = { m with toolCalls := b.calls } := by
  have h := Message.concat_of_calls (forall₂_repaired (a := {}) rfl fs) hlength hconcat (r := m')
  rwa [calls_repaired rfl, located_of_index hindex] at h

/-- Fragments that can be merged still can when they are repaired, just when the ids that are given
fit, and then with other ids at most. -/
theorem concat_repaired_of_concat {fs : List Message}
    (hindex : ∀ f ∈ fs, ∀ c ∈ f.toolCalls, c.index ≠ none) {m : Message}
    (hconcat : Message.concat fs = .ok m) :
    ((∃ m', Message.concat (({} : Accumulator).repaired fs) = .ok m') ↔
      fs.length = 1 ∨ IdsFit (fs.flatMap Message.toolCalls)) ∧
    ∀ m', Message.concat (({} : Accumulator).repaired fs) = .ok m' →
      ∃ calls, List.Forall₂ ToolCall.Identifies m.toolCalls calls ∧
        m' = { m with toolCalls := calls } := by
  by_cases hlength : fs.length = 1
  · obtain ⟨f, rfl⟩ := List.length_eq_one_iff.mp hlength
    obtain rfl : f = m := Except.ok.inj hconcat
    have hrepaired := concat_repaired_singleton (hindex f List.mem_cons_self)
    refine ⟨iff_of_true ⟨_, hrepaired⟩ (Or.inl rfl), fun m' hm' => ?_⟩
    rw [hrepaired] at hm'
    cases hm'
    exact ⟨_, forall₂_named 0 f.toolCalls, rfl⟩
  · have hsame : List.Forall₂ (fun f g => g = { f with toolCalls := g.toolCalls }) fs fs :=
      List.forall₂_same.mpr fun f _ => rfl
    obtain ⟨a, ha, hm⟩ := (Message.concat_of_calls hsame hlength hconcat).mp hconcat
    have hcalls : ∀ c ∈ fs.flatMap Message.toolCalls, c.index ≠ none := by
      intro c hc
      obtain ⟨f, hf, hc⟩ := List.mem_flatMap.mp hc
      exact hindex f hf c hc
    constructor
    · have hpairwise := (Assembler.exists_pushAll_iff hcalls).mp ⟨a, ha⟩
      rw [or_iff_right hlength, ← pairwise_named_iff hpairwise,
        ← Assembler.exists_pushAll_iff (index_named (p := (· ≠ none)) hcalls)]
      simp only [concat_repaired hlength hindex hconcat]
      rw [exists_comm]
      simp
    · intro m' hm'
      obtain ⟨b, hb, rfl⟩ := (concat_repaired hlength hindex hconcat).mp hm'
      refine ⟨_, ?_, rfl⟩
      rw [hm]
      exact Assembler.calls_identified (forall₂_named 0 _) ha hb

/-- **A stream that can be merged is passed on as one that can,** just when the ids that are given
fit.  A single fragment is merged with no other, so there any ids do.  What comes of the stream
differs from what comes of its fragments in ids only, which calls have that would lack one, and in
the total of the token counts at most where a sum of counts wraps around. -/
theorem passOn_of_concat {fs : List Message} (hindex : ∀ f ∈ fs, ∀ c ∈ f.toolCalls, c.index ≠ none)
    {m : Message} (hconcat : Message.concat fs = .ok m) :
    ((∃ out m', ({} : Accumulator).passOn fs = .ok out ∧ Message.concat out = .ok m') ↔
      fs.length = 1 ∨ IdsFit (fs.flatMap Message.toolCalls)) ∧
    ∀ out m', ({} : Accumulator).passOn fs = .ok out → Message.concat out = .ok m' →
      ∃ calls, List.Forall₂ ToolCall.Identifies m.toolCalls calls ∧
        Message.AgreesWhen (TokenUsage.SumsFit (fs.filterMap Message.usage?)) m'
          { m with toolCalls := calls } := by
  obtain ⟨hsucceeds, hagrees⟩ := concat_passOn (a := {}) rfl fs
  obtain ⟨hfits, hcalls⟩ := concat_repaired_of_concat hindex hconcat
  refine ⟨hsucceeds.trans hfits, fun out m' hout hm' => ?_⟩
  obtain ⟨m'', hm''⟩ := hsucceeds.mp ⟨out, m', hout, hm'⟩
  obtain ⟨calls, hidentifies, rfl⟩ := hcalls m'' hm''
  exact ⟨calls, hidentifies, hagrees out m' _ hout hm' hm''⟩

/-- One call lacks an id and is given one that no fragment of it contradicts.  Of the other, the
second fragment states the very id that the first is given. -/
theorem passOn_of_concat_two_calls :
    let fragments := [
      { Message.assistant "a" with
        toolCalls := [{ index := some 1, function := { name := "look", arguments := "[" } }] },
      { Message.assistant "" with
        toolCalls := [
          { index := some 0, kind := "function", function := { name := "find" } },
          { index := some 1, function := { arguments := "]" } }] },
      { Message.assistant "" with
        toolCalls := [{ index := some 0, id := "call_1", function := { arguments := "2" } }]
        info := some { finishReason := some "stop" } }]
    let whole (id : String) : Message := { Message.assistant "a" with
      toolCalls := [
        { index := some 0, id := "call_1", kind := "function"
          function := { name := "find", arguments := "2" } },
        { index := some 1, id, function := { name := "look", arguments := "[]" } }]
      info := some { finishReason := some "stop" } }
    Message.concat fragments = .ok (whole "") ∧
      (∃ out m', ({} : Accumulator).passOn fragments = .ok out ∧ Message.concat out = .ok m') ∧
      ∀ out m', ({} : Accumulator).passOn fragments = .ok out → Message.concat out = .ok m' →
        ∃ calls, List.Forall₂ ToolCall.Identifies (whole "").toolCalls calls ∧
          m' = { whole "" with toolCalls := calls } := by
  intro fragments whole
  have hconcat : Message.concat fragments = .ok (whole "") := rfl
  have hids : IdsFit (fragments.flatMap Message.toolCalls) := by decide
  have hsums : TokenUsage.SumsFit (fragments.filterMap Message.usage?) := by decide
  obtain ⟨hsucceeds, hagrees⟩ := passOn_of_concat (by decide) hconcat
  refine ⟨hconcat, hsucceeds.mpr (Or.inr hids), fun out m' hout hm' => ?_⟩
  obtain ⟨calls, hidentifies, hm'⟩ := hagrees out m' hout hm'
  exact ⟨calls, hidentifies, hm'.same hsums⟩

/-- Where the id of a call comes after its name, or the name is repeated, the fragments can be
merged and what is passed on of them cannot. -/
theorem concat_passOn_late_id_repeated_name :
    let fragment (c : ToolCall) : Message := { Message.assistant "" with toolCalls := [c] }
    let late := [
      fragment { index := some 0, function := { name := "look" } },
      fragment { index := some 0, id := "a", function := { arguments := "[]" } }]
    let repeated := [
      fragment { index := some 0, id := "a", function := { name := "look" } },
      fragment { index := some 0, function := { name := "look", arguments := "[]" } }]
    let whole := fragment
      { index := some 0, id := "a", function := { name := "look", arguments := "[]" } }
    Message.concat late = .ok whole ∧ Message.concat repeated = .ok whole ∧
      (({} : Accumulator).passOn late >>= Message.concat) =
        .error (Assembler.conflict "id" 0 "call_0" "a") ∧
      (({} : Accumulator).passOn repeated >>= Message.concat) =
        .error (Assembler.conflict "id" 0 "a" "call_1") := by
  decide

end Accumulator

end ChatRelay
