import ChatRelay.Proofs.Message.Concat

/-!
# What grouping decides

Token counts are numbers of 64 bits, so the total of a merge may wrap around, and then it depends on
which reports were merged first.  Nothing else does: fragments that are concatenated in consecutive
groups come to a message that is the same but for the total, and where no sum wraps around it is the
same message (`Message.concat_flatten`).

The general case is carried back to the one in which sums fit.  A map that keeps one count of each
report goes through the whole of a concatenation (`Message.concat_mapUsage`) and leaves nothing to be
added up, and two such maps tell all of a message but its total (`Message.withoutTotal_eq`).

## Main definitions

* `Message.mapUsage` — a message with its token counts mapped
* `Message.withoutTotal` — a message without the total of its token counts
* `Message.AgreesWhen` — two messages are the same but for the total, and the same in some cases
-/

namespace ChatRelay

open Result TokenUsage

/-! ### Mapped counts -/

def ResponseInfo.mapUsage (f : TokenUsage → TokenUsage) (i : ResponseInfo) : ResponseInfo :=
  { i with usage := i.usage.map f }

def Merge.mapUsage (f : TokenUsage → TokenUsage) (m : Merge) : Merge :=
  { m with info := m.info.map (ResponseInfo.mapUsage f) }

/-- A message with its token counts mapped. -/
def Message.mapUsage (f : TokenUsage → TokenUsage) (m : Message) : Message :=
  { m with info := m.info.map (ResponseInfo.mapUsage f) }

section IsPart

variable {f : TokenUsage → TokenUsage} (hf : IsPart f)
include hf

theorem ResponseInfo.mapUsage_merge (i j : ResponseInfo) :
    (i.merge j).mapUsage f = (i.mapUsage f).merge (j.mapUsage f) := by
  simp only [merge, mapUsage, ResponseInfo.mk.injEq, true_and]
  exact hf.map_mergeOption i.usage j.usage

namespace Merge

theorem addInfo_map (a b : Option ResponseInfo) :
    addInfo (a.map (ResponseInfo.mapUsage f)) (b.map (ResponseInfo.mapUsage f)) =
      (addInfo a b).map (ResponseInfo.mapUsage f) := by
  cases b with
  | none => rfl
  | some i =>
      cases a with
      | none => exact congrArg some (ResponseInfo.mapUsage_merge hf {} i).symm
      | some j => exact congrArg some (ResponseInfo.mapUsage_merge hf j i).symm

theorem add_mapUsage (m : Merge) (x : Message) :
    (m.mapUsage f).add (x.mapUsage f) = (m.add x).map (mapUsage f) := by
  unfold add
  simp only [mapUsage, Message.mapUsage, addInfo_map hf]
  cases addRole m.role x.role with
  | error e => rfl
  | ok role =>
      cases m.calls.pushAll x.toolCalls with
      | error e => rfl
      | ok calls =>
          cases addOnce "tool_call_id" m.toolCallId x.toolCallId with
          | error e => rfl
          | ok id => cases addOnce "tool_name" m.toolName x.toolName <;> rfl

theorem foldlM_add_mapUsage (m : Merge) (fs : List Message) :
    (fs.map (Message.mapUsage f)).foldlM add (m.mapUsage f) =
      (fs.foldlM add m).map (mapUsage f) := by
  induction fs generalizing m with
  | nil => rfl
  | cons x fs ih =>
      rw [List.map_cons, List.foldlM_cons, List.foldlM_cons, add_mapUsage hf]
      cases m.add x with
      | error e => rfl
      | ok m' => exact ih m'

end Merge

namespace Message

/-- **Counts may be mapped before a concatenation or after it.** -/
theorem concat_mapUsage (fs : List Message) :
    concat (fs.map (mapUsage f)) = (concat fs).map (mapUsage f) := by
  match fs with
  | [] => rfl
  | [x] => rfl
  | x :: y :: fs =>
      have hmerge : ((x :: y :: fs).map (mapUsage f)).foldlM Merge.add {} =
          ((x :: y :: fs).foldlM Merge.add {}).map (Merge.mapUsage f) :=
        Merge.foldlM_add_mapUsage hf {} (x :: y :: fs)
      change (((x :: y :: fs).map (mapUsage f)).foldlM Merge.add {}).map Merge.finish =
        (((x :: y :: fs).foldlM Merge.add {}).map Merge.finish).map (mapUsage f)
      rw [hmerge]
      cases (x :: y :: fs).foldlM Merge.add {} <;> rfl

theorem mapM_concat_mapUsage (gs : List (List Message)) :
    (gs.map (List.map (mapUsage f))).mapM concat = (gs.mapM concat).map (List.map (mapUsage f)) := by
  induction gs with
  | nil => rfl
  | cons g gs ih =>
      rw [List.map_cons, List.mapM_cons, List.mapM_cons, concat_mapUsage hf, ih]
      cases concat g with
      | error e => rfl
      | ok x => cases gs.mapM concat <;> rfl

end Message

end IsPart

namespace Message

/-! ### Messages without a total -/

/-- A message without the total of its token counts. -/
def withoutTotal (m : Message) : Message :=
  m.mapUsage TokenUsage.withoutTotal

/-- Messages that are the same as far as one count is kept, whichever it is, are the same but for
the total. -/
theorem withoutTotal_eq {m m' : Message} (h : ∀ f, IsPart f → m.mapUsage f = m'.mapUsage f) :
    m.withoutTotal = m'.withoutTotal := by
  have hinfo : m.info.map (ResponseInfo.mapUsage TokenUsage.withoutTotal) =
      m'.info.map (ResponseInfo.mapUsage TokenUsage.withoutTotal) := by
    have hparts (f : TokenUsage → TokenUsage) (hf : IsPart f) :
        m.info.map (ResponseInfo.mapUsage f) = m'.info.map (ResponseInfo.mapUsage f) :=
      congrArg info (h f hf)
    match m.info, m'.info, hparts with
    | none, none, _ => rfl
    | none, some _, hparts | some _, none, hparts => cases hparts _ isPart_promptPart
    | some i, some j, hparts =>
        have hpart (f : TokenUsage → TokenUsage) (hf : IsPart f) : i.mapUsage f = j.mapUsage f :=
          Option.some.inj (hparts f hf)
        have husage : i.usage.map TokenUsage.withoutTotal = j.usage.map TokenUsage.withoutTotal :=
          map_withoutTotal_eq fun f hf => congrArg ResponseInfo.usage (hpart f hf)
        have hreason : (i.mapUsage _).finishReason = (j.mapUsage _).finishReason :=
          congrArg ResponseInfo.finishReason (hpart _ isPart_promptPart)
        simpa [ResponseInfo.mapUsage, husage] using hreason
  have hothers := h _ isPart_promptPart
  cases m
  cases m'
  simp_all [mapUsage, withoutTotal]

/-- Two messages are the same but for the total of their token counts, and the same if a condition
holds. -/
structure AgreesWhen (fit : Prop) (m m' : Message) : Prop where
  others : m.withoutTotal = m'.withoutTotal
  same : fit → m = m'

namespace AgreesWhen

variable {fit : Prop} {m m' m'' : Message}

theorem of_eq (h : m = m') : AgreesWhen fit m m' :=
  ⟨congrArg withoutTotal h, fun _ => h⟩

theorem trans (h : AgreesWhen fit m m') (h' : AgreesWhen fit m' m'') : AgreesWhen fit m m'' :=
  ⟨h.others.trans h'.others, fun hfit => (h.same hfit).trans (h'.same hfit)⟩

theorem imp {fit' : Prop} (h : AgreesWhen fit m m') (hfit : fit' → fit) : AgreesWhen fit' m m' :=
  ⟨h.others, fun hfit' => h.same (hfit hfit')⟩

theorem toolCalls (h : AgreesWhen fit m m') : m.toolCalls = m'.toolCalls :=
  (congrArg Message.toolCalls h.others :)

theorem content (h : AgreesWhen fit m m') : m.content = m'.content :=
  (congrArg Message.content h.others :)

theorem reasoning (h : AgreesWhen fit m m') : m.reasoning = m'.reasoning :=
  (congrArg Message.reasoning h.others :)

end AgreesWhen

/-! ### Groups of fragments -/

theorem usage?_mapUsage (f : TokenUsage → TokenUsage) (m : Message) :
    (m.mapUsage f).usage? = m.usage?.map f := by
  rw [usage?, mapUsage, usage?]
  cases m.info <;> rfl

theorem filterMap_usage?_mapUsage (f : TokenUsage → TokenUsage) (fs : List Message) :
    (fs.map (mapUsage f)).filterMap usage? = (fs.filterMap usage?).map f := by
  rw [List.filterMap_map, List.map_filterMap]
  exact List.filterMap_congr fun m _ => usage?_mapUsage f m

/-- As far as one count is kept, grouping decides nothing. -/
theorem concat_flatten_mapUsage {gs : List (List Message)} (hne : gs ≠ [])
    (hgs : ∀ g ∈ gs, g ≠ []) {f : TokenUsage → TokenUsage} (hf : IsPart f) {r : Message} :
    (∃ xs m, gs.mapM concat = .ok xs ∧ concat xs = .ok m ∧ m.mapUsage f = r) ↔
      ∃ m, concat gs.flatten = .ok m ∧ m.mapUsage f = r := by
  have hfit : SumsFit ((gs.map (List.map (mapUsage f))).flatten.filterMap usage?) := by
    rw [← List.map_flatten, filterMap_usage?_mapUsage]
    exact hf.sumsFit _
  have hne' : gs.map (List.map (mapUsage f)) ≠ [] := mt List.map_eq_nil_iff.mp hne
  have hgs' : ∀ g ∈ gs.map (List.map (mapUsage f)), g ≠ [] := by simpa using hgs
  have hflatten := concat_flatten_of_sumsFit (r := r) hne' hgs' hfit
  rw [mapM_concat_mapUsage hf, ← List.map_flatten, concat_mapUsage hf, map_eq_ok_iff] at hflatten
  rw [← hflatten]
  constructor
  · rintro ⟨xs, m, hxs, hm, hr⟩
    refine ⟨xs.map (mapUsage f), map_eq_ok_iff.mpr ⟨xs, hxs, rfl⟩, ?_⟩
    rw [concat_mapUsage hf]
    exact map_eq_ok_iff.mpr ⟨m, hm, hr⟩
  · rintro ⟨_, hmap, hr⟩
    obtain ⟨xs, hxs, rfl⟩ := map_eq_ok_iff.mp hmap
    rw [concat_mapUsage hf] at hr
    obtain ⟨m, hm, hr⟩ := map_eq_ok_iff.mp hr
    exact ⟨xs, m, hxs, hm, hr⟩

/-- **Concatenation does not depend on grouping but for the total of the counts,** and for that
neither where no sum of counts wraps around. -/
theorem concat_flatten {gs : List (List Message)} (hne : gs ≠ []) (hgs : ∀ g ∈ gs, g ≠ []) :
    ((∃ xs m, gs.mapM concat = .ok xs ∧ concat xs = .ok m) ↔ ∃ m, concat gs.flatten = .ok m) ∧
    ∀ xs m m', gs.mapM concat = .ok xs → concat xs = .ok m → concat gs.flatten = .ok m' →
      AgreesWhen (SumsFit (gs.flatten.filterMap usage?)) m m' := by
  constructor
  · constructor
    · rintro ⟨xs, m, hxs, hm⟩
      obtain ⟨m', hm', -⟩ :=
        (concat_flatten_mapUsage hne hgs isPart_promptPart).mp ⟨xs, m, hxs, hm, rfl⟩
      exact ⟨m', hm'⟩
    · rintro ⟨m', hm'⟩
      obtain ⟨xs, m, hxs, hm, -⟩ :=
        (concat_flatten_mapUsage hne hgs isPart_promptPart).mpr ⟨m', hm', rfl⟩
      exact ⟨xs, m, hxs, hm⟩
  · intro xs m m' hxs hm hm'
    refine ⟨withoutTotal_eq fun f hf => ?_, fun hfit => ?_⟩
    · obtain ⟨m'', hm'', h⟩ := (concat_flatten_mapUsage hne hgs hf).mp ⟨xs, m, hxs, hm, rfl⟩
      rw [hm'] at hm''
      cases hm''
      exact h.symm
    · have hflatten := (concat_flatten_of_sumsFit hne hgs hfit).mp ⟨xs, hxs, hm⟩
      rw [hm'] at hflatten
      cases hflatten
      rfl

/-- **Grouping decides neither what comes of a concatenation nor whether it fails.**  If all
fragments can be concatenated, then every group can, and their messages come to the same message,
for all but the total of its counts in any case and for that too where no sum wraps around.  If they
cannot, then some group cannot or the messages of the groups cannot. -/
theorem concat_of_groups {fs : List Message} (hfs : fs ≠ []) {groups : List (List Message)}
    (hgroups : ∀ g ∈ groups, g ≠ []) (hflatten : groups.flatten = fs) :
    (∀ m, concat fs = .ok m → ∃ ms m',
      List.Forall₂ (fun g x => concat g = .ok x) groups ms ∧ concat ms = .ok m' ∧
        AgreesWhen (SumsFit (fs.filterMap usage?)) m' m) ∧
    (∀ e, concat fs = .error e → (∃ g ∈ groups, ∃ e', concat g = .error e') ∨ ∃ ms e',
      List.Forall₂ (fun g x => concat g = .ok x) groups ms ∧ concat ms = .error e') := by
  subst hflatten
  have hne : groups ≠ [] := by
    rintro rfl
    exact hfs rfl
  obtain ⟨hsucceeds, hagrees⟩ := concat_flatten hne hgroups
  simp only [← mapM_eq_ok_iff_forall₂]
  refine ⟨fun m hm => ?_, fun e he => ?_⟩
  · obtain ⟨ms, m', hms, hm'⟩ := hsucceeds.mpr ⟨m, hm⟩
    exact ⟨ms, m', hms, hm', hagrees ms m' m hms hm' hm⟩
  · cases hms : groups.mapM concat with
    | error e' =>
        obtain ⟨g, hg, hconcat⟩ := exists_of_mapM_eq_error hms
        exact Or.inl ⟨g, hg, e', hconcat⟩
    | ok ms =>
        right
        cases hm : concat ms with
        | error e' => exact ⟨ms, e', rfl, hm⟩
        | ok m =>
            obtain ⟨m', hm'⟩ := hsucceeds.mp ⟨ms, m, hms, hm⟩
            rw [he] at hm'
            cases hm'

/-- The first fragment is a group of its own, and so neither its empty texts nor its total of
tokens are put right before the others are merged with it. -/
theorem concat_of_groups_call :
    let groups := [
      [{ assistant "" with
          toolCallId := some "", reasoning := some ""
          toolCalls := [{ index := some 1, function := { name := "look", arguments := "[" } }]
          info := some { usage := some ⟨3, 1, 2⟩ } }],
      [{ assistant "a" with toolCalls := [{ id := "x" }, { index := some 0, id := "y" }] },
        { assistant "b" with
          toolName := some "t", reasoning := some "r"
          toolCalls := [{ index := some 1, id := "z", function := { arguments := "]" } }]
          info := some { finishReason := some "stop", usage := some ⟨0, 7, 0⟩ } }]]
    let message := { assistant "ab" with
      toolName := some "t", reasoning := some "r"
      toolCalls := [{ index := some 0, id := "y" },
        { index := some 1, id := "z", function := { name := "look", arguments := "[]" } },
        { id := "x" }]
      info := some { finishReason := some "stop", usage := some ⟨3, 7, 10⟩ } }
    concat groups.flatten = .ok message ∧
      ∃ ms, List.Forall₂ (fun g x => concat g = .ok x) groups ms ∧ concat ms = .ok message := by
  intro groups message
  have hmessage : concat groups.flatten = .ok message := rfl
  have hfit : SumsFit (groups.flatten.filterMap usage?) := by decide
  obtain ⟨ms, m', hms, hm', hagrees⟩ :=
    (concat_of_groups (by simp [groups]) (by simp [groups]) rfl).1 message hmessage
  exact ⟨hmessage, ms, hms, hagrees.same hfit ▸ hm'⟩

end Message

end ChatRelay
