import ChatRelay.Proofs.Message.Concat
import ChatRelay.Proofs.Tool.Agreement

/-!
# What fragments come to

Two fragments or more can be concatenated just when no two of them conflict: in their roles, in the
ids and names of calls with one index, or in what they say of a result (`Message.Mergeable`).  The
message is then given field by field, in terms of all fragments at once (`Message.Joins`); only the
total of its token counts is so under a condition, that no sum of counts wraps around.  Both are
closed forms of the fold that `Message.concat` is (`Message.concat_eq_ok_iff`).

Each field of a merge is a fold of its own over that field of the fragments (`Merge.AddsAll`), and
has a closed form of its own.

## Main definitions

* `ToolCall.joined` — the call that fragments of one index come to
* `TokenUsage.summary` — the counts that reports come to
* `Merge.AddsAll` — the outcome of adding fragments, field by field
* `Message.Mergeable`, `Message.Joins` — fragments without conflict, and what they come to
-/

namespace ChatRelay

open Result

/-! ### Texts -/

/-- The first of some texts that is not empty, or the empty one. -/
def firstText (texts : List String) : String :=
  (texts.find? (· ≠ "")).getD ""

/-- The texts that are given and not empty. -/
def givenTexts (texts : List (Option String)) : List String :=
  texts.reduceOption.filter (· ≠ "")

@[simp] theorem firstText_singleton (text : String) : firstText [text] = text := by
  by_cases h : text = "" <;> simp [firstText, h]

theorem pick_firstText (text : String) (texts : List String) :
    ToolCall.pick text (firstText texts) = firstText (text :: texts) := by
  by_cases h : text = "" <;> simp [ToolCall.pick, firstText, h]

@[simp] theorem givenTexts_none_cons (texts : List (Option String)) :
    givenTexts (none :: texts) = givenTexts texts := rfl

@[simp] theorem givenTexts_empty_cons (texts : List (Option String)) :
    givenTexts (some "" :: texts) = givenTexts texts := by
  simp [givenTexts]

theorem givenTexts_some_cons {t : String} (ht : t ≠ "") (texts : List (Option String)) :
    givenTexts (some t :: texts) = t :: givenTexts texts := by
  simp [givenTexts, ht]

theorem givenTexts_append (texts texts' : List (Option String)) :
    givenTexts (texts ++ texts') = givenTexts texts ++ givenTexts texts' := by
  simp [givenTexts, List.reduceOption_append]

/-! ### Calls of one index -/

namespace ToolCall

/-- The call that fragments of one index come to. -/
def joined (i : UInt32) (fragments : List ToolCall) : ToolCall where
  index := some i
  id := firstText (fragments.map id)
  kind := firstText (fragments.map kind)
  function := {
    name := firstText (fragments.map fun c => c.function.name)
    arguments := String.join (fragments.map fun c => c.function.arguments) }

theorem joined_singleton {i : UInt32} {c : ToolCall} (hc : c.index = some i) : joined i [c] = c := by
  cases c
  simp_all [joined]

theorem joined_join_cons (i : UInt32) (c d : ToolCall) (cs : List ToolCall) :
    joined i (c.join d :: cs) = joined i (c :: d :: cs) := by
  simp [joined, join, ← pick_firstText, pick_assoc, String.append_assoc]

end ToolCall

namespace Assembler

open ToolCall

/-- Fragments that can be merged come to the call that they make up. -/
theorem eq_joined_of_gather_some {i : UInt32} {call : ToolCall} (hcall : call.index = some i)
    {fs : List ToolCall} {held : Option ToolCall} (h : gather (some call) fs = some held) :
    held = some (joined i (call :: fs)) := by
  induction fs generalizing call with
  | nil =>
      cases h
      rw [joined_singleton hcall]
  | cons f fs ih =>
      rw [gather_some_cons] at h
      split at h
      · rw [ih (by simpa using hcall) h, joined_join_cons]
      · cases h

/-- What stands under an index is what its fragments make up, if there are any. -/
theorem lookup_of_gathers {cs : List ToolCall} {b : Assembler} (h : Gathers {} cs b) (i : UInt32) :
    b.indexed.lookup i = if at? i cs = [] then none else some (joined i (at? i cs)) := by
  have hi := h.held i
  rw [held_empty] at hi
  cases hfs : at? i cs with
  | nil =>
      rw [hfs, gather_nil] at hi
      exact (Option.some.inj hi).symm
  | cons f fs =>
      have hf : f ∈ at? i cs := by simp [hfs]
      have hindex : f.index = some i := by simpa using (List.mem_filter.mp hf).2
      rw [hfs, gather_none_cons] at hi
      exact eq_joined_of_gather_some hindex hi

/-- **Assembled calls** are one call for each index in ascending order, and then the calls without
an index. -/
theorem exists_calls_eq {cs : List ToolCall} {b : Assembler} (hb : b.WellFormed)
    (h : Gathers {} cs b) : ∃ indices : List UInt32, indices.Pairwise (· < ·) ∧
      (∀ i, i ∈ indices ↔ ∃ c ∈ cs, c.index = some i) ∧
      b.calls = indices.map (fun i => joined i (at? i cs)) ++ cs.filter fun c => c.index = none := by
  refine ⟨b.indexed.map Prod.fst, List.pairwise_map.mpr hb.ascending, fun i => ?_, ?_⟩
  · have hlookup := lookup_of_gathers h i
    have hat : at? i cs = [] ↔ ¬ ∃ c ∈ cs, c.index = some i := by
      simp [at?, List.filter_eq_nil_iff]
    constructor
    · intro hi
      obtain ⟨p, hp, rfl⟩ := List.mem_map.mp hi
      rw [Ascending.lookup_of_mem hb.ascending hp] at hlookup
      by_contra hnot
      rw [if_pos (hat.mpr hnot)] at hlookup
      cases hlookup
    · intro hex
      rw [if_neg fun hnil => hat.mp hnil hex] at hlookup
      exact List.mem_map.mpr ⟨_, Ascending.mem_of_lookup hlookup, rfl⟩
  · rw [calls, List.map_map, h.whole]
    congr 1
    refine List.map_congr_left fun p hp => ?_
    have hlookup := lookup_of_gathers h p.1
    rw [Ascending.lookup_of_mem hb.ascending hp] at hlookup
    split at hlookup
    · cases hlookup
    · exact Option.some.inj hlookup

/-- No two calls with one index conflict. -/
def Compatible (cs : List ToolCall) : Prop :=
  ∀ c ∈ cs, ∀ d ∈ cs, ∀ i, c.index = some i → d.index = some i → c.Agrees d

/-- Calls can be assembled when no two of one index conflict, wherever they stand. -/
theorem exists_pushAll_iff_compatible {cs : List ToolCall} :
    (∃ b, ({} : Assembler).pushAll cs = .ok b) ↔ Compatible cs := by
  have hmem (i : UInt32) : (at? i cs).Pairwise Agrees ↔
      ∀ c ∈ at? i cs, ∀ d ∈ at? i cs, c.Agrees d := by
    have hself (c : ToolCall) : c.Agrees c := ⟨Or.inr (Or.inr rfl), Or.inr (Or.inr rfl)⟩
    have : Std.Symm Agrees := ⟨fun _ _ => Agrees.symm⟩
    exact ⟨fun h c hc d hd => h.forall_of_forall (fun c _ => hself c) hc hd,
      List.pairwise_of_forall_mem_list⟩
  rw [exists_pushAll_iff_pairwise]
  simp only [hmem]
  simp only [at?, List.mem_filter, decide_eq_true_eq, Compatible]
  constructor
  · exact fun h c hc d hd i hci hdi => h i c ⟨hc, hci⟩ d ⟨hd, hdi⟩
  · exact fun h i c hc d hd => h c hc.1 d hd.1 i hc.2 hd.2

end Assembler

/-! ### Reports -/

namespace TokenUsage

/-- The greatest of a count among some reports. -/
def greatest (count : TokenUsage → UInt64) (us : List TokenUsage) : UInt64 :=
  (us.map count).foldr max 0

/-- The counts that reports come to.  One report is taken as it is.  Of several, each count is the
greatest, and the total is the sum of the other two if that is greater. -/
def summary : List TokenUsage → Option TokenUsage
  | [] => none
  | [u] => some u
  | us =>
    let prompt := greatest promptTokens us
    let completion := greatest completionTokens us
    some ⟨prompt, completion, max (greatest totalTokens us) (prompt + completion)⟩

@[simp] theorem toNat_greatest_nil (count : TokenUsage → UInt64) : (greatest count []).toNat = 0 :=
  rfl

@[simp] theorem toNat_greatest_cons (count : TokenUsage → UInt64) (u : TokenUsage)
    (us : List TokenUsage) :
    (greatest count (u :: us)).toNat = max (count u).toNat (greatest count us).toNat :=
  UInt64.toNat_max ..

theorem exists_toNat_eq_greatest (count : TokenUsage → UInt64) {us : List TokenUsage}
    (hus : us ≠ []) : ∃ u ∈ us, (count u).toNat = (greatest count us).toNat := by
  induction us with
  | nil => exact absurd rfl hus
  | cons u us ih =>
      rw [toNat_greatest_cons]
      by_cases hle : (greatest count us).toNat ≤ (count u).toNat
      · exact ⟨u, List.mem_cons_self, (Nat.max_eq_left hle).symm⟩
      · have hrest : us ≠ [] := by
          rintro rfl
          exact hle (Nat.zero_le _)
        obtain ⟨v, hv, hcount⟩ := ih hrest
        exact ⟨v, List.mem_cons_of_mem _ hv, by omega⟩

/-- Of reports that fit the greatest counts fit. -/
theorem SumsFit.greatest_add_lt {u v : TokenUsage} {us : List TokenUsage}
    (h : SumsFit (u :: v :: us)) : (greatest promptTokens (u :: v :: us)).toNat +
      (greatest completionTokens (u :: v :: us)).toNat < UInt64.size := by
  obtain ⟨hu, -⟩ := List.pairwise_cons.mp h
  have hself : ∀ x ∈ u :: v :: us, x.FitsWith x := by
    intro x hx
    have hfits : x.Fits := by
      rcases List.mem_cons.mp hx with rfl | hx
      · exact (hu v List.mem_cons_self).symm.right
      · exact (hu x hx).right
    simpa only [FitsWith, Fits, Nat.max_self] using hfits
  have : Std.Symm FitsWith := ⟨fun _ _ => FitsWith.symm⟩
  have hne : u :: v :: us ≠ [] := List.cons_ne_nil _ _
  obtain ⟨a, ha, hprompt⟩ := exists_toNat_eq_greatest promptTokens hne
  obtain ⟨b, hb, hcompletion⟩ := exists_toNat_eq_greatest completionTokens hne
  have hfits : a.FitsWith b := h.forall_of_forall hself ha hb
  rw [← hprompt, ← hcompletion]
  unfold FitsWith at hfits
  omega

/-- Two reports may be merged before the others are looked at, but for the total. -/
theorem withoutTotal_summary_merge_cons (u v : TokenUsage) (us : List TokenUsage) :
    (summary (u.merge v :: us)).map withoutTotal =
      (summary (u :: v :: us)).map withoutTotal := by
  cases us <;>
    exact congrArg some (ext_toNat (by simp [withoutTotal, Nat.max_assoc])
      (by simp [withoutTotal, Nat.max_assoc]) rfl)

/-- Two reports may be merged before the others are looked at, where no sum wraps around. -/
theorem summary_merge_cons {u v : TokenUsage} {us : List TokenUsage} (h : SumsFit (u :: v :: us)) :
    summary (u.merge v :: us) = summary (u :: v :: us) := by
  have huv : u.FitsWith v := List.rel_of_pairwise_cons h List.mem_cons_self
  have hprompt (us : List TokenUsage) : greatest promptTokens (u.merge v :: us) =
      greatest promptTokens (u :: v :: us) :=
    UInt64.toNat_inj.mp (by simp [Nat.max_assoc])
  have hcompletion (us : List TokenUsage) : greatest completionTokens (u.merge v :: us) =
      greatest completionTokens (u :: v :: us) :=
    UInt64.toNat_inj.mp (by simp [Nat.max_assoc])
  have htotal := toNat_totalTokens_merge huv
  have hsum := h.greatest_add_lt
  cases us with
  | nil =>
      refine congrArg some (ext_toNat (by simp) (by simp) ?_)
      simp only [UInt64.toNat_max, toNat_add hsum, htotal, toNat_greatest_cons, toNat_greatest_nil,
        Nat.max_zero]
  | cons w us =>
      simp only [summary, hprompt, hcompletion, Option.some.injEq, TokenUsage.mk.injEq, true_and]
      refine UInt64.toNat_inj.mp ?_
      simp only [UInt64.toNat_max, toNat_add hsum, toNat_greatest_cons, htotal]
      -- The sum of the greatest of two is no greater than that of the greatest of all.
      have hle : max u.promptTokens.toNat v.promptTokens.toNat +
          max u.completionTokens.toNat v.completionTokens.toNat ≤
            (greatest promptTokens (u :: v :: w :: us)).toNat +
              (greatest completionTokens (u :: v :: w :: us)).toNat := by
        simp only [toNat_greatest_cons]
        exact Nat.add_le_add (by omega) (by omega)
      simp only [toNat_greatest_cons] at hle
      generalize max u.promptTokens.toNat v.promptTokens.toNat + max u.completionTokens.toNat _ =
        small at hle ⊢
      generalize max u.promptTokens.toNat _ + max u.completionTokens.toNat _ = great at hle ⊢
      omega

/-- **Reports that are merged one by one** come to the counts of all, but for the total in any case
and with it where no sum wraps around. -/
theorem foldl_mergeOption_eq_summary (us : List (Option TokenUsage)) :
    (us.foldl mergeOption none).map withoutTotal =
        (summary us.reduceOption).map withoutTotal ∧
      (SumsFit us.reduceOption → us.foldl mergeOption none = summary us.reduceOption) := by
  suffices h : ∀ held, (us.foldl mergeOption held).map withoutTotal =
        (summary (held.toList ++ us.reduceOption)).map withoutTotal ∧
      (SumsFit (held.toList ++ us.reduceOption) →
        us.foldl mergeOption held = summary (held.toList ++ us.reduceOption)) from
    h none
  induction us with
  | nil =>
      intro held
      cases held <;> exact ⟨rfl, fun _ => rfl⟩
  | cons u us ih =>
      intro held
      rw [List.foldl_cons]
      match u, held with
      | none, held =>
          rw [mergeOption_none, List.reduceOption_cons_of_none]
          exact ih held
      | some v, none => exact ih (some v)
      | some v, some u =>
          obtain ⟨hothers, hsame⟩ := ih (some (u.merge v))
          rw [List.reduceOption_cons_of_some]
          exact ⟨hothers.trans (withoutTotal_summary_merge_cons u v us.reduceOption),
            fun hfit => (hsame hfit.merge_cons).trans (summary_merge_cons hfit)⟩

end TokenUsage

namespace ResponseInfo

/-- The last finish reason is the last one that is given and not empty. -/
theorem foldl_lastReason (reasons : List (Option String)) :
    reasons.foldl lastReason none = (givenTexts reasons).getLast? := by
  induction reasons using List.reverseRecOn with
  | nil => rfl
  | append_singleton reasons reason ih =>
      rw [List.foldl_concat, ih, givenTexts_append]
      cases reason with
      | none => simp [givenTexts, lastReason]
      | some r => by_cases h : r = "" <;> simp [givenTexts, lastReason, h]

end ResponseInfo

namespace Merge

/-- Reports that are added one by one: there are some when one of them is there, and each part is
merged for itself. -/
theorem foldl_addInfo (infos : List (Option ResponseInfo)) :
    (infos.foldl addInfo none = none ↔ ∀ info ∈ infos, info = none) ∧
      (infos.foldl addInfo none).bind ResponseInfo.finishReason =
        (givenTexts (infos.map fun info => info.bind ResponseInfo.finishReason)).getLast? ∧
      (infos.foldl addInfo none).bind ResponseInfo.usage =
        (infos.map fun info => info.bind ResponseInfo.usage).foldl TokenUsage.mergeOption none := by
  rw [← ResponseInfo.foldl_lastReason]
  induction infos using List.reverseRecOn with
  | nil => simp
  | append_singleton infos info ih =>
      obtain ⟨hnone, hreason, husage⟩ := ih
      simp only [List.map_append, List.map_singleton, List.foldl_concat]
      refine ⟨?_, ?_, ?_⟩
      · cases info <;> simp [addInfo, hnone, or_imp, forall_and]
      · rw [addInfo_bind_finishReason, hreason]
      · rw [addInfo_bind_usage, husage]

/-! ### Fields that are given once -/

/-- Roles can be added when they are the same. -/
theorem foldlM_addRole_eq_ok_iff {role : Role} {roles : List Role} {r : Option Role} :
    roles.foldlM addRole (some role) = .ok r ↔ (∀ x ∈ roles, x = role) ∧ r = some role := by
  induction roles with
  | nil => simp [pure, Except.pure, eq_comm]
  | cons x roles ih =>
      simp only [List.foldlM_cons, bind_eq_ok_iff, addRole_eq_ok_iff, List.forall_mem_cons]
      constructor
      · rintro ⟨_, ⟨hrole, rfl⟩, hrest⟩
        obtain rfl : role = x := by simpa using hrole
        obtain ⟨hroles, hr⟩ := ih.mp hrest
        exact ⟨⟨rfl, hroles⟩, hr⟩
      · rintro ⟨⟨rfl, hroles⟩, hr⟩
        exact ⟨_, ⟨Or.inr rfl, rfl⟩, ih.mpr ⟨hroles, hr⟩⟩

theorem foldlM_addOnce_some_eq_ok_iff {field t : String} {texts : List (Option String)}
    {r : Option String} : texts.foldlM (addOnce field) (some t) = .ok r ↔
      (∀ a ∈ givenTexts texts, a = t) ∧ r = some t := by
  induction texts with
  | nil => simp [givenTexts, pure, Except.pure, eq_comm]
  | cons text texts ih =>
      rw [List.foldlM_cons, bind_eq_ok_iff]
      by_cases hempty : text = none ∨ text = some ""
      · have hkeep : addOnce field (some t) text = .ok (some t) :=
          addOnce_eq_ok_iff.mpr (Or.inl ⟨hempty, rfl⟩)
        have hgiven : givenTexts (text :: texts) = givenTexts texts := by
          rcases hempty with rfl | rfl <;> simp
        simp [hkeep, hgiven, ih]
      · obtain ⟨v, rfl⟩ := Option.ne_none_iff_exists'.mp fun h => hempty (Or.inl h)
        have hv : v ≠ "" := fun h => hempty (Or.inr (congrArg some h))
        simp only [addOnce_some_eq_ok_iff hv, givenTexts_some_cons hv, List.forall_mem_cons]
        constructor
        · rintro ⟨_, ⟨hsame, rfl⟩, hrest⟩
          obtain rfl : t = v := by simpa using hsame
          obtain ⟨htexts, hr⟩ := ih.mp hrest
          exact ⟨⟨rfl, htexts⟩, hr⟩
        · rintro ⟨⟨rfl, htexts⟩, hr⟩
          exact ⟨_, ⟨Or.inr rfl, rfl⟩, ih.mpr ⟨htexts, hr⟩⟩

/-- A field that is given once is given by the first text that says something, and the others must
say the same. -/
theorem foldlM_addOnce_eq_ok_iff {field : String} {texts : List (Option String)}
    {r : Option String} : texts.foldlM (addOnce field) none = .ok r ↔
      (∀ a ∈ givenTexts texts, ∀ b ∈ givenTexts texts, a = b) ∧ r = (givenTexts texts).head? := by
  induction texts with
  | nil => simp [givenTexts, pure, Except.pure, eq_comm]
  | cons text texts ih =>
      rw [List.foldlM_cons, bind_eq_ok_iff]
      by_cases hempty : text = none ∨ text = some ""
      · have hkeep : addOnce field none text = .ok none :=
          addOnce_eq_ok_iff.mpr (Or.inl ⟨hempty, rfl⟩)
        have hgiven : givenTexts (text :: texts) = givenTexts texts := by
          rcases hempty with rfl | rfl <;> simp
        simp [hkeep, hgiven, ih]
      · obtain ⟨v, rfl⟩ := Option.ne_none_iff_exists'.mp fun h => hempty (Or.inl h)
        have hv : v ≠ "" := fun h => hempty (Or.inr (congrArg some h))
        have hadd (c : Option String) : addOnce field none (some v) = .ok c ↔ c = some v := by
          simp [addOnce_some_eq_ok_iff hv]
        simp only [hadd, exists_eq_left, foldlM_addOnce_some_eq_ok_iff, givenTexts_some_cons hv,
          List.head?_cons, and_congr_left_iff]
        -- All are the same when all are as the first.
        rintro -
        constructor
        · intro h a ha b hb
          have hfirst : ∀ x ∈ v :: givenTexts texts, x = v := List.forall_mem_cons.mpr ⟨rfl, h⟩
          rw [hfirst a ha, hfirst b hb]
        · exact fun h a ha => h a (List.mem_cons_of_mem _ ha) v List.mem_cons_self

/-! ### All fragments -/

/-- What adding fragments leaves behind, field by field. -/
structure AddsAll (m : Merge) (fs : List Message) (r : Merge) : Prop where
  role : (fs.map Message.role).foldlM addRole m.role = .ok r.role
  calls : m.calls.pushAll (fs.flatMap Message.toolCalls) = .ok r.calls
  toolCallId :
    (fs.map Message.toolCallId).foldlM (addOnce "tool_call_id") m.toolCallId = .ok r.toolCallId
  toolName : (fs.map Message.toolName).foldlM (addOnce "tool_name") m.toolName = .ok r.toolName
  content : r.content = m.content ++ String.join (fs.map Message.content)
  reasoning : r.reasoning = m.reasoning ++ String.join (fs.map fun f => f.reasoning.getD "")
  parts : r.parts = m.parts ++ fs.flatMap Message.parts
  info : r.info = (fs.map Message.info).foldl addInfo m.info

/-- **A merge goes field by field,** over all fragments as over one. -/
theorem foldlM_add_eq_ok_iff {m r : Merge} {fs : List Message} :
    fs.foldlM add m = .ok r ↔ AddsAll m fs r := by
  induction fs generalizing m with
  | nil =>
      constructor
      · intro h
        cases h
        exact ⟨rfl, rfl, rfl, rfl, by simp, by simp, by simp, rfl⟩
      · rintro ⟨hrole, hcalls, hid, hname, hcontent, hreasoning, hparts, hinfo⟩
        cases m
        cases r
        simp_all [pure, Except.pure]
  | cons f fs ih =>
      rw [List.foldlM_cons, bind_eq_ok_iff]
      simp only [add_eq_ok_iff, ih]
      constructor
      · rintro ⟨m', h, h'⟩
        refine ⟨?_, ?_, ?_, ?_, ?_, ?_, ?_, ?_⟩
        · exact bind_eq_ok_iff.mpr ⟨_, h.role, h'.role⟩
        · exact Assembler.pushAll_append_eq_ok_iff.mpr ⟨_, h.calls, h'.calls⟩
        · exact bind_eq_ok_iff.mpr ⟨_, h.toolCallId, h'.toolCallId⟩
        · exact bind_eq_ok_iff.mpr ⟨_, h.toolName, h'.toolName⟩
        · simp [h'.content, h.content, String.append_assoc]
        · simp [h'.reasoning, h.reasoning, String.append_assoc]
        · simp [h'.parts, h.parts]
        · simp [h'.info, h.info]
      · intro h
        obtain ⟨role, hrole, hrole'⟩ := bind_eq_ok_iff.mp h.role
        obtain ⟨calls, hcalls, hcalls'⟩ := Assembler.pushAll_append_eq_ok_iff.mp h.calls
        obtain ⟨id, hid, hid'⟩ := bind_eq_ok_iff.mp h.toolCallId
        obtain ⟨name, hname, hname'⟩ := bind_eq_ok_iff.mp h.toolName
        -- The merge after the first fragment, which must be given in full here.
        let m' : Merge := {
          role, calls, toolCallId := id, toolName := name, content := m.content ++ f.content
          reasoning := m.reasoning ++ f.reasoning.getD "", parts := m.parts ++ f.parts
          info := addInfo m.info f.info }
        refine ⟨m', ⟨hrole, hcalls, hid, hname, rfl, rfl, rfl, rfl⟩,
          hrole', hcalls', hid', hname', ?_, ?_, ?_, h.info⟩
        · simp [h.content, m', String.append_assoc]
        · simp [h.reasoning, m', String.append_assoc]
        · simp [h.parts, m']

end Merge

namespace Message

/-- No two fragments conflict. -/
structure Mergeable (fs : List Message) : Prop where
  role : ∀ f ∈ fs, ∀ g ∈ fs, f.role = g.role
  calls : Assembler.Compatible (fs.flatMap toolCalls)
  toolCallId :
    ∀ a ∈ givenTexts (fs.map toolCallId), ∀ b ∈ givenTexts (fs.map toolCallId), a = b
  toolName : ∀ a ∈ givenTexts (fs.map toolName), ∀ b ∈ givenTexts (fs.map toolName), a = b

/-- A message is what some fragments come to. -/
structure Joins (fs : List Message) (m : Message) : Prop where
  role : ∀ f ∈ fs, m.role = f.role
  content : m.content = String.join (fs.map content)
  reasoning : m.reasoning =
    let text := String.join (fs.map fun f => f.reasoning.getD "")
    if text = "" then none else some text
  parts : m.parts = fs.flatMap parts
  toolCalls : ∃ indices : List UInt32, indices.Pairwise (· < ·) ∧
    (∀ i, i ∈ indices ↔ ∃ c ∈ fs.flatMap toolCalls, c.index = some i) ∧
    m.toolCalls = indices.map (fun i => ToolCall.joined i (Assembler.at? i (fs.flatMap toolCalls))) ++
      (fs.flatMap toolCalls).filter fun c => c.index = none
  toolCallId : m.toolCallId = (givenTexts (fs.map toolCallId)).head?
  toolName : m.toolName = (givenTexts (fs.map toolName)).head?
  info : m.info = none ↔ ∀ f ∈ fs, f.info = none
  finishReason : m.finishReason? = (givenTexts (fs.map finishReason?)).getLast?
  counts : m.usage?.map TokenUsage.withoutTotal =
    (TokenUsage.summary (fs.filterMap usage?)).map TokenUsage.withoutTotal
  usage : TokenUsage.SumsFit (fs.filterMap usage?) →
    m.usage? = TokenUsage.summary (fs.filterMap usage?)

/-- Fragments come to one message, where no sum of counts wraps around. -/
theorem Joins.unique {fs : List Message} (hfs : fs ≠ [])
    (hfit : TokenUsage.SumsFit (fs.filterMap usage?)) {m n : Message} (hm : Joins fs m)
    (hn : Joins fs n) : m = n := by
  have hrole : m.role = n.role := by
    obtain ⟨f, hf⟩ := List.exists_mem_of_ne_nil fs hfs
    rw [hm.role f hf, hn.role f hf]
  have hcalls : m.toolCalls = n.toolCalls := by
    obtain ⟨is, his, hmem, hm⟩ := hm.toolCalls
    obtain ⟨js, hjs, hmem', hn⟩ := hn.toolCalls
    rw [hm, hn, his.eq_of_mem_iff hjs fun i => (hmem i).trans (hmem' i).symm]
  have hinfo : m.info = n.info := by
    have hnone : m.info = none ↔ n.info = none := hm.info.trans hn.info.symm
    have hreason : m.finishReason? = n.finishReason? := hm.finishReason.trans hn.finishReason.symm
    have husage : m.usage? = n.usage? := (hm.usage hfit).trans (hn.usage hfit).symm
    unfold finishReason? at hreason
    unfold usage? at husage
    rcases hi : m.info with _ | ⟨r, u⟩
    · rw [hnone.mp hi]
    · rcases hj : n.info with _ | ⟨r', u'⟩
      · rw [hnone.mpr hj] at hi
        cases hi
      · rw [hi, hj] at hreason husage
        simp_all
  have hcontent := hm.content.trans hn.content.symm
  have hreasoning := hm.reasoning.trans hn.reasoning.symm
  have hparts := hm.parts.trans hn.parts.symm
  have hid := hm.toolCallId.trans hn.toolCallId.symm
  have hname := hm.toolName.trans hn.toolName.symm
  cases m
  cases n
  simp_all

/-- Fragments that were added do not conflict, and the merge is what they come to. -/
theorem joins_of_addsAll {f : Message} {fs : List Message} {n : Merge}
    (h : Merge.AddsAll {} (f :: fs) n) : Mergeable (f :: fs) ∧ Joins (f :: fs) n.finish := by
  obtain ⟨hwf, hgathers⟩ := (Assembler.pushAll_eq_ok_iff Assembler.wellFormed_empty).mp h.calls
  obtain ⟨hid, hid'⟩ := Merge.foldlM_addOnce_eq_ok_iff.mp h.toolCallId
  obtain ⟨hname, hname'⟩ := Merge.foldlM_addOnce_eq_ok_iff.mp h.toolName
  obtain ⟨hnone, hreason, husage⟩ := Merge.foldl_addInfo ((f :: fs).map info)
  obtain ⟨hrole, hrole'⟩ : (∀ x ∈ fs.map role, x = f.role) ∧ n.role = some f.role :=
    Merge.foldlM_addRole_eq_ok_iff.mp h.role
  have hroles : ∀ x ∈ f :: fs, x.role = f.role :=
    List.forall_mem_cons.mpr ⟨rfl, fun x hx => hrole _ (List.mem_map_of_mem hx)⟩
  rw [← h.info, List.map_map] at hreason husage
  rw [← h.info] at hnone
  -- The reports that are there, however they are listed.
  have hreports : ((f :: fs).map usage?).reduceOption = (f :: fs).filterMap usage? := by
    rw [List.reduceOption, List.filterMap_map]
    rfl
  obtain ⟨hcounts, hsummary⟩ := TokenUsage.foldl_mergeOption_eq_summary ((f :: fs).map usage?)
  rw [hreports] at hcounts hsummary
  refine ⟨⟨fun x hx y hy => (hroles x hx).trans (hroles y hy).symm,
    Assembler.exists_pushAll_iff_compatible.mp ⟨_, h.calls⟩, hid, hname⟩, ?_⟩
  refine ⟨fun x hx => ?_, ?_, ?_, ?_, Assembler.exists_calls_eq hwf hgathers, hid', hname', ?_,
    hreason, (congrArg _ husage).trans hcounts, fun hfit => husage.trans (hsummary hfit)⟩
  · rw [hroles x hx, Merge.finish, hrole']
    rfl
  · simpa [Merge.finish] using h.content
  · have hreasoning := h.reasoning
    simp only [String.empty_append] at hreasoning
    simp [Merge.finish, hreasoning]
  · simpa [Merge.finish] using h.parts
  · simpa [Merge.finish] using hnone

/-- Fragments that do not conflict can be added. -/
theorem exists_addsAll {f : Message} {fs : List Message} (h : Mergeable (f :: fs)) :
    ∃ n, Merge.AddsAll {} (f :: fs) n := by
  obtain ⟨calls, hcalls⟩ := Assembler.exists_pushAll_iff_compatible.mpr h.calls
  have hroles : ∀ x ∈ fs.map role, x = f.role := by
    intro x hx
    obtain ⟨y, hy, rfl⟩ := List.mem_map.mp hx
    exact h.role y (List.mem_cons_of_mem _ hy) f List.mem_cons_self
  exact ⟨⟨some f.role, _, _, _, calls, _, _, _⟩,
    Merge.foldlM_addRole_eq_ok_iff.mpr ⟨hroles, rfl⟩, hcalls,
    Merge.foldlM_addOnce_eq_ok_iff.mpr ⟨h.toolCallId, rfl⟩,
    Merge.foldlM_addOnce_eq_ok_iff.mpr ⟨h.toolName, rfl⟩, rfl, rfl, rfl, rfl⟩

theorem concat_eq_ok_iff_addsAll {f g : Message} {fs : List Message} {m : Message} :
    concat (f :: g :: fs) = .ok m ↔ ∃ n, Merge.AddsAll {} (f :: g :: fs) n ∧ n.finish = m := by
  simp only [← Merge.foldlM_add_eq_ok_iff]
  exact map_eq_ok_iff

/-- **Fragments can be concatenated when no two of them conflict,** and then to what they come to,
where no sum of counts wraps around. -/
theorem concat_eq_ok_iff {f g : Message} {fs : List Message}
    (hfit : TokenUsage.SumsFit ((f :: g :: fs).filterMap usage?)) {m : Message} :
    concat (f :: g :: fs) = .ok m ↔ Mergeable (f :: g :: fs) ∧ Joins (f :: g :: fs) m := by
  rw [concat_eq_ok_iff_addsAll]
  constructor
  · rintro ⟨n, hn, rfl⟩
    exact joins_of_addsAll hn
  · rintro ⟨hmergeable, hjoins⟩
    obtain ⟨n, hn⟩ := exists_addsAll hmergeable
    exact ⟨n, hn, (joins_of_addsAll hn).2.unique (by simp) hfit hjoins⟩

/-- The calls of a single fragment are taken as they are, and those of several are assembled. -/
theorem toolCalls_of_concat {fs : List Message} {m : Message} (h : concat fs = .ok m) :
    (fs.length = 1 ∧ m.toolCalls = fs.flatMap toolCalls) ∨
      fs.length ≠ 1 ∧ ∃ b : Assembler, b.WellFormed ∧
        Assembler.Gathers {} (fs.flatMap toolCalls) b ∧ m.toolCalls = b.calls := by
  by_cases hlength : fs.length = 1
  · obtain ⟨f, rfl⟩ := List.length_eq_one_iff.mp hlength
    cases h
    exact Or.inl ⟨rfl, by simp⟩
  · have hsame : List.Forall₂ (fun f g => g = { f with toolCalls := g.toolCalls }) fs fs :=
      List.forall₂_same.mpr fun f _ => rfl
    obtain ⟨b, hb, hm⟩ := (concat_of_calls hsame hlength h).mp h
    obtain ⟨hwf, hgathers⟩ := (Assembler.pushAll_eq_ok_iff Assembler.wellFormed_empty).mp hb
    exact Or.inr ⟨hlength, b, hwf, hgathers, by rw [hm]⟩

/-- Fragments differ at most in how calls with different indices alternate. -/
structure Alternates (fs gs : List Message) : Prop where
  others : List.Forall₂ (fun f g => g = { f with toolCalls := g.toolCalls }) fs gs
  calls : ∀ i : Option UInt32, (fs.flatMap toolCalls).filter (fun c => c.index = i) =
    (gs.flatMap toolCalls).filter fun c => c.index = i

theorem Alternates.symm {fs gs : List Message} (h : Alternates fs gs) : Alternates gs fs where
  others := h.others.flip.imp fun g f hg => by rw [hg]
  calls i := (h.calls i).symm

theorem concat_of_alternates {fs gs : List Message} (h : Alternates fs gs) (hlength : fs.length ≠ 1)
    {m : Message} (hm : concat fs = .ok m) : concat gs = .ok m := by
  rcases toolCalls_of_concat hm with ⟨hone, -⟩ | ⟨-, b, hwf, hgathers, hcalls⟩
  · exact absurd hone hlength
  · -- What is assembled is determined index by index.
    have hgathers' : Assembler.Gathers {} (gs.flatMap toolCalls) b :=
      ⟨fun i => by rw [← hgathers.held i, Assembler.at?, Assembler.at?, h.calls],
        by rw [hgathers.whole, h.calls]⟩
    exact (concat_of_calls h.others hlength hm).mpr
      ⟨b, (Assembler.pushAll_eq_ok_iff Assembler.wellFormed_empty).mpr ⟨hwf, hgathers'⟩,
        by rw [← hcalls]⟩

/-- **The concatenation of fragments in closed form.**  Two fragments or more can be concatenated
just when no two of them conflict, and then to the message that they come to, field by field, the
total of the token counts where no sum of them wraps around.  How calls with different indices
alternate decides nothing. -/
theorem concat_joins (f g : Message) (fs : List Message) :
    ((∃ m, concat (f :: g :: fs) = .ok m) ↔ Mergeable (f :: g :: fs)) ∧
    (∀ m, concat (f :: g :: fs) = .ok m → Joins (f :: g :: fs) m) ∧
    ∀ gs, Alternates (f :: g :: fs) gs →
      ∀ m, concat gs = .ok m ↔ concat (f :: g :: fs) = .ok m := by
  refine ⟨⟨?_, fun h => ?_⟩, fun m hm => ?_, fun gs hgs m => ?_⟩
  · rintro ⟨m, hm⟩
    obtain ⟨n, hn, -⟩ := concat_eq_ok_iff_addsAll.mp hm
    exact (joins_of_addsAll hn).1
  · obtain ⟨n, hn⟩ := exists_addsAll h
    exact ⟨n.finish, concat_eq_ok_iff_addsAll.mpr ⟨n, hn, rfl⟩⟩
  · obtain ⟨n, hn, rfl⟩ := concat_eq_ok_iff_addsAll.mp hm
    exact (joins_of_addsAll hn).2
  · have hlength : gs.length ≠ 1 := by
      rw [← hgs.others.length_eq]
      simp
    exact ⟨concat_of_alternates hgs.symm hlength, concat_of_alternates hgs (by simp)⟩

/-- Two calls whose pieces may come in either order. -/
theorem concat_joins_pieces :
    let first : ToolCall := { index := some 1, id := "z", function := { arguments := "]" } }
    let second : ToolCall := { index := some 0, function := { name := "find", arguments := "1" } }
    let f : Message := { assistant "a" with
      toolCalls := [{ index := some 1, function := { name := "look", arguments := "[" } },
        { id := "x" }, { index := some 0, id := "y" }]
      info := some { usage := some ⟨3, 1, 2⟩ } }
    let g (calls : List ToolCall) : Message := { assistant "b" with
      toolCalls := calls, info := some { finishReason := some "stop", usage := some ⟨0, 7, 0⟩ } }
    ∃ m, concat [f, g [first, second]] = .ok m ∧ Mergeable [f, g [first, second]] ∧
      Joins [f, g [first, second]] m ∧ concat [f, g [second, first]] = .ok m := by
  intro first second f g
  obtain ⟨m, hm⟩ : ∃ m, concat [f, g [first, second]] = .ok m := ⟨_, rfl⟩
  obtain ⟨hmergeable, hjoins, halternates⟩ := concat_joins f (g [first, second]) []
  have hsame : Alternates [f, g [first, second]] [f, g [second, first]] := by
    refine ⟨.cons rfl (.cons rfl .nil), fun i => ?_⟩
    by_cases hone : some 1 = i
    · subst hone
      rfl
    · simp [f, g, first, second, List.filter_cons, hone]
  exact ⟨m, hm, hmergeable.mp ⟨m, hm⟩, hjoins m hm, (halternates _ hsame m).mpr hm⟩

end Message

end ChatRelay
