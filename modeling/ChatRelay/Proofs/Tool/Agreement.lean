import ChatRelay.Proofs.Tool.Assembler

/-!
# Which fragments can be assembled

Fragments of one call conflict in pairs: they can be merged just when no two of them conflict
(`Assembler.gather_isSome_iff`).  As assembly goes index by index, all fragments can be assembled
just when no two of one index conflict (`Assembler.exists_pushAll_iff`), and the order in which they
come decides nothing about it.

A call may be given an id in one assembly that it lacks in another.  If both succeed, they differ in
such ids only (`Assembler.calls_identified`).

## Main definitions

* `ToolCall.Conflicting` — two fragments have one index and conflict
* `ToolCall.Identifies` — a call is the same as another, or has an id that the other lacks
-/

namespace ChatRelay

namespace ToolCall

/-! ### Conflicts in pairs -/

theorem Agree.symm {a b : String} (h : Agree a b) : Agree b a := by
  rcases h with ha | hb | hab
  · exact Or.inr (Or.inl ha)
  · exact Or.inl hb
  · exact Or.inr (Or.inr hab.symm)

theorem Agrees.symm {c d : ToolCall} (h : c.Agrees d) : d.Agrees c :=
  ⟨h.1.symm, h.2.symm⟩

/-- Of two texts that do not conflict, the one that is picked conflicts with what either does. -/
theorem agree_pick_iff {a b : String} (h : Agree a b) (c : String) :
    Agree (pick a b) c ↔ Agree a c ∧ Agree b c := by
  unfold Agree pick at *
  by_cases ha : a = ""
  · simp [ha]
  · rcases h with h | h | h <;> simp_all

theorem agrees_join_iff {c d : ToolCall} (h : c.Agrees d) (e : ToolCall) :
    (c.join d).Agrees e ↔ c.Agrees e ∧ d.Agrees e := by
  have hid := agree_pick_iff h.1 e.id
  have hname := agree_pick_iff h.2 e.function.name
  simp only [Agrees, join]
  tauto

/-- Two fragments have one index and conflict. -/
def Conflicting (c d : ToolCall) : Prop :=
  c.index = d.index ∧ ¬ c.Agrees d

instance (c d : ToolCall) : Decidable (c.Conflicting d) :=
  inferInstanceAs (Decidable (_ ∧ _))

theorem Conflicting.symm {c d : ToolCall} (h : c.Conflicting d) : d.Conflicting c :=
  ⟨h.1.symm, fun hagrees => h.2 hagrees.symm⟩

/-- No two fragments of one index conflict, whichever comes first. -/
theorem pairwise_not_conflicting_iff {cs : List ToolCall} :
    cs.Pairwise (fun c d => ¬ c.Conflicting d) ↔
      ∀ (j k : Nat) (hj : j < cs.length) (hk : k < cs.length), j ≠ k →
        cs[j].index = cs[k].index → cs[j].Agrees cs[k] := by
  rw [List.pairwise_iff_getElem]
  constructor
  · intro h j k hj hk hne hindex
    by_contra hnot
    rcases Nat.lt_or_gt_of_ne hne with hlt | hlt
    · exact h j k hj hk hlt ⟨hindex, hnot⟩
    · exact h k j hk hj hlt (Conflicting.symm ⟨hindex, hnot⟩)
  · intro h j k hj hk hlt hconflict
    exact hconflict.2 (h j k hj hk (Nat.ne_of_lt hlt) hconflict.1)

/-! ### Calls that are given an id -/

/-- A call is the same as another, or has the id of some position where the other has none. -/
def Identifies (c d : ToolCall) : Prop :=
  d = c ∨ c.id = "" ∧ ∃ n, d = { c with id := positionalId n }

theorem positionalId_ne_empty (n : Nat) : positionalId n ≠ "" := by
  simp [positionalId]

theorem positionalId_injective : Function.Injective positionalId := by
  intro m n h
  exact Nat.repr_inj.mp ((String.append_right_inj _).mp h)

theorem Identifies.index {c d : ToolCall} (h : c.Identifies d) : d.index = c.index := by
  rcases h with rfl | ⟨-, n, rfl⟩ <;> rfl

theorem Identifies.function {c d : ToolCall} (h : c.Identifies d) : d.function = c.function := by
  rcases h with rfl | ⟨-, n, rfl⟩ <;> rfl

/-- An id that is given stays with the call, unless a fragment of it states the same id. -/
theorem Identifies.join {c d c' d' : ToolCall} (hc : c.Identifies c') (hd : d.Identifies d')
    (h : c'.Agrees d') : (c.join d).Identifies (c'.join d') := by
  have hne (n : Nat) := positionalId_ne_empty n
  obtain ⟨hid, -⟩ := h
  rcases hc with rfl | ⟨hc, m, rfl⟩
  · rcases hd with rfl | ⟨hd, n, rfl⟩
    · exact Or.inl rfl
    · by_cases hempty : c'.id = ""
      · exact Or.inr ⟨by simp [ToolCall.join, pick, hempty, hd], n,
          by simp [ToolCall.join, pick, hempty]⟩
      · exact Or.inl (by simp [ToolCall.join, pick, hempty])
  · rcases hd with rfl | ⟨hd, n, rfl⟩
    · rcases hid with hid | hid | hid
      · exact absurd hid (hne m)
      · exact Or.inr ⟨by simp [ToolCall.join, pick, hc, hid], m, by simp [ToolCall.join, pick, hne]⟩
      · exact Or.inl (by simp [ToolCall.join, pick, hc, ← hid, hne])
    · exact Or.inr ⟨by simp [ToolCall.join, pick, hc, hd], m, by simp [ToolCall.join, pick, hne]⟩

end ToolCall

namespace Assembler

open ToolCall

/-! ### Fragments of one index -/

theorem gather_some_isSome_iff {call : ToolCall} {fs : List ToolCall} :
    (gather (some call) fs).isSome ↔ (call :: fs).Pairwise Agrees := by
  induction fs generalizing call with
  | nil => simp
  | cons f fs ih =>
      rw [gather_some_cons]
      split
      · next hagrees =>
        -- What the two come to conflicts with nothing that neither does.
        rw [ih]
        simp only [List.pairwise_cons, List.forall_mem_cons, agrees_join_iff hagrees]
        grind
      · next hnot => simp [hnot]

/-- **Fragments of one call can be merged when no two of them conflict.** -/
theorem gather_isSome_iff {fs : List ToolCall} :
    (gather none fs).isSome ↔ fs.Pairwise Agrees := by
  cases fs with
  | nil => simp
  | cons f fs => exact gather_some_isSome_iff

/-- The merge of fragments that were given ids is the merge of the fragments, given an id. -/
theorem gather_identified {fs gs : List ToolCall} (h : List.Forall₂ Identifies fs gs)
    {x y : Option ToolCall} (hx : gather none fs = some x) (hy : gather none gs = some y) :
    Option.Rel Identifies x y := by
  suffices hgen : ∀ {fs gs : List ToolCall}, List.Forall₂ Identifies fs gs →
      ∀ {c d : ToolCall} {x y : Option ToolCall}, c.Identifies d → gather (some c) fs = some x →
        gather (some d) gs = some y → Option.Rel Identifies x y by
    cases h with
    | nil =>
        cases hx
        cases hy
        exact .none
    | cons hcd h => exact hgen h hcd hx hy
  clear h hx hy
  intro fs gs h
  induction h with
  | nil =>
      rintro c d _ _ hcd ⟨⟩ ⟨⟩
      exact .some hcd
  | cons hfg _ ih =>
      intro c d x y hcd hx hy
      rw [gather_some_cons] at hx hy
      split at hx
      · split at hy
        · next hagrees => exact ih (hcd.join hfg hagrees) hx hy
        · cases hy
      · cases hx

/-! ### All fragments -/

theorem forall_pairwise_at?_iff {cs : List ToolCall} (hcs : ∀ c ∈ cs, c.index ≠ none) :
    (∀ i, (at? i cs).Pairwise Agrees) ↔ cs.Pairwise fun c d => ¬ c.Conflicting d := by
  simp only [at?, List.pairwise_filter, decide_eq_true_eq]
  constructor
  · intro h
    rw [List.pairwise_iff_getElem]
    rintro j k hj hk hjk ⟨hindex, hnot⟩
    obtain ⟨i, hi⟩ := Option.ne_none_iff_exists'.mp (hcs _ (List.getElem_mem hj))
    exact hnot (List.pairwise_iff_getElem.mp (h i) j k hj hk hjk hi (hindex ▸ hi))
  · intro h i
    refine h.imp fun hcd hc hd => ?_
    by_contra hnot
    exact hcd ⟨hc.trans hd.symm, hnot⟩

/-- Fragments can be assembled when those of each index can be merged. -/
theorem exists_pushAll_iff_pairwise {cs : List ToolCall} :
    (∃ b, ({} : Assembler).pushAll cs = .ok b) ↔ ∀ i, (at? i cs).Pairwise Agrees := by
  simp only [← gather_isSome_iff]
  constructor
  · rintro ⟨b, hb⟩ i
    obtain ⟨-, hgathers⟩ := (pushAll_eq_ok_iff wellFormed_empty).mp hb
    exact Option.isSome_iff_exists.mpr ⟨_, hgathers.held i⟩
  · intro h
    rcases pushAll_cases wellFormed_empty cs with ⟨b, hb, -⟩ | ⟨e, i, -, hnone⟩
    · exact ⟨b, hb⟩
    · have hi := h i
      rw [held_empty] at hnone
      rw [hnone] at hi
      cases hi

/-- **Fragments can be assembled when no two of one index conflict.** -/
theorem exists_pushAll_iff {cs : List ToolCall} (hcs : ∀ c ∈ cs, c.index ≠ none) :
    (∃ b, ({} : Assembler).pushAll cs = .ok b) ↔ cs.Pairwise fun c d => ¬ c.Conflicting d := by
  rw [exists_pushAll_iff_pairwise, forall_pairwise_at?_iff hcs]

/-- Calls keep their indices when they are given ids. -/
theorem filter_identified {cs ds : List ToolCall} (h : List.Forall₂ Identifies cs ds)
    (i : Option UInt32) :
    List.Forall₂ Identifies (cs.filter fun c => c.index = i) (ds.filter fun d => d.index = i) := by
  refine List.rel_filter (fun c d hcd => ?_) h
  simp [hcd.index]

/-- **Fragments that were given ids are assembled to the same calls,** some of which may have an id
that they would lack. -/
theorem calls_identified {cs ds : List ToolCall} (h : List.Forall₂ Identifies cs ds)
    {a b : Assembler} (ha : ({} : Assembler).pushAll cs = .ok a)
    (hb : ({} : Assembler).pushAll ds = .ok b) : List.Forall₂ Identifies a.calls b.calls := by
  obtain ⟨hwf, hgathers⟩ := (pushAll_eq_ok_iff wellFormed_empty).mp ha
  obtain ⟨hwf', hgathers'⟩ := (pushAll_eq_ok_iff wellFormed_empty).mp hb
  have hindexed : List.Forall₂ (fun p q => p.2.Identifies q.2) a.indexed b.indexed :=
    Ascending.forall₂_of_lookup hwf.ascending hwf'.ascending fun i =>
      gather_identified (filter_identified h (some i)) (hgathers.held i) (hgathers'.held i)
  have hwhole : List.Forall₂ Identifies a.whole b.whole := by
    rw [hgathers.whole, hgathers'.whole]
    exact filter_identified h none
  exact List.rel_append
    (List.forall₂_map_left_iff.mpr (List.forall₂_map_right_iff.mpr hindexed)) hwhole

end Assembler

end ChatRelay
