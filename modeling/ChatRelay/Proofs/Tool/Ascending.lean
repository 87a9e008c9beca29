import Mathlib

/-!
# Lists in ascending order of their index

What is kept per index of a call is kept as a list of pairs in strictly ascending order of the
index. Such a list is determined by what it holds under each index (`Ascending.ext`), so an
operation on it is described in full by the values it leaves behind (`lookup_update`).

## Main definitions

* `Ascending` — the indices of a list of pairs ascend
* `Ascending.update` — puts under an index a value computed from the one that is there
-/

namespace ChatRelay

variable {β γ : Type}

/-- The indices of a list of pairs ascend. -/
def Ascending (l : List (UInt32 × β)) : Prop :=
  l.Pairwise fun p q => p.1 < q.1

namespace Ascending

/-- Puts under an index a value computed from the one that is there. -/
def update (i : UInt32) (f : Option β → β) : List (UInt32 × β) → List (UInt32 × β)
  | [] => [(i, f none)]
  | (k, b) :: rest =>
    if k = i then (k, f (some b)) :: rest
    else if i < k then (i, f none) :: (k, b) :: rest
    else (k, b) :: update i f rest

theorem nil : Ascending ([] : List (UInt32 × β)) :=
  List.Pairwise.nil

theorem tail {p : UInt32 × β} {l : List (UInt32 × β)} (h : Ascending (p :: l)) : Ascending l :=
  (List.pairwise_cons.mp h).2

/-- Two different indices are in one order or the other. -/
theorem lt_of_ne_of_not_lt {i k : UInt32} (hne : ¬ k = i) (hlt : ¬ i < k) : k < i := by
  rcases UInt32.lt_or_le i k with h | h
  · exact absurd h hlt
  · exact UInt32.lt_of_le_of_ne h hne

/-- Positions that fit an index are told apart by their indices. -/
theorem ofNat_lt_ofNat_iff {k n : Nat} (hk : k < UInt32.size) (hn : n < UInt32.size) :
    UInt32.ofNat k < UInt32.ofNat n ↔ k < n := by
  rw [UInt32.lt_iff_toNat_lt, UInt32.toNat_ofNat_of_lt' hk, UInt32.toNat_ofNat_of_lt' hn]

/-! ### What a list holds under an index -/

theorem lookup_cons (p : UInt32 × β) (l : List (UInt32 × β)) (i : UInt32) :
    (p :: l).lookup i = if i = p.1 then some p.2 else l.lookup i := by
  by_cases h : i = p.1
  · simp [List.lookup, h]
  · simp [List.lookup, beq_false_of_ne h, h]

/-- Nothing stands under an index that lies below all others. -/
theorem lookup_eq_none_of_lt {i : UInt32} {l : List (UInt32 × β)} (h : ∀ p ∈ l, i < p.1) :
    l.lookup i = none := by
  rw [List.lookup_eq_none_iff]
  intro p hp
  simpa using UInt32.ne_of_lt (h p hp)

/-- In an ascending list nothing but the first pair stands under the first index. -/
theorem lookup_tail_self {p : UInt32 × β} {l : List (UInt32 × β)} (h : Ascending (p :: l)) :
    l.lookup p.1 = none :=
  lookup_eq_none_of_lt (List.pairwise_cons.mp h).1

/-- What stands in the list is what is found. -/
theorem lookup_of_mem {l : List (UInt32 × β)} (h : Ascending l) {i : UInt32} {b : β}
    (hmem : (i, b) ∈ l) : l.lookup i = some b := by
  induction l with
  | nil => simp at hmem
  | cons p rest ih =>
      rw [lookup_cons]
      rcases List.mem_cons.mp hmem with rfl | hrest
      · simp
      · have hlt : p.1 < i := (List.pairwise_cons.mp h).1 _ hrest
        rw [if_neg (UInt32.ne_of_lt hlt).symm]
        exact ih h.tail hrest

theorem mem_of_lookup {l : List (UInt32 × β)} {i : UInt32} {b : β} (h : l.lookup i = some b) :
    (i, b) ∈ l := by
  obtain ⟨l₁, l₂, rfl, -⟩ := List.lookup_eq_some_iff.mp h
  simp

/-- The pairs under one index are the one that is found. -/
theorem filter_index {l : List (UInt32 × β)} (h : Ascending l) (i : UInt32) :
    l.filter (fun p => p.1 = i) = (l.lookup i).toList.map (i, ·) := by
  induction l with
  | nil => rfl
  | cons p rest ih =>
      have hrest := ih h.tail
      by_cases hp : p.1 = i
      · subst hp
        rw [lookup_tail_self h] at hrest
        simp [lookup_cons, hrest]
      · simp [lookup_cons, hp, Ne.symm hp, hrest]

/-- **An ascending list is determined by what it holds under each index.** -/
theorem ext {l l' : List (UInt32 × β)} (h : Ascending l) (h' : Ascending l')
    (hlookup : ∀ i, l.lookup i = l'.lookup i) : l = l' := by
  have hmem : ∀ p : UInt32 × β, p ∈ l ↔ p ∈ l' := by
    rintro ⟨i, b⟩
    constructor
    · intro hp
      exact mem_of_lookup ((hlookup i).symm.trans (lookup_of_mem h hp))
    · intro hp
      exact mem_of_lookup ((hlookup i).trans (lookup_of_mem h' hp))
  -- In strict order no member is repeated, so the lists are permutations of each other.
  have hnodup : ∀ {l : List (UInt32 × β)}, Ascending l → l.Nodup := by
    intro l hl
    exact List.Pairwise.imp (fun hlt heq => UInt32.ne_of_lt hlt (congrArg Prod.fst heq)) hl
  have hperm : l.Perm l' := (List.perm_ext_iff_of_nodup (hnodup h) (hnodup h')).mpr hmem
  refine hperm.eq_of_pairwise (fun p q _ _ hlt hgt => ?_) h h'
  exact absurd hgt (UInt32.lt_asymm hlt)

theorem lookup_map (l : List (UInt32 × β)) (f : β → γ) (i : UInt32) :
    (l.map fun p => (p.1, f p.2)).lookup i = (l.lookup i).map f := by
  induction l with
  | nil => rfl
  | cons p rest ih =>
      rw [List.map_cons, lookup_cons, lookup_cons, ih]
      split <;> rfl

/-- Values may be replaced index by index. -/
theorem map_values {l : List (UInt32 × β)} (h : Ascending l) (f : β → γ) :
    Ascending (l.map fun p => (p.1, f p.2)) :=
  List.pairwise_map.mpr h

/-- Ascending lists whose values are related under each index are related in order. -/
theorem forall₂_of_lookup {R : β → γ → Prop} {l : List (UInt32 × β)} {l' : List (UInt32 × γ)}
    (h : Ascending l) (h' : Ascending l')
    (hlookup : ∀ i, Option.Rel R (l.lookup i) (l'.lookup i)) :
    List.Forall₂ (fun p q => R p.2 q.2) l l' := by
  -- The lists have the same indices, as they hold something under the same ones.
  have hindices : (l.map fun p => (p.1, ())) = l'.map fun q => (q.1, ()) := by
    refine ext (map_values h fun _ => ()) (map_values h' fun _ => ()) fun i => ?_
    rw [lookup_map l (fun _ => ()), lookup_map l' (fun _ => ())]
    have hi := hlookup i
    generalize l.lookup i = x, l'.lookup i = y at hi ⊢
    cases hi <;> rfl
  have hlength : l.length = l'.length := by simpa using congrArg List.length hindices
  refine List.forall₂_iff_get.mpr ⟨hlength, fun k hk hk' => ?_⟩
  have hindex : l[k].1 = l'[k].1 := by
    have hget := List.getElem_of_eq hindices (i := k) (by simpa using hk)
    simpa using hget
  have hl : l.lookup l[k].1 = some l[k].2 := lookup_of_mem h (List.getElem_mem hk)
  have hl' : l'.lookup l[k].1 = some l'[k].2 := by
    rw [hindex]
    exact lookup_of_mem h' (List.getElem_mem hk')
  have hvalue := hlookup l[k].1
  rw [hl, hl'] at hvalue
  cases hvalue with
  | some hR => exact hR

/-! ### Updates -/

/-- An update adds its index and no other. -/
theorem mem_update {i : UInt32} {f : Option β → β} {l : List (UInt32 × β)} {p : UInt32 × β}
    (h : p ∈ update i f l) : p.1 = i ∨ p ∈ l := by
  induction l with
  | nil =>
      simp only [update, List.mem_singleton] at h
      exact Or.inl (congrArg Prod.fst h)
  | cons q rest ih =>
      unfold update at h
      split at h
      · next heq =>
        rcases List.mem_cons.mp h with rfl | hrest
        · exact Or.inl heq
        · exact Or.inr (List.mem_cons_of_mem _ hrest)
      · split at h
        · rcases List.mem_cons.mp h with rfl | hrest
          · exact Or.inl rfl
          · exact Or.inr hrest
        · rcases List.mem_cons.mp h with rfl | hrest
          · exact Or.inr List.mem_cons_self
          · exact (ih hrest).imp id (List.mem_cons_of_mem _)

/-- An update keeps the order. -/
theorem update_ascending {l : List (UInt32 × β)} (h : Ascending l) (i : UInt32)
    (f : Option β → β) : Ascending (update i f l) := by
  induction l with
  | nil => exact List.pairwise_singleton _ _
  | cons q rest ih =>
      obtain ⟨hfirst, hrest⟩ := List.pairwise_cons.mp h
      unfold update
      split
      · exact List.pairwise_cons.mpr ⟨hfirst, hrest⟩
      · next hne =>
        split
        · next hlt =>
          refine List.pairwise_cons.mpr ⟨fun p hp => ?_, h⟩
          rcases List.mem_cons.mp hp with rfl | hp
          · exact hlt
          · exact UInt32.lt_trans hlt (hfirst p hp)
        · next hlt =>
          refine List.pairwise_cons.mpr ⟨fun p hp => ?_, ih hrest⟩
          rcases mem_update hp with hi | hp
          · exact hi ▸ lt_of_ne_of_not_lt hne hlt
          · exact hfirst p hp

/-- **An update changes what stands under its index and nothing else.** -/
theorem lookup_update {l : List (UInt32 × β)} (h : Ascending l) (i j : UInt32)
    (f : Option β → β) :
    (update i f l).lookup j = if j = i then some (f (l.lookup i)) else l.lookup j := by
  induction l with
  | nil => simp [update, lookup_cons]
  | cons q rest ih =>
      have hrest := ih h.tail
      unfold update
      split
      · next heq =>
        subst heq
        by_cases hj : j = q.1 <;> simp [lookup_cons, hj]
      · next hne =>
        have hne' : ¬ i = q.1 := fun e => hne e.symm
        split
        · next hlt =>
          have hnone : (q :: rest).lookup i = none := by
            refine lookup_eq_none_of_lt fun p hp => ?_
            rcases List.mem_cons.mp hp with rfl | hp
            · exact hlt
            · exact UInt32.lt_trans hlt ((List.pairwise_cons.mp h).1 p hp)
          rw [hnone, lookup_cons]
        · by_cases hj : j = i
          · subst hj
            simp [lookup_cons, hne', hrest]
          · simp [lookup_cons, hj, hrest]

end Ascending

end ChatRelay
