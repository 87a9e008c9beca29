import Mathlib
import ChatRelay.Message.Concat

/-!
# Reports about one reply

Token counts are reported cumulatively, so reports are compared field by field, and merging takes
the least report above both (`TokenUsage.merge_le`) as long as totals cover the sum of their parts.

Counts are numbers of 64 bits, and the sum of two of them may wrap around.  Where no counts of two
reports come to such a sum (`TokenUsage.SumsFit`), reports may be merged in any groups
(`addInfo_assoc`).  Where some do, only the total depends on the groups, as the other two counts are
kept apart by maps that respect merging and leave nothing to be added up (`TokenUsage.IsPart`).

## Main definitions

* `TokenUsage.Covers` — a total is at least the sum
* `TokenUsage.Fits`, `TokenUsage.SumsFit` — the counts of one report, and of any two, can be added
* `TokenUsage.mergeOption` — the merge of two reports that may be absent
* `TokenUsage.IsPart` — one count of a report, taken for itself
-/

namespace ChatRelay

namespace TokenUsage

/-- One report is at most another, field by field. -/
instance : LE TokenUsage where
  le a b := a.promptTokens ≤ b.promptTokens ∧ a.completionTokens ≤ b.completionTokens ∧
    a.totalTokens ≤ b.totalTokens

instance (a b : TokenUsage) : Decidable (a ≤ b) :=
  inferInstanceAs (Decidable (_ ∧ _ ∧ _))

theorem le_iff {a b : TokenUsage} : a ≤ b ↔ a.promptTokens.toNat ≤ b.promptTokens.toNat ∧
    a.completionTokens.toNat ≤ b.completionTokens.toNat ∧
    a.totalTokens.toNat ≤ b.totalTokens.toNat := Iff.rfl

/-- Reports are told apart by the numbers that they state. -/
theorem ext_toNat {a b : TokenUsage} (hprompt : a.promptTokens.toNat = b.promptTokens.toNat)
    (hcompletion : a.completionTokens.toNat = b.completionTokens.toNat)
    (htotal : a.totalTokens.toNat = b.totalTokens.toNat) : a = b := by
  cases a
  cases b
  rw [TokenUsage.mk.injEq]
  exact ⟨UInt64.toNat_inj.mp hprompt, UInt64.toNat_inj.mp hcompletion, UInt64.toNat_inj.mp htotal⟩

theorem le_refl (a : TokenUsage) : a ≤ a :=
  ⟨UInt64.le_refl _, UInt64.le_refl _, UInt64.le_refl _⟩

theorem le_antisymm {a b : TokenUsage} (h : a ≤ b) (h' : b ≤ a) : a = b := by
  rw [le_iff] at h h'
  exact ext_toNat (by omega) (by omega) (by omega)

/-! ### Sums that fit -/

/-- The total is at least the sum, which then does not wrap around. -/
def Covers (a : TokenUsage) : Prop :=
  a.promptTokens.toNat + a.completionTokens.toNat ≤ a.totalTokens.toNat

/-- The counts of a report can be added. -/
def Fits (a : TokenUsage) : Prop :=
  a.promptTokens.toNat + a.completionTokens.toNat < UInt64.size

/-- The counts of two reports can be added, whichever report each is taken from. -/
def FitsWith (a b : TokenUsage) : Prop :=
  max a.promptTokens.toNat b.promptTokens.toNat +
    max a.completionTokens.toNat b.completionTokens.toNat < UInt64.size

/-- No merge of some reports, in whatever groups, adds counts whose sum wraps around. A report that
is the only one is merged with none. -/
def SumsFit (us : List TokenUsage) : Prop :=
  us.Pairwise FitsWith

instance (a : TokenUsage) : Decidable a.Fits :=
  inferInstanceAs (Decidable (_ < _))

instance (a b : TokenUsage) : Decidable (a.FitsWith b) :=
  inferInstanceAs (Decidable (_ < _))

instance (us : List TokenUsage) : Decidable (SumsFit us) :=
  inferInstanceAs (Decidable (us.Pairwise FitsWith))

theorem toNat_add {a b : UInt64} (h : a.toNat + b.toNat < UInt64.size) :
    (a + b).toNat = a.toNat + b.toNat := by
  rw [UInt64.toNat_add]
  exact Nat.mod_eq_of_lt h

theorem FitsWith.symm {a b : TokenUsage} (h : a.FitsWith b) : b.FitsWith a := by
  unfold FitsWith at h ⊢
  omega

theorem FitsWith.right {a b : TokenUsage} (h : a.FitsWith b) : b.Fits := by
  unfold FitsWith at h
  unfold Fits
  omega

/-- A report whose total covers the sum bounds what is merged of smaller ones. -/
theorem fitsWith_of_le {a b c : TokenUsage} (hc : c.Covers) (ha : a ≤ c) (hb : b ≤ c) :
    a.FitsWith b := by
  rw [le_iff] at ha hb
  unfold Covers at hc
  have htotal := c.totalTokens.toNat_lt_size
  unfold FitsWith
  omega

/-! ### Merging -/

@[simp] theorem toNat_promptTokens_merge (a b : TokenUsage) : (a.merge b).promptTokens.toNat =
    max a.promptTokens.toNat b.promptTokens.toNat :=
  UInt64.toNat_max ..

@[simp] theorem toNat_completionTokens_merge (a b : TokenUsage) :
    (a.merge b).completionTokens.toNat =
      max a.completionTokens.toNat b.completionTokens.toNat :=
  UInt64.toNat_max ..

theorem toNat_totalTokens_merge {a b : TokenUsage} (h : a.FitsWith b) :
    (a.merge b).totalTokens.toNat = max (max a.totalTokens.toNat b.totalTokens.toNat)
      (max a.promptTokens.toNat b.promptTokens.toNat +
        max a.completionTokens.toNat b.completionTokens.toNat) := by
  rw [FitsWith, ← UInt64.toNat_max, ← UInt64.toNat_max] at h
  simp only [merge, UInt64.toNat_max, toNat_add h]

/-- What fits with each of two reports that fit fits with their merge. -/
theorem FitsWith.merge {a b c : TokenUsage} (hab : a.FitsWith b) (hac : a.FitsWith c)
    (hbc : b.FitsWith c) : (a.merge b).FitsWith c := by
  unfold FitsWith at hab hac hbc ⊢
  rw [toNat_promptTokens_merge, toNat_completionTokens_merge]
  omega

/-- **Reports may be merged in any groups,** where no sum wraps around. -/
theorem merge_assoc {a b c : TokenUsage} (hab : a.FitsWith b) (hac : a.FitsWith c)
    (hbc : b.FitsWith c) : (a.merge b).merge c = a.merge (b.merge c) := by
  have hleft : (a.merge b).FitsWith c := hab.merge hac hbc
  have hright : a.FitsWith (b.merge c) := (hbc.merge hab.symm hac.symm).symm
  refine ext_toNat ?_ ?_ ?_
  · simp only [toNat_promptTokens_merge]
    omega
  · simp only [toNat_completionTokens_merge]
    omega
  · rw [toNat_totalTokens_merge hleft, toNat_totalTokens_merge hab, toNat_totalTokens_merge hright,
      toNat_totalTokens_merge hbc]
    simp only [toNat_promptTokens_merge, toNat_completionTokens_merge]
    -- The sum over two reports is no greater than that over all three, and no more matters of it.
    have hab_le : max a.promptTokens.toNat b.promptTokens.toNat +
        max a.completionTokens.toNat b.completionTokens.toNat ≤
          max a.promptTokens.toNat (max b.promptTokens.toNat c.promptTokens.toNat) +
            max a.completionTokens.toNat
              (max b.completionTokens.toNat c.completionTokens.toNat) :=
      Nat.add_le_add (by omega) (by omega)
    have hbc_le : max b.promptTokens.toNat c.promptTokens.toNat +
        max b.completionTokens.toNat c.completionTokens.toNat ≤
          max a.promptTokens.toNat (max b.promptTokens.toNat c.promptTokens.toNat) +
            max a.completionTokens.toNat
              (max b.completionTokens.toNat c.completionTokens.toNat) :=
      Nat.add_le_add (by omega) (by omega)
    rw [Nat.max_assoc a.promptTokens.toNat, Nat.max_assoc a.completionTokens.toNat]
    generalize max a.promptTokens.toNat b.promptTokens.toNat + max a.completionTokens.toNat _ = sab
      at hab_le ⊢
    generalize max b.promptTokens.toNat c.promptTokens.toNat + max b.completionTokens.toNat _ = sbc
      at hbc_le ⊢
    generalize max a.promptTokens.toNat _ + max a.completionTokens.toNat _ = sabc at *
    omega

theorem le_merge_left (a b : TokenUsage) : a ≤ a.merge b := by
  rw [le_iff, toNat_promptTokens_merge, toNat_completionTokens_merge]
  simp only [merge, UInt64.toNat_max]
  omega

theorem le_merge_right (a b : TokenUsage) : b ≤ a.merge b := by
  rw [le_iff, toNat_promptTokens_merge, toNat_completionTokens_merge]
  simp only [merge, UInt64.toNat_max]
  omega

/-- **A merge is the least report above both** among those whose total covers the sum. -/
theorem merge_le {a b c : TokenUsage} (hc : c.Covers) (ha : a ≤ c) (hb : b ≤ c) :
    a.merge b ≤ c := by
  have hfits := fitsWith_of_le hc ha hb
  rw [le_iff] at ha hb ⊢
  unfold Covers at hc
  rw [toNat_promptTokens_merge, toNat_completionTokens_merge, toNat_totalTokens_merge hfits]
  omega

/-! ### Reports that may be absent -/

/-- The merge of two reports that may be absent. -/
def mergeOption : Option TokenUsage → Option TokenUsage → Option TokenUsage
  | some a, some b => some (a.merge b)
  | none, some b => some b
  | a, none => a

@[simp] theorem mergeOption_none (a : Option TokenUsage) : mergeOption a none = a := by
  cases a <;> rfl

@[simp] theorem none_mergeOption (a : Option TokenUsage) : mergeOption none a = a := by
  cases a <;> rfl

theorem mergeOption_assoc {a b c : Option TokenUsage}
    (h : SumsFit (a.toList ++ b.toList ++ c.toList)) :
    mergeOption (mergeOption a b) c = mergeOption a (mergeOption b c) := by
  match a, b, c with
  | none, _, _ | _, none, _ | _, _, none => simp
  | some a, some b, some c =>
      obtain ⟨ha, hb⟩ := List.pairwise_cons.mp h
      have hbc : b.FitsWith c := List.rel_of_pairwise_cons hb (by simp)
      exact congrArg some (merge_assoc (ha b (by simp)) (ha c (by simp)) hbc)

theorem sumsFit_singleton (u : TokenUsage) : SumsFit [u] :=
  List.pairwise_singleton ..

theorem SumsFit.merge_cons {u v : TokenUsage} {us : List TokenUsage} (h : SumsFit (u :: v :: us)) :
    SumsFit (u.merge v :: us) := by
  obtain ⟨hu, h⟩ := List.pairwise_cons.mp h
  obtain ⟨hv, hus⟩ := List.pairwise_cons.mp h
  refine List.pairwise_cons.mpr ⟨fun w hw => ?_, hus⟩
  exact (hu v List.mem_cons_self).merge (hu w (List.mem_cons_of_mem _ hw)) (hv w hw)

/-- Reports that were merged still fit with the others. -/
theorem SumsFit.mergeOption {a b : Option TokenUsage} {others : List TokenUsage}
    (h : SumsFit (a.toList ++ b.toList ++ others)) :
    SumsFit ((mergeOption a b).toList ++ others) := by
  match a, b with
  | none, none | none, some _ | some _, none => simpa using h
  | some u, some v => exact SumsFit.merge_cons h

theorem SumsFit.perm {us vs : List TokenUsage} (h : SumsFit us) (hperm : us.Perm vs) :
    SumsFit vs :=
  List.Pairwise.perm h hperm FitsWith.symm

/-! ### Cumulative reports -/

/-- A merge stays below what both reports stay below. -/
theorem mergeOption_le {a b : Option TokenUsage} {t : TokenUsage} (ht : t.Covers)
    (ha : ∀ v ∈ a, v ≤ t) (hb : ∀ v ∈ b, v ≤ t) : ∀ v ∈ mergeOption a b, v ≤ t := by
  cases a with
  | none => simpa using hb
  | some u =>
      cases b with
      | none => simpa using ha
      | some v =>
          intro w hw
          cases hw
          exact merge_le ht (ha u rfl) (hb v rfl)

/-- A report that exceeds what was merged before takes its place. -/
theorem mergeOption_eq_right {a : Option TokenUsage} {t : TokenUsage} (ht : t.Covers)
    (ha : ∀ v ∈ a, v ≤ t) : mergeOption a (some t) = some t := by
  cases a with
  | none => rfl
  | some u =>
      have hle : u.merge t ≤ t := merge_le ht (ha u rfl) (le_refl t)
      rw [mergeOption, le_antisymm hle (le_merge_right u t)]

/-- A report that exceeds what comes later stays as it is. -/
theorem mergeOption_eq_left {b : Option TokenUsage} {t : TokenUsage} (ht : t.Covers)
    (hb : ∀ v ∈ b, v ≤ t) : mergeOption (some t) b = some t := by
  cases b with
  | none => rfl
  | some v =>
      have hle : t.merge v ≤ t := merge_le ht (le_refl t) (hb v rfl)
      rw [mergeOption, le_antisymm hle (le_merge_left t v)]

/-- Absent reports are passed over. -/
theorem foldl_mergeOption_reduceOption (us : List (Option TokenUsage)) (held : Option TokenUsage) :
    us.foldl mergeOption held =
      us.reduceOption.foldl (fun held u => mergeOption held (some u)) held := by
  induction us generalizing held with
  | nil => rfl
  | cons u us ih => cases u <;> simp [ih]

/-- Two reports at most are merged as they are. -/
theorem foldl_mergeOption_toList (a b : Option TokenUsage) :
    (a.toList ++ b.toList).foldl (fun held u => mergeOption held (some u)) none =
      mergeOption a b := by
  cases a <;> cases b <;> rfl

/-- **Cumulative reports settle on the greatest.**  Where no report exceeds one of them, the merge
of all is that one. -/
theorem foldl_mergeOption {t : TokenUsage} (ht : t.Covers) {us : List TokenUsage}
    (hle : ∀ u ∈ us, u ≤ t) (hmem : t ∈ us) :
    us.foldl (fun held u => mergeOption held (some u)) none = some t := by
  -- Whatever was merged before stays below `t`, and once `t` came it is what was merged.
  suffices h : ∀ held : Option TokenUsage, (∀ v ∈ held, v ≤ t) → (held = some t ∨ t ∈ us) →
      us.foldl (fun held u => mergeOption held (some u)) held = some t from
    h none (by simp) (Or.inr hmem)
  clear hmem
  induction us with
  | nil =>
      intro held _ h
      simpa using h
  | cons u us ih =>
      intro held hheld h
      have hu : ∀ v ∈ some u, v ≤ t := by simpa using hle u List.mem_cons_self
      refine ih (fun w hw => hle w (List.mem_cons_of_mem _ hw)) _ (mergeOption_le ht hheld hu) ?_
      rcases h with rfl | h
      · exact Or.inl (mergeOption_eq_left ht hu)
      · rcases List.mem_cons.mp h with rfl | h
        · exact Or.inl (mergeOption_eq_right ht hheld)
        · exact Or.inr h

/-- A report whose total is raised to the sum of its counts, as it is computed. -/
def raised (u : TokenUsage) : TokenUsage :=
  { u with totalTokens := max (u.promptTokens + u.completionTokens) u.totalTokens }

theorem covers_raised {u : TokenUsage} (h : u.Fits) : u.raised.Covers := by
  rw [Covers, raised, UInt64.toNat_max, toNat_add h]
  exact Nat.le_max_left ..

/-- A raised report stays below what covers its sum and its own total. -/
theorem raised_le {u t : TokenUsage} (ht : t.Covers) (hle : u ≤ t) : u.raised ≤ t := by
  have hfits : u.Fits := (fitsWith_of_le ht hle hle).right
  rw [le_iff] at hle ⊢
  unfold Covers at ht
  simp only [raised, UInt64.toNat_max, toNat_add hfits]
  omega

/-- Of reports that fit the last one covers its sum, unless it is the only one. -/
theorem eq_singleton_or_covers {us : List TokenUsage} (hfit : SumsFit (us.map raised))
    {t : TokenUsage} (ht : (us.map raised).getLast? = some t) :
    us.map raised = [t] ∨ t.Covers := by
  obtain ⟨before, hbefore⟩ := List.getLast?_eq_some_iff.mp ht
  match before with
  | [] => exact Or.inl hbefore
  | first :: before =>
      rw [hbefore] at hfit
      have hfits : t.Fits := ((List.pairwise_cons.mp hfit).1 t (by simp)).right
      obtain ⟨u, -, rfl⟩ := List.mem_map.mp (List.mem_of_getLast? ht)
      exact Or.inr (covers_raised hfits)

/-- Cumulative reports come to the last one, if there is any. -/
theorem foldl_mergeOption_eq {us : List (Option TokenUsage)} {last : Option TokenUsage}
    (hcovers : ∀ t ∈ last, us.reduceOption = [t] ∨ t.Covers)
    (hle : ∀ u ∈ us.reduceOption, ∀ t ∈ last, u ≤ t)
    (hlast : us.reduceOption.getLast? = last) : us.foldl mergeOption none = last := by
  rw [foldl_mergeOption_reduceOption]
  cases last with
  | none => rw [List.getLast?_eq_none_iff.mp hlast, List.foldl_nil]
  | some t =>
      rcases hcovers t rfl with hone | ht
      · rw [hone]
        rfl
      · have hmem : t ∈ us.reduceOption := List.mem_of_getLast? hlast
        exact foldl_mergeOption ht (fun u hu => hle u hu t rfl) hmem

/-! ### One count of a report -/

/-- A map keeps one count of a report: it respects merging, and leaves nothing to be added up. -/
structure IsPart (f : TokenUsage → TokenUsage) : Prop where
  merge : ∀ u v, f (u.merge v) = (f u).merge (f v)
  covers : ∀ u, (f u).Covers
  le : ∀ u v, u.promptTokens ≤ v.promptTokens → u.completionTokens ≤ v.completionTokens → f u ≤ f v

theorem max_zero_zero : max (0 : UInt64) 0 = 0 := rfl

/-- The prompt of a report, which is then its total. -/
def promptPart (u : TokenUsage) : TokenUsage :=
  ⟨u.promptTokens, 0, u.promptTokens⟩

/-- The completion of a report, which is then its total. -/
def completionPart (u : TokenUsage) : TokenUsage :=
  ⟨0, u.completionTokens, u.completionTokens⟩

theorem isPart_promptPart : IsPart promptPart where
  merge u v := ext_toNat (by simp [promptPart]) (by simp [promptPart])
    (by simp [promptPart, TokenUsage.merge, max_zero_zero, UInt64.toNat_max])
  covers u := by simp [promptPart, Covers]
  le u v hprompt _ := ⟨hprompt, UInt64.le_refl _, hprompt⟩

theorem isPart_completionPart : IsPart completionPart where
  merge u v := ext_toNat (by simp [completionPart]) (by simp [completionPart])
    (by simp [completionPart, TokenUsage.merge, max_zero_zero, UInt64.toNat_max])
  covers u := by simp [completionPart, Covers]
  le u v _ hcompletion := ⟨UInt64.le_refl _, hcompletion, hcompletion⟩

/-- A report without its total. -/
def withoutTotal (u : TokenUsage) : TokenUsage :=
  { u with totalTokens := 0 }

/-- The parts of a report make up all but the total. -/
theorem map_withoutTotal_eq {a b : Option TokenUsage}
    (h : ∀ f, IsPart f → a.map f = b.map f) : a.map withoutTotal = b.map withoutTotal := by
  have hprompt := h _ isPart_promptPart
  have hcompletion := h _ isPart_completionPart
  match a, b with
  | none, none => rfl
  | none, some _ | some _, none => cases hprompt
  | some a, some b => simp_all [promptPart, completionPart, withoutTotal]

namespace IsPart

variable {f : TokenUsage → TokenUsage} (hf : IsPart f)
include hf

theorem sumsFit (us : List TokenUsage) : SumsFit (us.map f) := by
  refine List.pairwise_map.mpr (List.pairwise_of_forall fun u v => ?_)
  have hcovers := hf.covers (u.merge v)
  rw [hf.merge] at hcovers
  exact fitsWith_of_le hcovers (le_merge_left ..) (le_merge_right ..)

theorem map_mergeOption (a b : Option TokenUsage) :
    (mergeOption a b).map f = mergeOption (a.map f) (b.map f) := by
  cases a <;> cases b <;> simp [mergeOption, hf.merge]

theorem map_foldl (us : List (Option TokenUsage)) (held : Option TokenUsage) :
    (us.foldl mergeOption held).map f = (us.map (Option.map f)).foldl mergeOption (held.map f) := by
  induction us generalizing held with
  | nil => rfl
  | cons u us ih => rw [List.foldl_cons, ih, hf.map_mergeOption, List.map_cons, List.foldl_cons]

end IsPart

/-- Whatever their sums are, cumulative reports come to the last one but for the total. -/
theorem map_withoutTotal_foldl_eq {us : List (Option TokenUsage)} {last : Option TokenUsage}
    (hle : ∀ u ∈ us.reduceOption, ∀ t ∈ last,
      u.promptTokens ≤ t.promptTokens ∧ u.completionTokens ≤ t.completionTokens)
    (hlast : us.reduceOption.getLast? = last) :
    (us.foldl mergeOption none).map withoutTotal = last.map withoutTotal := by
  refine map_withoutTotal_eq fun f hf => ?_
  have hreduce : (us.map (Option.map f)).reduceOption = us.reduceOption.map f :=
    List.reduceOption_map
  rw [hf.map_foldl]
  refine foldl_mergeOption_eq ?_ ?_ ?_
  · intro t ht
    obtain ⟨u, -, rfl⟩ := Option.mem_map.mp ht
    exact Or.inr (hf.covers u)
  · rw [hreduce]
    intro u hu t ht
    obtain ⟨v, hv, rfl⟩ := List.mem_map.mp hu
    obtain ⟨w, hw, rfl⟩ := Option.mem_map.mp ht
    obtain ⟨hprompt, hcompletion⟩ := hle v hv w hw
    exact hf.le v w hprompt hcompletion
  · rw [hreduce, List.getLast?_map, hlast]

/-- **Cumulative reports come to the last one,** as their totals are computed: for all but the total
in any case, and for that too where no sum wraps around. -/
theorem foldl_raised {us : List (Option TokenUsage)} {last : Option TokenUsage}
    (hle : ∀ u ∈ us.reduceOption, ∀ t ∈ last, u ≤ t)
    (hlast : (us.map (Option.map raised)).reduceOption.getLast? = last) :
    ((us.map (Option.map raised)).foldl mergeOption none).map withoutTotal =
        last.map withoutTotal ∧
      (SumsFit (us.map (Option.map raised)).reduceOption →
        (us.map (Option.map raised)).foldl mergeOption none = last) := by
  have hreduce : (us.map (Option.map raised)).reduceOption = us.reduceOption.map raised :=
    List.reduceOption_map
  constructor
  · refine map_withoutTotal_foldl_eq (fun u hu t ht => ?_) hlast
    rw [hreduce] at hu
    obtain ⟨v, hv, rfl⟩ := List.mem_map.mp hu
    obtain ⟨hprompt, hcompletion, -⟩ := hle v hv t ht
    exact ⟨hprompt, hcompletion⟩
  · intro hfit
    rw [hreduce] at hfit
    have hcovers : ∀ t ∈ last, us.reduceOption.map raised = [t] ∨ t.Covers := by
      intro t ht
      refine eq_singleton_or_covers hfit ?_
      rw [← hreduce, hlast]
      exact ht
    refine foldl_mergeOption_eq (hreduce ▸ hcovers) (fun u hu t ht => ?_) hlast
    rw [hreduce] at hu
    rcases hcovers t ht with hone | hcovers
    · rw [hone] at hu
      rw [List.mem_singleton.mp hu]
      exact le_refl t
    · obtain ⟨v, hv, rfl⟩ := List.mem_map.mp hu
      exact raised_le hcovers (hle v hv t ht)

end TokenUsage

namespace ResponseInfo

theorem lastReason_assoc (a b c : Option String) :
    lastReason (lastReason a b) c = lastReason a (lastReason b c) := by
  cases c with
  | none => rfl
  | some r =>
      by_cases hr : r = "" <;> simp [lastReason, hr]

@[simp] theorem lastReason_none (a : Option String) : lastReason a none = a := rfl

theorem none_lastReason {a : Option String} (h : a ≠ some "") : lastReason none a = a := by
  cases a with
  | none => rfl
  | some r => simp [lastReason, show r ≠ "" from fun hr => h (congrArg some hr)]

theorem merge_assoc {a b c : ResponseInfo}
    (h : TokenUsage.SumsFit (a.usage.toList ++ b.usage.toList ++ c.usage.toList)) :
    (a.merge b).merge c = a.merge (b.merge c) := by
  simp only [merge, ResponseInfo.mk.injEq]
  exact ⟨lastReason_assoc .., TokenUsage.mergeOption_assoc h⟩

@[simp] theorem merge_empty (a : ResponseInfo) : a.merge {} = a := by
  obtain ⟨reason, usage⟩ := a
  cases usage <;> rfl

theorem merge_empty_merge (a b : ResponseInfo) :
    a.merge (({} : ResponseInfo).merge b) = a.merge b := by
  simp only [merge, ResponseInfo.mk.injEq]
  refine ⟨(lastReason_assoc ..).symm, ?_⟩
  cases a.usage <;> cases b.usage <;> rfl

end ResponseInfo

namespace Merge

/-- The counts of a report that may be absent, as a list of one at most. -/
def usages (info : Option ResponseInfo) : List TokenUsage :=
  (info.bind ResponseInfo.usage).toList

theorem addInfo_bind_finishReason (a b : Option ResponseInfo) :
    (addInfo a b).bind ResponseInfo.finishReason = ResponseInfo.lastReason
      (a.bind ResponseInfo.finishReason) (b.bind ResponseInfo.finishReason) := by
  cases b with
  | none => rfl
  | some j => cases a <;> rfl

theorem addInfo_bind_usage (a b : Option ResponseInfo) :
    (addInfo a b).bind ResponseInfo.usage = TokenUsage.mergeOption
      (a.bind ResponseInfo.usage) (b.bind ResponseInfo.usage) := by
  cases b with
  | none => simp [addInfo]
  | some j => cases a <;> rfl

/-- Counts that were merged still fit with the others. -/
theorem sumsFit_addInfo {a b : Option ResponseInfo} {others : List TokenUsage}
    (h : TokenUsage.SumsFit (usages a ++ usages b ++ others)) :
    TokenUsage.SumsFit (usages (addInfo a b) ++ others) := by
  rw [usages, addInfo_bind_usage]
  exact h.mergeOption

theorem addInfo_none_addInfo (a b : Option ResponseInfo) :
    addInfo a (addInfo none b) = addInfo a b := by
  cases b with
  | none => rfl
  | some i => simp [addInfo, ResponseInfo.merge_empty_merge]

/-- **Reports of fragments may be merged in any groups,** where no sum wraps around. -/
theorem addInfo_assoc {a b c : Option ResponseInfo}
    (h : TokenUsage.SumsFit (usages a ++ usages b ++ usages c)) :
    addInfo (addInfo a b) c = addInfo a (addInfo b c) := by
  match a, b, c with
  | _, _, none => rfl
  | a, none, some i => exact (addInfo_none_addInfo a (some i)).symm
  | none, some j, some i => exact congrArg some (ResponseInfo.merge_assoc (a := {}) h)
  | some k, some j, some i => exact congrArg some (ResponseInfo.merge_assoc h)

end Merge

end ChatRelay
