import Mathlib
import ChatRelay.Error

/-!
# Outcomes of steps in a row

A run of steps succeeds when each of them does, and fails with the first error.  So it fails only
with errors of a kind that its steps fail with (`FailsOnly`), and never with one that none of them
fails with, as that of a consumer who cancelled (`NeverCancelled`).
-/

namespace ChatRelay.Result

variable {α β : Type}

theorem bind_eq_ok_iff {x : Result α} {f : α → Result β} {b : β} :
    (x >>= f) = .ok b ↔ ∃ a, x = .ok a ∧ f a = .ok b := by
  cases x with
  | error e => simp [bind, Except.bind]
  | ok a => simp [bind, Except.bind]

theorem map_eq_ok_iff {x : Result α} {f : α → β} {b : β} :
    x.map f = .ok b ↔ ∃ a, x = .ok a ∧ f a = b := by
  cases x with
  | error e => simp [Except.map]
  | ok a => simp [Except.map]

theorem foldlM_append_eq_ok_iff {f : β → α → Result β} {b c : β} {xs ys : List α} :
    (xs ++ ys).foldlM f b = .ok c ↔ ∃ d, xs.foldlM f b = .ok d ∧ ys.foldlM f d = .ok c := by
  rw [List.foldlM_append]
  exact bind_eq_ok_iff

theorem mapM_cons_eq_ok_iff {f : α → Result β} {x : α} {xs : List α} {ys : List β} :
    (x :: xs).mapM f = .ok ys ↔ ∃ z zs, f x = .ok z ∧ xs.mapM f = .ok zs ∧ ys = z :: zs := by
  rw [List.mapM_cons]
  simp only [bind_eq_ok_iff]
  constructor
  · rintro ⟨z, hz, zs, hzs, h⟩
    cases h
    exact ⟨z, zs, hz, hzs, rfl⟩
  · rintro ⟨z, zs, hz, hzs, rfl⟩
    exact ⟨z, hz, zs, hzs, rfl⟩

theorem mapM_append_eq_ok_iff {f : α → Result β} {xs xs' : List α} {ys : List β} :
    (xs ++ xs').mapM f = .ok ys ↔
      ∃ zs zs', xs.mapM f = .ok zs ∧ xs'.mapM f = .ok zs' ∧ ys = zs ++ zs' := by
  rw [List.mapM_append]
  simp only [bind_eq_ok_iff]
  constructor
  · rintro ⟨zs, hzs, zs', hzs', h⟩
    cases h
    exact ⟨zs, zs', hzs, hzs', rfl⟩
  · rintro ⟨zs, zs', hzs, hzs', rfl⟩
    exact ⟨zs, hzs, zs', hzs', rfl⟩

/-- A step is taken for each member of a list when each step succeeds. -/
theorem mapM_eq_ok_iff_forall₂ {f : α → Result β} {xs : List α} {ys : List β} :
    xs.mapM f = .ok ys ↔ List.Forall₂ (fun x y => f x = .ok y) xs ys := by
  induction xs generalizing ys with
  | nil => simp [pure, Except.pure, eq_comm]
  | cons x xs ih =>
      rw [mapM_cons_eq_ok_iff]
      constructor
      · rintro ⟨z, zs, hz, hzs, rfl⟩
        exact .cons hz (ih.mp hzs)
      · rintro (_ | ⟨hz, hzs⟩)
        exact ⟨_, _, hz, ih.mpr hzs, rfl⟩

/-- Where all steps succeed, each does. -/
theorem exists_of_mapM_eq_ok {f : α → Result β} {xs : List α} {ys : List β}
    (h : xs.mapM f = .ok ys) : ∀ x ∈ xs, ∃ y, f x = .ok y := by
  induction xs generalizing ys with
  | nil => simp
  | cons x xs ih =>
      obtain ⟨y, ys', hy, hys, -⟩ := mapM_cons_eq_ok_iff.mp h
      intro x' hx'
      rcases List.mem_cons.mp hx' with rfl | hx'
      · exact ⟨y, hy⟩
      · exact ih hys x' hx'

/-- What comes of the steps comes of one of them each. -/
theorem exists_of_mem_of_mapM_eq_ok {f : α → Result β} {xs : List α} {ys : List β}
    (h : xs.mapM f = .ok ys) : ∀ y ∈ ys, ∃ x ∈ xs, f x = .ok y := by
  induction xs generalizing ys with
  | nil =>
      cases h
      simp
  | cons x xs ih =>
      obtain ⟨z, zs, hz, hzs, rfl⟩ := mapM_cons_eq_ok_iff.mp h
      intro y hy
      rcases List.mem_cons.mp hy with rfl | hy
      · exact ⟨x, List.mem_cons_self, hz⟩
      · obtain ⟨x', hx', hfx'⟩ := ih hzs y hy
        exact ⟨x', List.mem_cons_of_mem _ hx', hfx'⟩

/-- Where each step succeeds, all do. -/
theorem exists_mapM_eq_ok {f : α → Result β} {xs : List α} (h : ∀ x ∈ xs, ∃ y, f x = .ok y) :
    ∃ ys, xs.mapM f = .ok ys := by
  induction xs with
  | nil => exact ⟨[], rfl⟩
  | cons x xs ih =>
      obtain ⟨⟨y, hy⟩, hrest⟩ := List.forall_mem_cons.mp h
      obtain ⟨ys, hys⟩ := ih hrest
      exact ⟨y :: ys, mapM_cons_eq_ok_iff.mpr ⟨y, ys, hy, hys, rfl⟩⟩

/-- A failure is that of one of the steps. -/
theorem exists_of_mapM_eq_error {f : α → Result β} {xs : List α} {e : Error}
    (h : xs.mapM f = .error e) : ∃ x ∈ xs, f x = .error e := by
  induction xs with
  | nil => cases h
  | cons x xs ih =>
      rw [List.mapM_cons] at h
      cases hx : f x with
      | error e' =>
          rw [hx] at h
          cases h
          exact ⟨x, List.mem_cons_self, hx⟩
      | ok y =>
          cases hxs : xs.mapM f with
          | error e' =>
              rw [hx, hxs] at h
              cases h
              obtain ⟨z, hz, he⟩ := ih hxs
              exact ⟨z, List.mem_cons_of_mem _ hz, he⟩
          | ok ys =>
              rw [hx, hxs] at h
              cases h

/-! ### Where a failure comes from -/

/-- Two steps of which neither needs the other fail just when one of them does. -/
theorem exists_both_eq_error_iff {γ : Type} {x : Result α} {y : Result β} {f : α → β → γ} :
    (∃ e, (x >>= fun a => y >>= fun b => pure (f a b)) = .error e) ↔
      (∃ e, x = .error e) ∨ ∃ e, y = .error e := by
  cases x <;> cases y <;> simp [bind, Except.bind, pure, Except.pure]

theorem exists_map_eq_error_iff {x : Result α} {f : α → β} :
    (∃ e, x.map f = .error e) ↔ ∃ e, x = .error e := by
  cases x with
  | error e => simp [Except.map]
  | ok a => simp [Except.map]

/-- Steps in a row fail just when one of them does. -/
theorem exists_mapM_eq_error_iff {f : α → Result β} {xs : List α} :
    (∃ e, xs.mapM f = .error e) ↔ ∃ x ∈ xs, ∃ e, f x = .error e := by
  constructor
  · rintro ⟨e, h⟩
    obtain ⟨x, hx, he⟩ := exists_of_mapM_eq_error h
    exact ⟨x, hx, e, he⟩
  · rintro ⟨x, hx, e, he⟩
    cases h : xs.mapM f with
    | error e' => exact ⟨e', rfl⟩
    | ok ys =>
        obtain ⟨y, hy⟩ := exists_of_mapM_eq_ok h x hx
        rw [he] at hy
        cases hy

/-! ### Failures of some kind -/

section FailsOnly

variable {p : Error → Prop}

/-- If a step fails, then with an error of some kind. -/
def FailsOnly (p : Error → Prop) (r : Result α) : Prop :=
  ∀ e, r = .error e → p e

@[simp] theorem failsOnly_ok (a : α) : FailsOnly p (.ok a) := by
  rintro e ⟨⟩

@[simp] theorem failsOnly_error_iff {e : Error} : FailsOnly p (.error e : Result α) ↔ p e := by
  constructor
  · exact fun h => h e rfl
  · rintro h _ ⟨⟩
    exact h

theorem FailsOnly.bind {x : Result α} {f : α → Result β} (hx : x.FailsOnly p)
    (hf : ∀ a, (f a).FailsOnly p) : FailsOnly p (x >>= f) := by
  cases x with
  | error e => exact failsOnly_error_iff.mpr (hx e rfl)
  | ok a => exact hf a

theorem FailsOnly.map {x : Result α} (hx : x.FailsOnly p) (f : α → β) : FailsOnly p (x.map f) := by
  cases x with
  | error e => exact failsOnly_error_iff.mpr (hx e rfl)
  | ok a => exact failsOnly_ok (f a)

theorem failsOnly_mapM {f : α → Result β} (hf : ∀ a, (f a).FailsOnly p) (xs : List α) :
    FailsOnly p (xs.mapM f) := by
  intro e he
  obtain ⟨x, -, hx⟩ := exists_of_mapM_eq_error he
  exact hf x e hx

theorem failsOnly_foldlM {f : β → α → Result β} (hf : ∀ b a, (f b a).FailsOnly p) (b : β)
    (xs : List α) : FailsOnly p (xs.foldlM f b) := by
  induction xs generalizing b with
  | nil => exact failsOnly_ok b
  | cons x xs ih =>
      rw [List.foldlM_cons]
      exact (hf b x).bind ih

end FailsOnly

/-! ### Failures that are not the consumer's doing -/

/-- If a step fails, then not because the consumer cancelled. -/
def NeverCancelled (r : Result α) : Prop :=
  ∀ e, r = .error e → e.isCancelled = false

@[simp] theorem neverCancelled_ok (a : α) : NeverCancelled (.ok a) :=
  failsOnly_ok a

@[simp] theorem neverCancelled_error_iff {e : Error} :
    NeverCancelled (.error e : Result α) ↔ e.isCancelled = false :=
  failsOnly_error_iff

theorem NeverCancelled.bind {x : Result α} {f : α → Result β} (hx : x.NeverCancelled)
    (hf : ∀ a, (f a).NeverCancelled) : NeverCancelled (x >>= f) :=
  FailsOnly.bind hx hf

theorem NeverCancelled.map {x : Result α} (hx : x.NeverCancelled) (f : α → β) :
    NeverCancelled (x.map f) :=
  FailsOnly.map hx f

/-- The name of a component changes nothing about who is to blame. -/
theorem NeverCancelled.named {x : Result α} (hx : x.NeverCancelled) (name operation : String) :
    NeverCancelled (x.mapError (·.withComponent name operation)) := by
  cases x with
  | error e =>
      have he : e.isCancelled = false := hx e rfl
      exact neverCancelled_error_iff.mpr (by simpa [Error.isCancelled] using he)
  | ok a => exact neverCancelled_ok a

end ChatRelay.Result
