import ChatRelay.Json.Record
import ChatRelay.Proofs.Json.Members

/-!
# Objects with more fields

A record is read from an object by the names of its fields, and what the object has under other
names does not matter.  So an object may be widened by any such fields (`Widens.insertMember`), and
what is read of it stays as it was: the fields that were written are found under their names
(`Widens.get?_eq`), and the readers of fields get back what was written (`optional_of_rel`,
`mapM_of_forall₂`).

## Main definitions

* `Json.Widens` — two objects that agree on some fields, on each in a way of its own
* `Json.Itemwise` — two arrays whose items correspond
-/

namespace ChatRelay.Json

/-! ### Fields -/

/-- Two objects that agree on some fields, on each in a way of its own. Under any other name there
may be anything. -/
def Widens (fields : List (String × (Json → Json → Prop))) (v w : Json) : Prop :=
  v.isObject = true ∧ w.isObject = true ∧
    ∀ field ∈ fields, Option.Rel field.2 (v.get? field.1) (w.get? field.1)

/-- Two arrays whose items correspond one by one. -/
def Itemwise (rel : Json → Json → Prop) (v w : Json) : Prop :=
  ∃ items items', v = .array items ∧ w = .array items' ∧ List.Forall₂ rel items items'

variable {α : Type} {rel : Json → Json → Prop} {read : Json → Option α} {write : α → Json}
  {fields : List (String × (Json → Json → Prop))} {v w : Json}

/-- One more field with another name changes nothing. -/
theorem Widens.insertMember {members : List (String × Json)} (h : Widens fields v (.object members))
    {key : String} (hkey : ∀ field ∈ fields, field.1 ≠ key) (value : Json) :
    Widens fields v (.object (insertMember key value members)) := by
  refine ⟨h.1, rfl, fun field hfield => ?_⟩
  rw [get?_object, lookup_insertMember, if_neg (hkey field hfield)]
  exact h.2.2 field hfield

theorem widens_self (hv : v.isObject = true)
    (h : ∀ field ∈ fields, ∀ x ∈ v.get? field.1, field.2 x x) : Widens fields v v := by
  refine ⟨hv, hv, fun field hfield => ?_⟩
  have hfield := h field hfield
  cases hx : v.get? field.1 with
  | none => exact .none
  | some x => exact .some (hfield x hx)

theorem itemwise_self {items : List Json} (h : ∀ v ∈ items, rel v v) :
    Itemwise rel (.array items) (.array items) :=
  ⟨items, items, rfl, rfl, List.forall₂_same.mpr h⟩

theorem fields?_of_isObject (hw : w.isObject = true) (names : List String) :
    w.fields? names = some fun name => w.get? name := by
  cases w with
  | object members => rfl
  | _ => cases hw

section Record

variable {members : List (String × Option Json)} {key : String} {value : Option Json}

/-- What a widened record has under a name of the record. -/
theorem Widens.rel_of_mem (h : Widens fields (record members) w)
    (hkeys : (members.map Prod.fst).Nodup) (hfield : (key, rel) ∈ fields)
    (hmem : (key, value) ∈ members) : Option.Rel rel value (w.get? key) := by
  have hrel := h.2.2 _ hfield
  rwa [get?_record_of_mem hkeys hmem] at hrel

theorem Widens.get?_eq (h : Widens fields (record members) w)
    (hkeys : (members.map Prod.fst).Nodup) (hfield : (key, Eq) ∈ fields)
    (hmem : (key, value) ∈ members) : w.get? key = value := by
  have hrel := h.rel_of_mem hkeys hfield hmem
  generalize w.get? key = found at hrel
  cases hrel with
  | none => rfl
  | some heq => rw [heq]

end Record

/-! ### Readers of fields -/

theorem exists_of_rel_some {x : Json} {field : Option Json} (h : Option.Rel rel (some x) field) :
    ∃ y, field = some y ∧ rel x y := by
  cases h with
  | some h => exact ⟨_, rfl, h⟩

theorem eq_none_of_rel_none {field : Option Json} (h : Option.Rel rel none field) :
    field = none := by
  cases h
  rfl

/-- An optional field is read back. -/
theorem optional_of_rel (hread : ∀ a y, rel (write a) y → read y = some a)
    (hnull : read .null = none) {a : Option α} {field : Option Json}
    (h : Option.Rel rel (a.map write) field) : optional read field = some a := by
  cases a with
  | none =>
      rw [eq_none_of_rel_none h]
      rfl
  | some a =>
      obtain ⟨y, rfl, hrel⟩ := exists_of_rel_some h
      have hy := hread a y hrel
      cases y with
      | null =>
          rw [hnull] at hy
          cases hy
      | _ => exact congrArg (Option.map some) hy

theorem optional_map (hread : ∀ a, read (write a) = some a) (hnull : read .null = none)
    (a : Option α) : optional read (a.map write) = some a := by
  have hequal : ∀ a y, write a = y → read y = some a := fun a y hy => hy ▸ hread a
  refine optional_of_rel hequal hnull ?_
  cases a with
  | none => exact .none
  | some a => exact .some rfl

theorem mapM_of_forall₂ (hread : ∀ a y, rel (write a) y → read y = some a) {items : List α}
    {values : List Json} (h : List.Forall₂ rel (items.map write) values) :
    values.mapM read = some items := by
  induction items generalizing values with
  | nil =>
      cases h
      rfl
  | cons a items ih =>
      cases h with
      | cons hfirst hrest => simp [hread _ _ hfirst, ih hrest]

end ChatRelay.Json
