import Mathlib
import ChatRelay.Json.Basic

/-!
# Members of objects

An object is built from members in any order, and of equal keys the last wins (`get?_ofMembers`).
What is present of a record is found again under its key (`get?_record`, and
`get?_record_of_mem` where the keys differ), and a path through objects is walked one key at a time
(`at?_cons_object`).
-/

namespace ChatRelay.Json

theorem lookup_cons_ite (key k : String) (v : Json) (members : List (String × Json)) :
    ((k, v) :: members).lookup key = if key = k then some v else members.lookup key := by
  rw [List.lookup_cons]
  by_cases h : key = k
  · simp [h]
  · simp [h, beq_eq_false_iff_ne.mpr h]

theorem lookup_insertMember (key k : String) (v : Json) (members : List (String × Json)) :
    (insertMember k v members).lookup key =
      if key = k then some v else members.lookup key := by
  induction members with
  | nil => exact lookup_cons_ite key k v []
  | cons m members ih =>
      obtain ⟨l, w⟩ := m
      unfold insertMember
      by_cases hless : k < l
      · rw [if_pos hless, lookup_cons_ite]
      · rw [if_neg hless]
        by_cases hsame : k = l
        · rw [if_pos hsame, lookup_cons_ite, lookup_cons_ite, ← hsame]
          split_ifs <;> rfl
        · -- The member stays where it is, and the new one has another key.
          rw [if_neg hsame, lookup_cons_ite, lookup_cons_ite, ih]
          by_cases hkey : key = l
          · rw [if_pos hkey, if_pos hkey, if_neg (by rw [hkey]; exact Ne.symm hsame)]
          · rw [if_neg hkey, if_neg hkey]

theorem ascending_concat (members : List (String × Json)) (m : String × Json) :
    ascending (members ++ [m]) = insertMember m.1 m.2 (ascending members) := by
  rw [ascending, List.foldl_append]
  rfl

theorem lookup_ascending (key : String) (members : List (String × Json)) :
    (ascending members).lookup key = members.reverse.lookup key := by
  induction members using List.reverseRecOn with
  | nil => rfl
  | append_singleton members m ih =>
      rw [ascending_concat, lookup_insertMember, ih, List.reverse_append, List.reverse_singleton,
        List.singleton_append]
      exact (lookup_cons_ite key m.1 m.2 members.reverse).symm

/-- **Of members with equal keys the last wins.** -/
theorem get?_ofMembers (key : String) (members : List (String × Json)) :
    (ofMembers members).get? key = members.reverse.lookup key :=
  lookup_ascending key members

/-- A member of a record, if it is present. -/
def present? (m : String × Option Json) : Option (String × Json) :=
  m.2.map (m.1, ·)

theorem record_eq (members : List (String × Option Json)) :
    record members = ofMembers (members.filterMap present?) := rfl

/-- **What is present of a record is found under its key.** -/
theorem get?_record (key : String) (members : List (String × Option Json)) :
    (record members).get? key = (members.reverse.filterMap present?).lookup key := by
  rw [record_eq, get?_ofMembers, List.filterMap_reverse]

theorem lookup_present_cons (key k : String) (v : Option Json)
    (members : List (String × Option Json)) :
    (((k, v) :: members).filterMap present?).lookup key =
      if key = k then v.or ((members.filterMap present?).lookup key)
      else (members.filterMap present?).lookup key := by
  rw [List.filterMap_cons]
  cases v with
  | none => simp [present?]
  | some v => simp [present?, lookup_cons_ite]

theorem lookup_present_of_not_mem {members : List (String × Option Json)} {key : String}
    (h : key ∉ members.map Prod.fst) : (members.filterMap present?).lookup key = none := by
  induction members with
  | nil => rfl
  | cons m members ih =>
      obtain ⟨hfirst, hrest⟩ := not_or.mp (List.mem_cons.not.mp h)
      rw [lookup_present_cons, if_neg hfirst, ih hrest]

theorem lookup_present_of_mem {members : List (String × Option Json)}
    (hkeys : (members.map Prod.fst).Nodup) {key : String} {value : Option Json}
    (h : (key, value) ∈ members) : (members.filterMap present?).lookup key = value := by
  induction members with
  | nil => cases h
  | cons m members ih =>
      obtain ⟨k, v⟩ := m
      obtain ⟨hnew, hkeys⟩ := List.nodup_cons.mp hkeys
      rw [lookup_present_cons]
      rcases List.mem_cons.mp h with heq | h
      · cases heq
        rw [if_pos rfl, lookup_present_of_not_mem hnew, Option.or_none]
      · have hne : key ≠ k := fun hkey => hnew (hkey ▸ List.mem_map.mpr ⟨_, h, rfl⟩)
        rw [if_neg hne, ih hkeys h]

/-- Every field of a record is found under its name. -/
theorem get?_record_of_mem {members : List (String × Option Json)}
    (hkeys : (members.map Prod.fst).Nodup) {key : String} {value : Option Json}
    (h : (key, value) ∈ members) : (record members).get? key = value := by
  rw [get?_record]
  refine lookup_present_of_mem ?_ (List.mem_reverse.mpr h)
  rw [List.map_reverse, List.nodup_reverse]
  exact hkeys

/-- The first key of a path leads into an object. -/
theorem at?_cons_object (key : String) (path : List String) (members : List (String × Json)) :
    (object members).at? (key :: path) = ((object members).get? key).bind (at? path) := by
  rw [at?, get?_object]

theorem at?_ofMembers (key : String) (path : List String) (members : List (String × Json)) :
    (ofMembers members).at? (key :: path) = (members.reverse.lookup key).bind (at? path) := by
  rw [← get?_ofMembers]
  exact at?_cons_object key path _

theorem at?_record (key : String) (path : List String) (members : List (String × Option Json)) :
    (record members).at? (key :: path) =
      ((members.reverse.filterMap present?).lookup key).bind (at? path) := by
  rw [← get?_record]
  exact at?_cons_object key path _

end ChatRelay.Json
