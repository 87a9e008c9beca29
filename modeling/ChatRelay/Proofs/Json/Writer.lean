import ChatRelay.Json.Writer

/-!
# The text of a value is never empty
-/

namespace ChatRelay

theorem Number.write_ne_empty (x : Number.Binary) : Number.write x ≠ "" := by
  unfold Number.write
  simp only
  split
  · simp
  · intro h
    have hnil := congrArg String.toList (String.append_eq_empty_iff.mp h).2
    rw [String.toList_ofList] at hnil
    split at hnil
    · simp at hnil
    · split at hnil
      · simp at hnil
      · split at hnil <;> simp at hnil

namespace Json

theorem writeNumeral_ne_nil (n : Numeral) : writeNumeral n ≠ [] := by
  cases n with
  | integer n =>
      have hne : n.repr ≠ "" := by
        rw [Int.repr_eq_if]
        split
        · exact Nat.repr_ne_empty
        · simp
      exact fun h => hne (String.toList_eq_nil_iff.mp h)
  | real x =>
      exact fun h => Number.write_ne_empty x (String.toList_eq_nil_iff.mp h)

theorem writeChars_ne_nil (v : Json) : writeChars v ≠ [] := by
  cases v with
  | null => simp [writeChars]
  | bool b => cases b <;> simp [writeChars]
  | number n => exact writeNumeral_ne_nil n
  | text s => simp [writeChars, writeText]
  | array items => simp [writeChars]
  | object members => simp [writeChars]

/-- **Every value is written as some text.** -/
theorem write_ne_empty (v : Json) : v.write ≠ "" := by
  intro h
  have hnil := congrArg String.toList h
  rw [write, String.toList_ofList] at hnil
  exact writeChars_ne_nil v hnil

end Json

end ChatRelay
