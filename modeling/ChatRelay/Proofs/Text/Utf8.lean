import Mathlib
import ChatRelay.Text.Utf8

/-!
# Reading UTF-8

Reading the bytes of a text gives back the text (`decodeFrom_encodeChars`).  Where bytes are
damaged, at least the lines are kept: a newline ends whatever stands before it
(`decodeFrom_append_newline`), and no newline comes of other bytes (`not_mem_decodeFrom`).

## Main definitions

* `Utf8.encodeChars` — the bytes of some characters
* `Utf8.State.IsSound` — a state that the machine can be in
-/

namespace ChatRelay.Utf8

/-- The bytes of some characters. -/
def encodeChars (cs : List Char) : List UInt8 :=
  cs.flatMap String.utf8EncodeChar

theorem encodeChars_cons (c : Char) (cs : List Char) :
    encodeChars (c :: cs) = String.utf8EncodeChar c ++ encodeChars cs :=
  List.flatMap_cons

theorem encodeChars_append (cs ds : List Char) :
    encodeChars (cs ++ ds) = encodeChars cs ++ encodeChars ds :=
  List.flatMap_append

/-! ### Reading what was written -/

variable {b : Nat}

theorem first_of_lt_two (h : b < 0x80) : first b = ([Char.ofNat b], .start) :=
  if_pos h

theorem first_of_two (h : 0xC2 ≤ b ∧ b < 0xE0) :
    first b = ([], .inside (b - 0xC0) 1 0x80 0xBF) := by
  rw [first, if_neg (by omega), if_neg (by omega), if_pos h.2]

/-- Where three bytes could be fewer, or stand for half of a pair, the second is restricted. -/
theorem first_of_three (h : 0xE0 ≤ b ∧ b < 0xF0) : first b =
    ([], .inside (b - 0xE0) 2 (if b = 0xE0 then 0xA0 else 0x80)
      (if b = 0xED then 0x9F else 0xBF)) := by
  rw [first, if_neg (by omega), if_neg (by omega), if_neg (by omega)]
  by_cases hlow : b = 0xE0
  · simp [hlow]
  · by_cases hhigh : b = 0xED
    · simp [hhigh]
    · simp [hlow, hhigh, h.2]

/-- Where four bytes could be fewer, or go beyond the last character, the second is restricted. -/
theorem first_of_four (h : 0xF0 ≤ b ∧ b ≤ 0xF4) : first b =
    ([], .inside (b - 0xF0) 3 (if b = 0xF0 then 0x90 else 0x80)
      (if b = 0xF4 then 0x8F else 0xBF)) := by
  rw [first, if_neg (by omega), if_neg (by omega), if_neg (by omega), if_neg (by simp; omega),
    if_neg (by simp; omega), if_neg (by omega)]
  by_cases hlow : b = 0xF0
  · simp [hlow]
  · by_cases hhigh : b = 0xF4
    · simp [hhigh]
    · have hlt : b < 0xF4 := by omega
      simp [hlow, hhigh, hlt]

theorem decodeFrom_start (byte : UInt8) (bs : List UInt8) :
    decodeFrom .start (byte :: bs) =
      (first byte.toNat).1 ++ decodeFrom (first byte.toNat).2 bs := rfl

/-- A byte in the range of a state goes on with the character at hand. -/
theorem decodeFrom_inside {bits left low high : Nat} {byte : UInt8}
    (h : low ≤ byte.toNat ∧ byte.toNat ≤ high) (bs : List UInt8) :
    decodeFrom (.inside bits left low high) (byte :: bs) =
      if left ≤ 1 then Char.ofNat (bits * 64 + (byte.toNat - 0x80)) :: decodeFrom .start bs
      else decodeFrom (.inside (bits * 64 + (byte.toNat - 0x80)) (left - 1) 0x80 0xBF) bs := by
  rw [decodeFrom, step]
  simp only [h, decide_true, Bool.and_self, if_true]
  split <;> rfl

/-- Reading the bytes of a character gives back the character. -/
theorem decodeFrom_encodeChar (c : Char) (bs : List UInt8) :
    decodeFrom .start (String.utf8EncodeChar c ++ bs) = c :: decodeFrom .start bs := by
  have hvalid : c.toNat < 0xD800 ∨ 0xDFFF < c.toNat ∧ c.toNat < 0x110000 := c.valid
  have hchar {n : Nat} (hn : n = c.toNat) : Char.ofNat n = c := by rw [hn, Char.ofNat_toNat]
  have hbyte {n : Nat} (hn : n < 256) : (UInt8.ofNat n).toNat = n := UInt8.toNat_ofNat_of_lt' hn
  -- How many bytes there are is told by the ranges of `String.utf8EncodeChar`.
  unfold String.utf8EncodeChar
  rw [show c.val.toNat = c.toNat from rfl]
  generalize c.toNat = v at *
  simp only
  split
  · next hone =>
    rw [List.singleton_append, decodeFrom_start, hbyte (by omega), first_of_lt_two (by omega),
      hchar rfl]
    rfl
  split
  · next hone htwo =>
    have h1 := hbyte (show v / 64 % 32 + 0xC0 < 256 by omega)
    have h2 := hbyte (show v % 64 + 0x80 < 256 by omega)
    rw [List.cons_append, List.singleton_append, decodeFrom_start, h1,
      first_of_two (by omega), List.nil_append, decodeFrom_inside (by rw [h2]; omega), h2,
      if_pos (by omega), hchar (by omega)]
  split
  · next hone htwo hthree =>
    have h1 := hbyte (show v / 4096 % 16 + 0xE0 < 256 by omega)
    have h2 := hbyte (show v / 64 % 64 + 0x80 < 256 by omega)
    have h3 := hbyte (show v % 64 + 0x80 < 256 by omega)
    rw [List.cons_append, List.cons_append, List.singleton_append, decodeFrom_start, h1,
      first_of_three (by omega), List.nil_append,
      decodeFrom_inside (by rw [h2]; split <;> split <;> omega), h2, if_neg (by omega),
      decodeFrom_inside (by rw [h3]; omega), h3, if_pos (by omega), hchar (by omega)]
  · next hone htwo hthree =>
    have h1 := hbyte (show v / 262144 % 8 + 0xF0 < 256 by omega)
    have h2 := hbyte (show v / 4096 % 64 + 0x80 < 256 by omega)
    have h3 := hbyte (show v / 64 % 64 + 0x80 < 256 by omega)
    have h4 := hbyte (show v % 64 + 0x80 < 256 by omega)
    rw [List.cons_append, List.cons_append, List.cons_append, List.singleton_append,
      decodeFrom_start, h1, first_of_four (by omega), List.nil_append,
      decodeFrom_inside (by rw [h2]; split <;> split <;> omega), h2, if_neg (by omega),
      decodeFrom_inside (by rw [h3]; omega), h3, if_neg (by omega),
      decodeFrom_inside (by rw [h4]; omega), h4, if_pos (by omega), hchar (by omega)]

theorem decodeFrom_encodeChars (cs : List Char) (bs : List UInt8) :
    decodeFrom .start (encodeChars cs ++ bs) = cs ++ decodeFrom .start bs := by
  induction cs with
  | nil => rfl
  | cons c cs ih =>
      rw [encodeChars_cons, List.append_assoc, decodeFrom_encodeChar, ih, List.cons_append]

/-- **A text is read as it was written.** -/
theorem decodeFrom_start_encodeChars (cs : List Char) :
    decodeFrom .start (encodeChars cs) = cs := by
  have h := decodeFrom_encodeChars cs []
  rwa [List.append_nil, decodeFrom, List.append_nil] at h

/-! ### Bytes below 128 -/

/-- A byte below 128 stands for itself wherever it stands. -/
theorem toNat_eq_of_mem_encodeChar {c : Char} {byte : UInt8} (hmem : byte ∈ String.utf8EncodeChar c)
    (hbyte : byte.toNat < 0x80) : c.toNat = byte.toNat := by
  have hvalid : c.toNat < 0xD800 ∨ 0xDFFF < c.toNat ∧ c.toNat < 0x110000 := c.valid
  unfold String.utf8EncodeChar at hmem
  rw [show c.val.toNat = c.toNat from rfl] at hmem
  generalize c.toNat = v at *
  simp only at hmem
  split_ifs at hmem <;> simp only [List.mem_cons, List.not_mem_nil, or_false] at hmem
  · subst hmem
    simp; omega
  · obtain rfl | rfl := hmem <;> simp at hbyte <;> omega
  · obtain rfl | rfl | rfl := hmem <;> simp at hbyte <;> omega
  · obtain rfl | rfl | rfl | rfl := hmem <;> simp at hbyte <;> omega

/-- Dropping the byte of such a character is dropping the character. -/
theorem filter_encodeChars (cs : List Char) :
    (encodeChars cs).filter (· ≠ 13) = encodeChars (cs.filter (· ≠ '\r')) := by
  induction cs with
  | nil => rfl
  | cons c cs ih =>
      rw [encodeChars_cons, List.filter_append, ih]
      by_cases hc : c = '\r'
      · subst hc
        rfl
      · have hkeep : ∀ byte ∈ String.utf8EncodeChar c, decide (byte ≠ 13) = true := by
          intro byte hbyte
          refine decide_eq_true fun h13 => hc ?_
          subst h13
          exact Char.toNat_inj.mp (toNat_eq_of_mem_encodeChar hbyte (by decide))
        rw [List.filter_eq_self.mpr hkeep, List.filter_cons_of_pos (by simpa using hc),
          encodeChars_cons]

theorem newline_not_mem_encodeChars {cs : List Char} (h : '\n' ∉ cs) :
    (10 : UInt8) ∉ encodeChars cs := by
  intro hmem
  obtain ⟨c, hc, hbyte⟩ := List.mem_flatMap.mp hmem
  have heq : c = '\n' := Char.toNat_inj.mp (toNat_eq_of_mem_encodeChar hbyte (by decide))
  exact h (heq ▸ hc)

/-! ### Lines of damaged bytes -/

/-- Inside a character the next byte is no character by itself, and what has been read does not add
up to a small one. -/
def State.IsSound : State → Prop
  | .start => True
  | .inside bits left low _ => 0x80 ≤ low ∧ (bits = 0 → 1 < left ∧ 0x80 < low)

theorem eq_ten_of_ofNat {n : Nat} (h : Char.ofNat n = '\n') : n = 10 := by
  have hn := congrArg Char.toNat h
  rw [Char.toNat_ofNat] at hn
  split at hn
  · exact hn
  · exact absurd hn (by decide)

variable {s : State} {byte : UInt8}

theorem isSound_first (b : Nat) : (first b).2.IsSound := by
  unfold first
  split_ifs <;> simp_all [State.IsSound] <;> omega

theorem isSound_step (hs : s.IsSound) : (step s byte).2.IsSound := by
  cases s with
  | start => exact isSound_first _
  | inside bits left low high =>
      obtain ⟨hlow, hbits⟩ := hs
      simp only [step]
      split
      · next h =>
        simp only [Bool.and_eq_true, decide_eq_true_eq] at h
        split
        · trivial
        · exact ⟨Nat.le_refl _, by omega⟩
      · exact isSound_first _

theorem eq_ten_of_mem_first {b : Nat} (h : '\n' ∈ (first b).1) : b = 10 := by
  unfold first at h
  split_ifs at h
  · exact eq_ten_of_ofNat (List.mem_singleton.mp h).symm
  all_goals simp [replacement] at h

theorem eq_ten_of_mem_step (hs : s.IsSound) (h : '\n' ∈ (step s byte).1) : byte.toNat = 10 := by
  cases s with
  | start => exact eq_ten_of_mem_first h
  | inside bits left low high =>
      obtain ⟨hlow, hbits⟩ := hs
      simp only [step] at h
      split at h
      · next hrange =>
        simp only [Bool.and_eq_true, decide_eq_true_eq] at hrange
        split at h
        · have hten := eq_ten_of_ofNat (List.mem_singleton.mp h).symm
          omega
        · exact absurd h List.not_mem_nil
      · obtain hreplaced | h := List.mem_cons.mp h
        · exact absurd hreplaced (by decide)
        · exact eq_ten_of_mem_first h

/-- Damaged or not, bytes hold no newline character unless they hold the byte that is one. -/
theorem not_mem_decodeFrom (hs : s.IsSound) {bs : List UInt8} (h : (10 : UInt8) ∉ bs) :
    '\n' ∉ decodeFrom s bs := by
  induction bs generalizing s with
  | nil => cases s <;> simp [decodeFrom, replacement]
  | cons byte bs ih =>
      simp only [List.mem_cons, not_or] at h
      obtain ⟨hbyte, hbs⟩ := h
      intro hmem
      obtain hmem | hmem := List.mem_append.mp hmem
      · exact hbyte (UInt8.toNat_inj.mp (eq_ten_of_mem_step hs hmem)).symm
      · exact ih (isSound_step hs) hbs hmem

/-- A newline ends whatever stands before it. -/
theorem step_newline (hs : s.IsSound) : step s 10 = (decodeFrom s [] ++ ['\n'], .start) := by
  cases s with
  | start => rfl
  | inside bits left low high =>
      have hlow : ¬ low ≤ 10 := by have := hs.1; omega
      simp [step, hlow, first, decodeFrom]

/-- **Lines of bytes are lines of text**, damaged or not. -/
theorem decodeFrom_append_newline (hs : s.IsSound) (bs later : List UInt8) :
    decodeFrom s (bs ++ 10 :: later) = decodeFrom s bs ++ '\n' :: decodeFrom .start later := by
  induction bs generalizing s with
  | nil =>
      rw [List.nil_append, decodeFrom, step_newline hs]
      simp
  | cons byte bs ih =>
      have hcons (bs : List UInt8) : decodeFrom s (byte :: bs) =
          (step s byte).1 ++ decodeFrom (step s byte).2 bs := rfl
      rw [List.cons_append, hcons, hcons, ih (isSound_step hs), List.append_assoc]

end ChatRelay.Utf8
