import Mathlib
import ChatRelay.Json.Token
import ChatRelay.Proofs.Json.Writer
import ChatRelay.Text.Blank

/-!
# The lexemes of a JSON text

The compact text of a value is a row of lexemes: marks of punctuation, quoted texts, and words
(`flatten_lexemes`, `isLexeme_of_mem_lexemes`).  No two words stand side by side
(`separated_lexemes`), no lexeme begins or ends with white space (`IsLexeme.ends`), and the only
white space inside one is the blank (`IsLexeme.eq_space_of_mem`), so that the text is one line.

## Main definitions

* `Json.lexemes` — the lexemes of the text of a value
* `Json.IsLexeme` — a mark, a quoted text or a word
* `Json.Separated` — no word beside a word
-/

namespace ChatRelay.Json

open Lexer

/-! ### Lexemes -/

mutual

/-- The lexemes of the text of a value. -/
def lexemes : Json → List (List Char)
  | .null => ["null".toList]
  | .bool true => ["true".toList]
  | .bool false => ["false".toList]
  | .number n => [writeNumeral n]
  | .text s => [writeText s]
  | .array items => ['['] :: (lexemesOfItems items ++ [[']']])
  | .object members => ['\x7b'] :: (lexemesOfMembers members ++ [['\x7d']])

/-- The lexemes of the items of an array. -/
def lexemesOfItems : List Json → List (List Char)
  | [] => []
  | [v] => lexemes v
  | v :: w :: vs => lexemes v ++ [','] :: lexemesOfItems (w :: vs)

/-- The lexemes of the members of an object. -/
def lexemesOfMembers : List (String × Json) → List (List Char)
  | [] => []
  | [(k, v)] => writeText k :: [':'] :: lexemes v
  | (k, v) :: m :: ms => writeText k :: [':'] :: (lexemes v ++ [','] :: lexemesOfMembers (m :: ms))

end

mutual

/-- The lexemes of a value make up its compact text. -/
theorem flatten_lexemes : (v : Json) → (lexemes v).flatten = writeChars v
  | .null => rfl
  | .bool true => rfl
  | .bool false => rfl
  | .number n => by simp [lexemes, writeChars]
  | .text s => by simp [lexemes, writeChars]
  | .array items => by simp [lexemes, writeChars, flatten_lexemesOfItems items]
  | .object members => by simp [lexemes, writeChars, flatten_lexemesOfMembers members]

theorem flatten_lexemesOfItems :
    (items : List Json) → (lexemesOfItems items).flatten = writeItems items
  | [] => rfl
  | [v] => flatten_lexemes v
  | v :: w :: vs => by
    simp [lexemesOfItems, writeItems, flatten_lexemes v, flatten_lexemesOfItems (w :: vs)]

theorem flatten_lexemesOfMembers :
    (members : List (String × Json)) → (lexemesOfMembers members).flatten = writeMembers members
  | [] => rfl
  | [(k, v)] => by simp [lexemesOfMembers, writeMembers, flatten_lexemes v]
  | (k, v) :: m :: ms => by
    simp [lexemesOfMembers, writeMembers, flatten_lexemes v, flatten_lexemesOfMembers (m :: ms)]

end

/-- A character before which the machine takes a word to be complete. -/
def endsWord (c : Char) : Bool :=
  isSpace c || c == '"' || (punctuation? c).isSome

/-- A character of words. -/
def isWordChar (c : Char) : Bool :=
  !endsWord c && !Text.isBlank c

/-- A name or a number. -/
def IsWord (l : List Char) : Prop :=
  l ≠ [] ∧ ∀ c ∈ l, isWordChar c = true

/-- A piece of a JSON text that no white space takes apart. -/
inductive IsLexeme : List Char → Prop
  | mark {c : Char} (h : (punctuation? c).isSome = true) : IsLexeme [c]
  | text (s : String) : IsLexeme (writeText s)
  | word {l : List Char} (h : IsWord l) : IsLexeme l

theorem isWordChar_of_isDigit {c : Char} (h : c.isDigit = true) : isWordChar c = true := by
  have hrange : 48 ≤ c.toNat ∧ c.toNat ≤ 57 := by
    simpa [Char.isDigit, UInt32.le_iff_toNat_le] using h
  obtain ⟨n, hn⟩ : ∃ n, n = c.toNat := ⟨_, rfl⟩
  rw [← Char.ofNat_toNat c, ← hn]
  rw [← hn] at hrange
  obtain ⟨hlow, hhigh⟩ := hrange
  interval_cases n <;> decide

theorem isWordChar_repr (n : Nat) : ∀ c ∈ n.repr.toList, isWordChar c = true := by
  intro c hc
  rw [Nat.toList_repr] at hc
  exact isWordChar_of_isDigit (Nat.isDigit_of_mem_toDigits (by decide) (by decide) hc)

theorem isWordChar_write (x : Number.Binary) :
    ∀ c ∈ (Number.write x).toList, isWordChar c = true := by
  have hsign : ∀ c ∈ (if x.negative = true then "-" else "").toList, isWordChar c = true := by
    split <;> exact List.all_eq_true.mp (by decide)
  have hzeros (n : Nat) : ∀ c ∈ List.replicate n '0', isWordChar c = true := by
    intro c hc
    rw [List.eq_of_mem_replicate hc]
    decide
  have hmarks : isWordChar '.' = true ∧ isWordChar '0' = true ∧ isWordChar 'e' = true ∧
      isWordChar '+' = true ∧ isWordChar '-' = true := by decide
  obtain ⟨hpoint, hzero, he, hplus, hminus⟩ := hmarks
  unfold Number.write
  simp only
  split
  · rw [String.toList_append, List.forall_mem_append]
    exact ⟨hsign, List.all_eq_true.mp (by decide)⟩
  · rw [String.toList_append, List.forall_mem_append, String.toList_ofList]
    refine ⟨hsign, ?_⟩
    generalize hds : List.take (_ - _) (toString (Number.shortest x).1).toList = digits
    generalize (Number.shortest x).2 + _ = place
    generalize ((digits.length : Int) + place) = point
    have hdigits : ∀ c ∈ digits, isWordChar c = true :=
      fun c hc => isWordChar_repr _ c (List.mem_of_mem_take (hds ▸ hc))
    have htake (k : Nat) : ∀ c ∈ digits.take k, isWordChar c = true :=
      fun c hc => hdigits c (List.mem_of_mem_take hc)
    have hdrop (k : Nat) : ∀ c ∈ digits.drop k, isWordChar c = true :=
      fun c hc => hdigits c (List.mem_of_mem_drop hc)
    split_ifs <;> simp only [List.forall_mem_append, List.forall_mem_cons, hpoint, hzero, he,
      hplus, hminus, true_and]
    · exact ⟨⟨hdigits, hzeros _⟩, List.forall_mem_nil _⟩
    · exact ⟨htake _, hdrop _⟩
    · exact ⟨hzeros _, hdigits⟩
    · exact ⟨⟨htake _, List.forall_mem_nil _⟩, isWordChar_repr _⟩
    · exact ⟨⟨htake _, List.forall_mem_nil _⟩, isWordChar_repr _⟩
    · exact ⟨⟨htake _, hdrop _⟩, isWordChar_repr _⟩
    · exact ⟨⟨htake _, hdrop _⟩, isWordChar_repr _⟩

theorem isWord_writeNumeral (n : Numeral) : IsWord (writeNumeral n) := by
  refine ⟨writeNumeral_ne_nil n, ?_⟩
  cases n with
  | integer n =>
      change ∀ c ∈ n.repr.toList, _
      rw [Int.repr_eq_if]
      split
      · exact isWordChar_repr _
      · rw [String.toList_append, List.forall_mem_append]
        exact ⟨List.all_eq_true.mp (by decide), isWordChar_repr _⟩
  | real x => exact isWordChar_write x

mutual

theorem isLexeme_of_mem_lexemes : (v : Json) → ∀ l ∈ lexemes v, IsLexeme l
  | .null => by simpa [lexemes] using .word ⟨by decide, List.all_eq_true.mp (by decide)⟩
  | .bool true => by simpa [lexemes] using .word ⟨by decide, List.all_eq_true.mp (by decide)⟩
  | .bool false => by simpa [lexemes] using .word ⟨by decide, List.all_eq_true.mp (by decide)⟩
  | .number n => by simpa [lexemes] using .word (isWord_writeNumeral n)
  | .text s => by simpa [lexemes] using .text s
  | .array items => by
    simp only [lexemes, List.forall_mem_cons, List.forall_mem_append]
    exact ⟨.mark rfl, isLexeme_of_mem_lexemesOfItems items, .mark rfl, List.forall_mem_nil _⟩
  | .object members => by
    simp only [lexemes, List.forall_mem_cons, List.forall_mem_append]
    exact ⟨.mark rfl, isLexeme_of_mem_lexemesOfMembers members, .mark rfl, List.forall_mem_nil _⟩

theorem isLexeme_of_mem_lexemesOfItems :
    (items : List Json) → ∀ l ∈ lexemesOfItems items, IsLexeme l
  | [] => List.forall_mem_nil _
  | [v] => isLexeme_of_mem_lexemes v
  | v :: w :: vs => by
    simp only [lexemesOfItems, List.forall_mem_cons, List.forall_mem_append]
    exact ⟨isLexeme_of_mem_lexemes v, .mark rfl, isLexeme_of_mem_lexemesOfItems (w :: vs)⟩

theorem isLexeme_of_mem_lexemesOfMembers :
    (members : List (String × Json)) → ∀ l ∈ lexemesOfMembers members, IsLexeme l
  | [] => List.forall_mem_nil _
  | [(k, v)] => by
    simp only [lexemesOfMembers, List.forall_mem_cons]
    exact ⟨.text k, .mark rfl, isLexeme_of_mem_lexemes v⟩
  | (k, v) :: m :: ms => by
    simp only [lexemesOfMembers, List.forall_mem_cons, List.forall_mem_append]
    exact ⟨.text k, .mark rfl, isLexeme_of_mem_lexemes v, .mark rfl,
      isLexeme_of_mem_lexemesOfMembers (m :: ms)⟩

end

/-- No two words stand side by side. -/
def Separated (ls : List (List Char)) : Prop :=
  ls.IsChain fun l m => IsWord l → ¬ IsWord m

theorem not_isWord_mark {c : Char} (h : (punctuation? c).isSome = true) : ¬ IsWord [c] := by
  intro hword
  have hc := hword.2 c List.mem_cons_self
  simp [isWordChar, endsWord, h] at hc

/-- A mark may stand anywhere. -/
theorem Separated.append_mark {ls ms : List (List Char)} (hls : Separated ls) {c : Char}
    (hc : (punctuation? c).isSome = true) (hms : Separated ms) : Separated (ls ++ [c] :: ms) := by
  refine List.isChain_append.mpr ⟨hls, List.isChain_cons.mpr ⟨?_, hms⟩, ?_⟩
  · exact fun m _ hmark => absurd hmark (not_isWord_mark hc)
  · intro l _ m hm _
    obtain rfl : [c] = m := Option.some.inj hm
    exact not_isWord_mark hc

theorem separated_singleton (l : List Char) : Separated [l] :=
  List.isChain_singleton l

mutual

theorem separated_lexemes : (v : Json) → Separated (lexemes v)
  | .null => separated_singleton _
  | .bool true => separated_singleton _
  | .bool false => separated_singleton _
  | .number _ => separated_singleton _
  | .text _ => separated_singleton _
  | .array items =>
    Separated.append_mark List.isChain_nil rfl
      ((separated_lexemesOfItems items).append_mark rfl List.isChain_nil)
  | .object members =>
    Separated.append_mark List.isChain_nil rfl
      ((separated_lexemesOfMembers members).append_mark rfl List.isChain_nil)

theorem separated_lexemesOfItems : (items : List Json) → Separated (lexemesOfItems items)
  | [] => List.isChain_nil
  | [v] => separated_lexemes v
  | v :: w :: vs => (separated_lexemes v).append_mark rfl (separated_lexemesOfItems (w :: vs))

theorem separated_lexemesOfMembers :
    (members : List (String × Json)) → Separated (lexemesOfMembers members)
  | [] => List.isChain_nil
  | [(_, v)] => (separated_singleton _).append_mark rfl (separated_lexemes v)
  | (_, v) :: m :: ms =>
    (separated_singleton _).append_mark rfl
      ((separated_lexemes v).append_mark rfl (separated_lexemesOfMembers (m :: ms)))

end

theorem lexemes_ne_nil (v : Json) : lexemes v ≠ [] := by
  cases v with
  | bool b => cases b <;> simp [lexemes]
  | _ => simp [lexemes]

/-! ### The characters of a lexeme -/

theorem isBlank_of_isSpace {c : Char} (h : isSpace c = true) : Text.isBlank c = true := by
  simp only [isSpace, Bool.or_eq_true, beq_iff_eq] at h
  obtain ((rfl | rfl) | rfl) | rfl := h <;> decide

theorem not_isBlank_of_isSome_punctuation {c : Char} (h : (punctuation? c).isSome = true) :
    Text.isBlank c = false := by
  unfold punctuation? at h
  split_ifs at h with hopen hclose hopenObject hcloseObject hcolon hcomma
  · rw [eq_of_beq hopen]; decide
  · rw [eq_of_beq hclose]; decide
  · rw [eq_of_beq hopenObject]; decide
  · rw [eq_of_beq hcloseObject]; decide
  · rw [eq_of_beq hcolon]; decide
  · rw [eq_of_beq hcomma]; decide
  · cases h

/-- No white space but the blank itself is written as it is. -/
theorem eq_space_of_mem_escapeChar {c d : Char} (hd : d ∈ escapeChar c)
    (hspace : isSpace d = true) : d = ' ' := by
  have hletters (l : List Char) (hl : l.all (fun e => !isSpace e) = true) (hmem : d ∈ l) :
      d = ' ' := by
    have hnone := List.all_eq_true.mp hl d hmem
    simp [hspace] at hnone
  unfold escapeChar at hd
  split_ifs at hd with _ _ _ _ hnewline hreturn htab hcontrol
  -- The escapes of one letter.
  iterate 7 exact hletters _ (by decide) hd
  · have hhex : ∀ n < 16, isSpace (hexDigit n) = false := by decide
    have hfixed : ['\\', 'u', '0', '0'].all (fun e => !isSpace e) = true := by decide
    refine hletters (['\\', 'u', '0', '0'] ++ [_, _]) ?_ hd
    rw [List.all_append, hfixed]
    simp [hhex (c.toNat / 16) (by omega), hhex (c.toNat % 16) (by omega)]
  · obtain rfl := List.mem_singleton.mp hd
    simp_all [isSpace]

variable {l t : List Char} {ls : List (List Char)}

theorem IsLexeme.eq_space_of_mem (h : IsLexeme l) {c : Char} (hc : c ∈ l)
    (hspace : isSpace c = true) : c = ' ' := by
  cases h with
  | mark hmark =>
      obtain rfl := List.mem_singleton.mp hc
      have hblank := not_isBlank_of_isSome_punctuation hmark
      rw [isBlank_of_isSpace hspace] at hblank
      cases hblank
  | text s =>
      obtain rfl | hc := List.mem_cons.mp hc
      · exact absurd hspace (by decide)
      · obtain hc | hc := List.mem_append.mp hc
        · obtain ⟨d, -, hd⟩ := List.mem_flatMap.mp hc
          exact eq_space_of_mem_escapeChar hd hspace
        · obtain rfl := List.mem_singleton.mp hc
          exact absurd hspace (by decide)
  | word hword =>
      have hchar := hword.2 c hc
      simp [isWordChar, isBlank_of_isSpace hspace] at hchar

/-- The compact text of a value is one line. -/
theorem newline_not_mem_writeChars (v : Json) : '\n' ∉ writeChars v := by
  rw [← flatten_lexemes, List.mem_flatten]
  rintro ⟨l, hl, hc⟩
  exact absurd ((isLexeme_of_mem_lexemes v l hl).eq_space_of_mem hc rfl) (by decide)

/-- A lexeme begins and ends with a character that is no white space. -/
theorem IsLexeme.ends (h : IsLexeme l) : l ≠ [] ∧ l.dropWhile Text.isBlank = l ∧
    l.reverse.dropWhile Text.isBlank = l.reverse := by
  cases h with
  | mark hmark => simp [not_isBlank_of_isSome_punctuation hmark]
  | text s =>
      have hquote : Text.isBlank '"' = false := by decide
      simp [writeText, hquote]
  | word hword =>
      have hblank (m : List Char) (hm : ∀ c ∈ m, c ∈ l) : m.dropWhile Text.isBlank = m := by
        cases m with
        | nil => rfl
        | cons c m =>
            have hchar := hword.2 c (hm c List.mem_cons_self)
            have hc : Text.isBlank c = false := by simp_all [isWordChar]
            rw [List.dropWhile_cons_of_neg (by simp [hc])]
      exact ⟨hword.1, hblank l fun _ => id, hblank l.reverse fun c => List.mem_reverse.mp⟩

end ChatRelay.Json
