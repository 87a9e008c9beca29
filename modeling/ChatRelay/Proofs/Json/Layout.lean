import Mathlib
import ChatRelay.Json.Reader
import ChatRelay.Proofs.Json.Lexemes

/-!
# White space in a JSON text

White space may stand before, between and after the lexemes of a text (`Spaced`).  The reader does
not see it: a text with white space is read as the one without (`read?_eq_of_spaced`).  White space
completes the word at hand, and so does the mark that stands behind every word anyway, since no two
words stand side by side.

What a carrier of lines may do to such a text leaves it one: dropping carriage returns
(`Spaced.filter_ne_return`), dropping a blank at the front (`Spaced.of_cons_space`), dropping white
space at the two ends (`Spaced.trimChars`), and taking the lines apart and joining them again
(`Spaced.exists_splitOn`, `spaced_intercalate`).

## Main definitions

* `Json.Spaced` — some lexemes with white space around them
* `Json.flush` — the machine after the word at hand
-/

namespace ChatRelay

theorem splitOn_append {α : Type} [BEq α] [LawfulBEq α] {a : α} {front : List α} (h : a ∉ front)
    (rest : List α) : (front ++ rest).splitOn a = (rest.splitOn a).modifyHead (front ++ ·) := by
  induction front with
  | nil => exact (congrFun List.modifyHead_id _).symm
  | cons b front ih =>
      simp only [List.mem_cons, not_or] at h
      rw [List.cons_append, List.splitOn_cons_eq_if_modifyHead, if_neg (by simpa using Ne.symm h.1),
        ih h.2, List.modifyHead_modifyHead]
      rfl

theorem splitOn_append_cons {α : Type} [BEq α] [LawfulBEq α] {a : α} {front : List α}
    (h : a ∉ front) (rest : List α) :
    (front ++ a :: rest).splitOn a = front :: rest.splitOn a := by
  rw [splitOn_append h, List.splitOn_cons_eq_if_modifyHead, if_pos (beq_self_eq_true a),
    List.modifyHead_cons, List.append_nil]

namespace Json

open Lexer

variable {l t : List Char} {ls : List (List Char)}

/-! ### White space -/

/-- The lexemes with white space before, between and after them. -/
inductive Spaced : List (List Char) → List Char → Prop
  | nil : Spaced [] []
  | space {ls : List (List Char)} {t : List Char} {c : Char} (hc : isSpace c = true)
      (h : Spaced ls t) : Spaced ls (c :: t)
  | lexeme {ls : List (List Char)} {t : List Char} (l : List Char) (h : Spaced ls t) :
      Spaced (l :: ls) (l ++ t)

/-- There need not be any. -/
theorem spaced_flatten (ls : List (List Char)) : Spaced ls ls.flatten := by
  induction ls with
  | nil => exact .nil
  | cons l ls ih => exact .lexeme l ih

theorem Spaced.append {ms : List (List Char)} {u : List Char} (h : Spaced ls t)
    (hms : Spaced ms u) : Spaced (ls ++ ms) (t ++ u) := by
  induction h with
  | nil => exact hms
  | space hc _ ih => exact .space hc ih
  | lexeme l _ ih =>
      rw [List.append_assoc]
      exact .lexeme l ih

theorem Spaced.ne_nil (h : Spaced ls t) (hls : ∀ l ∈ ls, IsLexeme l) (hne : ls ≠ []) : t ≠ [] := by
  cases h with
  | nil => exact absurd rfl hne
  | space _ _ => exact List.cons_ne_nil _ _
  | lexeme l _ => exact List.append_ne_nil_of_left_ne_nil (hls l List.mem_cons_self).ends.1 _

/-- Dropping carriage returns. -/
theorem Spaced.filter_ne_return (h : Spaced ls t) (hls : ∀ l ∈ ls, IsLexeme l) :
    Spaced ls (t.filter (· ≠ '\r')) := by
  induction h with
  | nil => exact .nil
  | space hc _ ih =>
      rw [List.filter_cons]
      split
      · exact .space hc (ih hls)
      · exact ih hls
  | lexeme l _ ih =>
      obtain ⟨hl, hls⟩ := List.forall_mem_cons.mp hls
      have hkeep : l.filter (· ≠ '\r') = l := by
        refine List.filter_eq_self.mpr fun c hc => decide_eq_true fun hreturn => ?_
        subst hreturn
        exact absurd (hl.eq_space_of_mem hc rfl) (by decide)
      rw [List.filter_append, hkeep]
      exact .lexeme l (ih hls)

/-- Dropping a blank at the front. -/
theorem Spaced.of_cons_space (h : Spaced ls (' ' :: t)) (hls : ∀ l ∈ ls, IsLexeme l) :
    Spaced ls t := by
  generalize htext : ' ' :: t = text at h
  cases h with
  | nil => cases htext
  | space _ h =>
      cases htext
      exact h
  | lexeme l h =>
      obtain ⟨hne, hfront, -⟩ := (List.forall_mem_cons.mp hls).1.ends
      cases l with
      | nil => exact absurd rfl hne
      | cons c l =>
          cases htext
          rw [List.dropWhile_cons_of_pos (by decide)] at hfront
          have hlength := (List.dropWhile_sublist (l := l) Text.isBlank).length_le
          rw [hfront] at hlength
          simp at hlength

/-- Dropping white space at the front. -/
theorem Spaced.dropWhile_isBlank (h : Spaced ls t) (hls : ∀ l ∈ ls, IsLexeme l) :
    Spaced ls (t.dropWhile Text.isBlank) := by
  induction h with
  | nil => exact .nil
  | space hc _ ih =>
      rw [List.dropWhile_cons_of_pos (isBlank_of_isSpace hc)]
      exact ih hls
  | lexeme l h _ =>
      obtain ⟨hne, hfront, -⟩ := (List.forall_mem_cons.mp hls).1.ends
      rw [List.dropWhile_append, hfront, if_neg (by simpa using hne)]
      exact .lexeme l h

/-- Dropping white space at the end. -/
theorem Spaced.rdropWhile_isBlank (h : Spaced ls t) (hls : ∀ l ∈ ls, IsLexeme l) :
    Spaced ls (t.reverse.dropWhile Text.isBlank).reverse := by
  induction h with
  | nil => exact .nil
  | @space ls t c hc h ih =>
      rw [List.reverse_cons, List.dropWhile_append]
      split
      · next hempty =>
        have ih := ih hls
        rw [List.isEmpty_iff.mp hempty] at ih
        simpa [isBlank_of_isSpace hc] using ih
      · rw [List.reverse_append]
        exact .space hc (ih hls)
  | @lexeme ls t l h ih =>
      obtain ⟨hl, hls⟩ := List.forall_mem_cons.mp hls
      rw [List.reverse_append, List.dropWhile_append, hl.ends.2.2]
      split
      · next hempty =>
        have ih := ih hls
        rw [List.isEmpty_iff.mp hempty] at ih
        simpa using Spaced.lexeme l ih
      · rw [List.reverse_append, List.reverse_reverse]
        exact .lexeme l (ih hls)

/-- Dropping white space at both ends. -/
theorem Spaced.trimChars (h : Spaced ls t) (hls : ∀ l ∈ ls, IsLexeme l) :
    Spaced ls (Text.trimChars t) :=
  (h.dropWhile_isBlank hls).rdropWhile_isBlank hls

/-! ### Lines -/

/-- The lines of a text with white space hold its lexemes, each of them on one line. -/
theorem Spaced.exists_splitOn (h : Spaced ls t) (hls : ∀ l ∈ ls, IsLexeme l) :
    ∃ parts : List (List (List Char)), parts.flatten = ls ∧
      List.Forall₂ Spaced parts (t.splitOn '\n') := by
  induction h with
  | nil => exact ⟨[[]], rfl, .cons .nil .nil⟩
  | @space ls t c hc h ih =>
      obtain ⟨parts, hparts, hlines⟩ := ih hls
      rw [List.splitOn_cons_eq_if_modifyHead]
      generalize t.splitOn '\n' = lines at hlines
      split
      · exact ⟨[] :: parts, hparts, .cons .nil hlines⟩
      · cases hlines with
        | nil => exact ⟨[], hparts, .nil⟩
        | cons hline hlines => exact ⟨_, hparts, .cons (.space hc hline) hlines⟩
  | @lexeme ls t l h ih =>
      obtain ⟨hl, hls⟩ := List.forall_mem_cons.mp hls
      obtain ⟨parts, rfl, hlines⟩ := ih hls
      have hnewline : '\n' ∉ l := fun hmem => absurd (hl.eq_space_of_mem hmem rfl) (by decide)
      have hne : t.splitOn '\n' ≠ [] := List.splitOn_ne_nil _ _
      rw [splitOn_append hnewline]
      generalize t.splitOn '\n' = lines at hlines hne
      cases hlines with
      | nil => exact absurd rfl hne
      | @cons part line parts lines hline hlines =>
          exact ⟨(l :: part) :: parts, rfl, .cons (.lexeme l hline) hlines⟩

/-- Lines that hold some lexemes hold them as one text. -/
theorem spaced_intercalate {parts : List (List (List Char))} {lines : List (List Char)}
    (h : List.Forall₂ Spaced parts lines) : Spaced parts.flatten (['\n'].intercalate lines) := by
  induction h with
  | nil => exact .nil
  | @cons part line parts lines hline hlines ih =>
      rw [List.flatten_cons]
      by_cases hlast : lines = []
      · subst hlast
        cases hlines
        simpa using hline
      · rw [List.intercalate_cons_of_ne_nil hlast, List.append_assoc]
        exact hline.append (.space rfl ih)

/-! ### Reading -/

/-- The machine after the word at hand, if any. -/
def flush (s : State) : Option State :=
  match s.mode with
  | .between => some s
  | .word w => (word? w.reverse).map fun v => ⟨.between, .scalar v :: s.done⟩
  | _ => none

/-- What comes of some characters from a state on. -/
def run (s : State) (cs : List Char) : Option (List Token) :=
  (cs.foldlM step s).bind finish

theorem run_append (s : State) (cs ds : List Char) :
    run s (cs ++ ds) = (cs.foldlM step s).bind fun s => run s ds := by
  rw [run, List.foldlM_append]
  exact Option.bind_assoc _ _ _

theorem run_cons (s : State) (c : Char) (cs : List Char) :
    run s (c :: cs) = (step s c).bind fun s => run s cs := by
  rw [run, List.foldlM_cons]
  exact Option.bind_assoc _ _ _

variable {s s' : State}

theorem flush_eq_self (hs : s.mode = .between) : flush s = some s := by
  simp [flush, hs]

theorem mode_of_flush (h : flush s = some s') : s'.mode = .between := by
  unfold flush at h
  split at h
  · next hmode =>
    cases h
    exact hmode
  · obtain ⟨v, -, rfl⟩ := Option.map_eq_some_iff.mp h
    rfl
  · cases h

/-- The machine stands between lexemes, or inside or behind a word. -/
def IsOutside (s : State) : Prop :=
  s.mode = .between ∨ ∃ w, s.mode = .word w

/-- A character that ends a word is read as if the word were complete. -/
theorem step_eq_flush (hs : IsOutside s) {c : Char} (hc : endsWord c = true) :
    step s c = (flush s).bind fun s => step s c := by
  obtain hs | ⟨w, hs⟩ := hs
  · rw [flush_eq_self hs]
    rfl
  · simp only [endsWord] at hc
    simp only [step, flush, hs, hc, if_true]
    cases word? w.reverse <;> rfl

/-- So is the end of the text. -/
theorem finish_eq_flush (s : State) : finish s = (flush s).bind finish := by
  obtain ⟨mode, done⟩ := s
  cases mode with
  | word w =>
      simp only [finish, flush]
      cases word? w.reverse <;> rfl
  | _ => rfl

/-- A text whose first character, if any, ends a word is read as if the word were complete. -/
theorem run_eq_flush (hs : IsOutside s) (h : ∀ c ∈ t.head?, endsWord c = true) :
    run s t = (flush s).bind fun s => run s t := by
  cases t with
  | nil => exact finish_eq_flush s
  | cons c t =>
      rw [run_cons, step_eq_flush hs (h c rfl), Option.bind_assoc]
      exact congrArg _ (funext fun s => (run_cons s c t).symm)

/-- White space completes the word at hand. -/
theorem run_cons_space (hs : IsOutside s) {c : Char} (hc : isSpace c = true) :
    run s (c :: t) = (flush s).bind fun s => run s t := by
  rw [run_eq_flush hs (by simp [endsWord, hc])]
  cases hflush : flush s with
  | none => rfl
  | some s' =>
      have hstep : step s' c = some s' := by
        obtain ⟨mode, done⟩ := s'
        obtain rfl : mode = .between := mode_of_flush hflush
        simp [step, openWith, hc]
      rw [Option.bind_some, Option.bind_some, run_cons, hstep, Option.bind_some]

theorem foldlM_cons_of_step {c : Char} (h : step s c = some s') (cs : List Char) :
    (c :: cs).foldlM step s = cs.foldlM step s' := by
  rw [List.foldlM_cons, h]
  rfl

/-- A digit of an escape that is not the last one. -/
theorem step_code {d : Char} {n left : Nat} (hd : Text.digit? 16 d = some n) (hleft : 1 < left)
    (sofar : List Char) (value : Nat) (done : List Token) :
    step ⟨.code sofar left value, done⟩ d =
      some ⟨.code sofar (left - 1) (value * 16 + n), done⟩ := by
  simp [step, hd, Nat.not_le.mpr hleft]

/-- A control character that has no letter of its own is read back. -/
theorem foldlM_controlEscape {c : Char} (hc : c.toNat < 0x20) (sofar : List Char)
    (done : List Token) :
    ['\\', 'u', '0', '0', hexDigit (c.toNat / 16), hexDigit (c.toNat % 16)].foldlM step
      ⟨.text sofar, done⟩ = some ⟨.text (c :: sofar), done⟩ := by
  have hdigit : ∀ n < 16, Text.digit? 16 (hexDigit n) = some n := by decide
  have hzero : Text.digit? 16 '0' = some 0 := by decide
  have hleading {left : Nat} (hleft : 1 < left) : step ⟨.code sofar left 0, done⟩ '0' =
      some ⟨.code sofar (left - 1) 0, done⟩ := step_code hzero hleft sofar 0 done
  have hhigh : step ⟨.code sofar 2 0, done⟩ (hexDigit (c.toNat / 16)) =
      some ⟨.code sofar 1 (c.toNat / 16), done⟩ := by
    have hstep := step_code (hdigit (c.toNat / 16) (by omega)) (Nat.lt_succ_self 1) sofar 0 done
    rwa [Nat.zero_mul, Nat.zero_add] at hstep
  have hunit : codeUnit? sofar c.toNat = some (.text (c :: sofar)) := by
    simp only [codeUnit?, Char.ofNat_toNat]
    rw [if_neg (by simp; omega), if_neg (by simp; omega)]
  have hlast : step ⟨.code sofar 1 (c.toNat / 16), done⟩ (hexDigit (c.toNat % 16)) =
      some ⟨.text (c :: sofar), done⟩ := by
    have hvalue : c.toNat / 16 * 16 + c.toNat % 16 = c.toNat := by omega
    simp [step, hdigit (c.toNat % 16) (by omega), hvalue, hunit]
  rw [foldlM_cons_of_step rfl, foldlM_cons_of_step rfl, foldlM_cons_of_step (hleading (by decide)),
    foldlM_cons_of_step (hleading (by decide)), foldlM_cons_of_step hhigh]
  exact foldlM_cons_of_step hlast []

/-- A character of a text is read back. -/
theorem foldlM_escapeChar (c : Char) (sofar : List Char) (done : List Token) :
    (escapeChar c).foldlM step ⟨.text sofar, done⟩ = some ⟨.text (c :: sofar), done⟩ := by
  unfold escapeChar
  split_ifs with hquote hbackslash hback hfeed hnewline hreturn htab hcontrol
  · rw [eq_of_beq hquote]; rfl
  · rw [eq_of_beq hbackslash]; rfl
  · rw [eq_of_beq hback]; rfl
  · rw [eq_of_beq hfeed]; rfl
  · rw [eq_of_beq hnewline]; rfl
  · rw [eq_of_beq hreturn]; rfl
  · rw [eq_of_beq htab]; rfl
  · exact foldlM_controlEscape hcontrol sofar done
  · simp [step, hquote, hbackslash, hcontrol]

theorem foldlM_flatMap_escapeChar (cs sofar : List Char) (done : List Token) :
    (cs.flatMap escapeChar).foldlM step ⟨.text sofar, done⟩ =
      some ⟨.text (cs.reverse ++ sofar), done⟩ := by
  induction cs generalizing sofar with
  | nil => rfl
  | cons c cs ih =>
      rw [List.flatMap_cons, List.foldlM_append, foldlM_escapeChar, List.reverse_cons,
        List.append_assoc]
      exact ih (c :: sofar)

/-- **A text is read back.** -/
theorem foldlM_writeText (text : String) (done : List Token) :
    (writeText text).foldlM step ⟨.between, done⟩ = some ⟨.between, .text text :: done⟩ := by
  have hopen : step ⟨.between, done⟩ '"' = some ⟨.text [], done⟩ := rfl
  have hclose : step ⟨.text text.toList.reverse, done⟩ '"' =
      some ⟨.between, .text text :: done⟩ := by
    change some (⟨.between, .text (String.ofList text.toList.reverse.reverse) :: done⟩ : State) = _
    rw [List.reverse_reverse, String.ofList_toList]
  rw [writeText, foldlM_cons_of_step hopen, List.foldlM_append, foldlM_flatMap_escapeChar,
    List.append_nil]
  exact foldlM_cons_of_step hclose []

theorem foldlM_word {w : List Char} (hw : ∀ c ∈ w, isWordChar c = true) (sofar : List Char)
    (done : List Token) :
    w.foldlM step ⟨.word sofar, done⟩ = some ⟨.word (w.reverse ++ sofar), done⟩ := by
  induction w generalizing sofar with
  | nil => rfl
  | cons c w ih =>
      obtain ⟨hc, hw⟩ := List.forall_mem_cons.mp hw
      have hstep : step ⟨.word sofar, done⟩ c = some ⟨.word (c :: sofar), done⟩ := by
        simp_all [step, isWordChar, endsWord]
      rw [foldlM_cons_of_step hstep, ih hw, List.reverse_cons, List.append_assoc]
      rfl

/-- A state before some lexemes: a word at hand does not run into the next one. -/
def Admits (s : State) (ls : List (List Char)) : Prop :=
  s.mode = .between ∨ (∃ w, s.mode = .word w) ∧ ∀ l ∈ ls.head?, IsLexeme l ∧ ¬ IsWord l

theorem Admits.isOutside (h : Admits s ls) : IsOutside s :=
  h.imp_right And.left

/-- A lexeme that is no word begins with a character that ends one. -/
theorem IsLexeme.exists_endsWord (h : IsLexeme l) (hword : ¬ IsWord l) :
    ∃ c m, l = c :: m ∧ endsWord c = true := by
  cases h with
  | @mark c hmark => exact ⟨c, [], rfl, by simp [endsWord, hmark]⟩
  | text s => exact ⟨'"', _, rfl, by decide⟩
  | word h => exact absurd h hword

/-- The word at hand is complete before whatever the lexemes are. -/
theorem Admits.run_flatten (h : Admits s ls) :
    run s ls.flatten = (flush s).bind fun s => run s ls.flatten := by
  obtain hs | ⟨hs, hnext⟩ := h
  · rw [flush_eq_self hs, Option.bind_some]
  · refine run_eq_flush (.inr hs) ?_
    cases ls with
    | nil => simp
    | cons l ls =>
        obtain ⟨hl, hword⟩ := hnext l rfl
        obtain ⟨c, m, rfl, hc⟩ := hl.exists_endsWord hword
        simpa using hc

/-- A mark or a text, read after the word at hand, leaves the machine between lexemes. -/
theorem mode_of_foldlM (hs : IsOutside s) (hl : IsLexeme l) (hword : ¬ IsWord l)
    (h : l.foldlM step s = some s') : s'.mode = .between := by
  have hflush : l.foldlM step s = (flush s).bind fun s => l.foldlM step s := by
    obtain ⟨c, m, rfl, hc⟩ := hl.exists_endsWord hword
    simp only [List.foldlM_cons]
    rw [step_eq_flush hs hc]
    exact Option.bind_assoc _ _ _
  rw [hflush, Option.bind_eq_some_iff] at h
  obtain ⟨⟨mode, done⟩, hmode, h⟩ := h
  obtain rfl : mode = .between := mode_of_flush hmode
  cases hl with
  | @mark c hmark =>
      obtain ⟨token, htoken⟩ := Option.isSome_iff_exists.mp hmark
      have hquote : (c == '"') = false := by
        refine beq_eq_false_iff_ne.mpr fun hc => ?_
        subst hc
        cases htoken
      obtain rfl : openWith done c = s' := Option.some.inj h
      unfold openWith
      rw [hquote, htoken]
      split <;> rfl
  | text text =>
      rw [foldlM_writeText] at h
      cases h
      rfl
  | word hl => exact absurd hl hword

/-- After a lexeme the machine stands before the next one. -/
theorem admits_of_foldlM (hs : Admits s (l :: ls)) (hl : IsLexeme l) (hls : ∀ m ∈ ls, IsLexeme m)
    (hsep : Separated (l :: ls)) (h : l.foldlM step s = some s') : Admits s' ls := by
  by_cases hword : IsWord l
  · have hnext : ∀ m ∈ ls.head?, IsLexeme m ∧ ¬ IsWord m := fun m hm =>
      ⟨hls m (List.mem_of_mem_head? hm), (List.isChain_cons.mp hsep).1 m hm hword⟩
    have hmode : s.mode = .between := hs.resolve_right fun hs => (hs.2 l rfl).2 hword
    obtain ⟨mode, done⟩ := s
    obtain rfl : mode = .between := hmode
    obtain ⟨hne, hchars⟩ := hword
    cases l with
    | nil => exact absurd rfl hne
    | cons c w =>
        obtain ⟨hc, hw⟩ := List.forall_mem_cons.mp hchars
        have hstep : step ⟨.between, done⟩ c = some ⟨.word [c], done⟩ := by
          simp_all [step, openWith, isWordChar, endsWord]
        rw [foldlM_cons_of_step hstep, foldlM_word hw] at h
        cases h
        exact .inr ⟨⟨_, rfl⟩, hnext⟩
  · exact .inl (mode_of_foldlM hs.isOutside hl hword h)

/-- **White space does not matter.** -/
theorem Spaced.run_eq (h : Spaced ls t) (hls : ∀ l ∈ ls, IsLexeme l) (hsep : Separated ls)
    (hs : Admits s ls) : run s t = run s ls.flatten := by
  induction h generalizing s with
  | nil => rfl
  | @space ls t c hc h ih =>
      rw [run_cons_space hs.isOutside hc, hs.run_flatten]
      cases hflush : flush s with
      | none => rfl
      | some s' => exact ih hls hsep (.inl (mode_of_flush hflush))
  | @lexeme ls t l h ih =>
      obtain ⟨hl, hls'⟩ := List.forall_mem_cons.mp hls
      have hsep' : Separated ls := (List.isChain_cons.mp hsep).2
      rw [List.flatten_cons, run_append, run_append]
      cases hrun : l.foldlM step s with
      | none => rfl
      | some s' => exact ih hls' hsep' (admits_of_foldlM hs hl hls' hsep hrun)

/-- **A value is read from a text with white space as it is from its compact text.** -/
theorem read?_eq_of_spaced {v : Json} (h : Spaced (lexemes v) t) :
    read? (String.ofList t) = read? v.write := by
  have htokens : tokens? t = tokens? (writeChars v) := by
    rw [← flatten_lexemes v]
    exact h.run_eq (isLexeme_of_mem_lexemes v) (separated_lexemes v) (.inl rfl)
  rw [read?, read?, write, String.toList_ofList, String.toList_ofList, htokens]

end Json

end ChatRelay
