import Mathlib
import ChatRelay.Proofs.Json.Layout
import ChatRelay.Proofs.Json.Members

/-!
# Values are read back

The compact text of a value is read as that value (`read?_write`), if its members are in order, its
numbers are such as are read back, and it is not nested too deeply (`Readable`).  Both passes of the
reader are followed along the value: the first one finds its tokens (`Readable.run_writeChars`), and
the second one builds the value from them (`Readable.foldlM_tokens`).

## Main definitions

* `Json.Ascends` — members in the order in which objects hold them
* `Json.Readable` — a value that is read back, with room for so many containers inside one another
* `Json.tokens` — the tokens of the text of a value
-/

namespace ChatRelay.Json

open Lexer

/-! ### Numbers -/

theorem digitsValue_toDigits (n : Nat) : Number.digitsValue (Nat.toDigits 10 n) = n := by
  have hfold : Number.digitsValue (Nat.toDigits 10 n) =
      Nat.ofDigitChars 10 (Nat.toDigits 10 n) 0 := by
    unfold Number.digitsValue Nat.ofDigitChars
    congr 1
    funext sofar c
    rw [Nat.mul_comm]
    rfl
  rw [hfold, Nat.ofDigitChars_ten_toDigits]

/-- Only zero is written with a zero at the front. -/
theorem eq_zero_of_head_toDigits (n : Nat) (h : (Nat.toDigits 10 n).head? = some '0') : n = 0 := by
  induction n using Nat.strong_induction_on with
  | _ n ih =>
      by_cases hsmall : n < 10
      · rw [Nat.toDigits_of_lt_base hsmall] at h
        have hdigit : ∀ n < 10, n.digitChar = '0' → n = 0 := by decide
        exact hdigit n hsmall (Option.some.inj h)
      · rw [Nat.toDigits_of_base_le (by decide) (Nat.le_of_not_lt hsmall),
          List.head?_append_of_ne_nil _ Nat.toDigits_ne_nil] at h
        have hzero := ih (n / 10) (by omega) h
        omega

/-- **A natural number of 64 bits is read back.** -/
theorem word?_writeNumeral {n : Nat} (h : n < UInt64.size) :
    word? (writeNumeral (.integer n)) = some (.number (.integer n)) := by
  have hdigits : ∀ c ∈ Nat.toDigits 10 n, c.isDigit = true := fun c hc =>
    Nat.isDigit_of_mem_toDigits (by decide) (by decide) hc
  have hwritten : writeNumeral (.integer n) = Nat.toDigits 10 n := Nat.toList_repr
  have hne : Nat.toDigits 10 n ≠ [] := Nat.toDigits_ne_nil
  have htake : takeDigits (Nat.toDigits 10 n) = (Nat.toDigits 10 n, []) := by
    rw [takeDigits, List.takeWhile_eq_self_iff.mpr hdigits, List.dropWhile_eq_nil_iff.mpr hdigits]
  have hzero :
      ((Nat.toDigits 10 n).head? == some '0' && (Nat.toDigits 10 n).length != 1) = false := by
    rw [Bool.and_eq_false_iff, or_iff_not_imp_left]
    intro hhead
    rw [eq_zero_of_head_toDigits n (by simpa using hhead)]
    rfl
  have hnumber : number? (Nat.toDigits 10 n) = some (.integer n) := by
    rw [number?]
    · simp [htake, hne, hzero, numberTail?, digitsValue_toDigits, h]
    · intro cs hcs
      have hminus := hdigits '-' (hcs ▸ List.mem_cons_self)
      exact absurd hminus (by decide)
  have hname {name : List Char} (hname : name.all Char.isDigit = false) :
      (Nat.toDigits 10 n == name) = false := by
    refine beq_eq_false_iff_ne.mpr fun heq => ?_
    rw [← heq, List.all_eq_true.mpr hdigits] at hname
    cases hname
  rw [hwritten, word?, hname (by decide), hname (by decide), hname (by decide), hnumber]
  rfl

/-! ### Members in order -/

/-- The keys ascend. -/
def Ascends (members : List (String × Json)) : Prop :=
  members.Pairwise fun m m' => m.1 < m'.1

theorem mem_insertMember {key : String} {value : Json} {members : List (String × Json)}
    {m : String × Json} (h : m ∈ insertMember key value members) :
    m = (key, value) ∨ m ∈ members := by
  induction members with
  | nil => simpa [insertMember] using h
  | cons first members ih =>
      obtain ⟨k, v⟩ := first
      unfold insertMember at h
      split_ifs at h with hless hsame
      · simpa using h
      · rcases List.mem_cons.mp h with h | h <;> simp [h]
      · rcases List.mem_cons.mp h with h | h
        · simp [h]
        · rcases ih h with h | h <;> simp [h]

theorem Ascends.insertMember {members : List (String × Json)} (h : Ascends members) (key : String)
    (value : Json) : Ascends (insertMember key value members) := by
  induction members with
  | nil => exact List.pairwise_singleton ..
  | cons first members ih =>
      obtain ⟨k, v⟩ := first
      obtain ⟨hfirst, hrest⟩ := List.pairwise_cons.mp h
      unfold Json.insertMember
      split_ifs with hless hsame
      · refine List.pairwise_cons.mpr ⟨?_, h⟩
        intro m hm
        rcases List.mem_cons.mp hm with rfl | hm
        · exact hless
        · exact lt_trans hless (hfirst m hm)
      · exact List.pairwise_cons.mpr ⟨fun m hm => hsame ▸ hfirst m hm, hrest⟩
      · refine List.pairwise_cons.mpr ⟨?_, ih hrest⟩
        intro m hm
        rcases mem_insertMember hm with rfl | hm
        · exact lt_of_le_of_ne (le_of_not_gt hless) (Ne.symm hsame)
        · exact hfirst m hm

theorem ascends_ascending (members : List (String × Json)) : Ascends (ascending members) := by
  induction members using List.reverseRecOn with
  | nil => exact List.Pairwise.nil
  | append_singleton members m ih =>
      rw [ascending_concat]
      exact ih.insertMember m.1 m.2

theorem mem_of_mem_ascending {members : List (String × Json)} {m : String × Json}
    (h : m ∈ ascending members) : m ∈ members := by
  induction members using List.reverseRecOn with
  | nil => exact h
  | append_singleton members m' ih =>
      rw [ascending_concat] at h
      rcases mem_insertMember h with rfl | h
      · exact List.mem_append_right _ List.mem_cons_self
      · exact List.mem_append_left _ (ih h)

/-- A key behind all others goes to the end. -/
theorem insertMember_of_forall_lt {key : String} {members : List (String × Json)}
    (h : ∀ m ∈ members, m.1 < key) (value : Json) :
    insertMember key value members = members ++ [(key, value)] := by
  induction members with
  | nil => rfl
  | cons first members ih =>
      obtain ⟨k, v⟩ := first
      obtain ⟨hfirst, hrest⟩ := List.forall_mem_cons.mp h
      rw [insertMember, if_neg (lt_asymm hfirst), if_neg (ne_of_gt hfirst), ih hrest,
        List.cons_append]

/-- Members that are in order stay as they are. -/
theorem Ascends.ascending_eq {members : List (String × Json)} (h : Ascends members) :
    ascending members = members := by
  induction members using List.reverseRecOn with
  | nil => rfl
  | append_singleton members m ih =>
      obtain ⟨hfront, -, hlast⟩ := List.pairwise_append.mp h
      rw [ascending_concat, ih hfront, insertMember_of_forall_lt]
      exact fun m' hm' => hlast m' hm' m List.mem_cons_self

/-! ### Tokens -/

mutual

/-- The tokens of the text of a value. -/
def tokens : Json → List Token
  | .text s => [.text s]
  | .array items => .openArray :: (tokensOfItems items ++ [.closeArray])
  | .object members => .openObject :: (tokensOfMembers members ++ [.closeObject])
  | v => [.scalar v]

/-- The tokens of the items of an array. -/
def tokensOfItems : List Json → List Token
  | [] => []
  | [v] => tokens v
  | v :: w :: vs => tokens v ++ .comma :: tokensOfItems (w :: vs)

/-- The tokens of the members of an object. -/
def tokensOfMembers : List (String × Json) → List Token
  | [] => []
  | [(k, v)] => .text k :: .colon :: tokens v
  | (k, v) :: m :: ms => .text k :: .colon :: (tokens v ++ .comma :: tokensOfMembers (m :: ms))

end

/-- A value that is read back where there is room for `n` containers inside one another. -/
inductive Readable : Nat → Json → Prop
  | null {n : Nat} : Readable n .null
  | bool {n : Nat} (b : Bool) : Readable n (.bool b)
  | number {n : Nat} {x : Numeral} (h : word? (writeNumeral x) = some (.number x)) :
      Readable n (.number x)
  | text {n : Nat} (s : String) : Readable n (.text s)
  | array {n : Nat} {items : List Json} (h : ∀ v ∈ items, Readable n v) :
      Readable (n + 1) (.array items)
  | object {n : Nat} {members : List (String × Json)} (hkeys : Ascends members)
      (h : ∀ m ∈ members, Readable n m.2) : Readable (n + 1) (.object members)

namespace Readable

variable {n : Nat}

theorem ofNat {k : Nat} (h : k < UInt64.size) : Readable n (.ofNat k) :=
  .number (word?_writeNumeral h)

theorem ofMembers {members : List (String × Json)} (h : ∀ m ∈ members, Readable n m.2) :
    Readable (n + 1) (ofMembers members) :=
  .object (ascends_ascending members) fun m hm => h m (mem_of_mem_ascending hm)

theorem record {members : List (String × Option Json)}
    (h : ∀ m ∈ members, ∀ v ∈ m.2, Readable n v) : Readable (n + 1) (record members) := by
  refine .ofMembers fun m hm => ?_
  obtain ⟨⟨key, v?⟩, hmem, hpresent⟩ := List.mem_filterMap.mp hm
  obtain ⟨v, hv, rfl⟩ := Option.map_eq_some_iff.mp hpresent
  exact h (key, v?) hmem v hv

end Readable

variable {n : Nat} {v : Json} {t : List Char}

/-! ### The first pass -/

/-- The text goes on with something that ends a word, or not at all. -/
def EndsWord (t : List Char) : Prop :=
  ∀ c ∈ t.head?, endsWord c = true

theorem endsWord_cons {c : Char} (h : endsWord c = true) (t : List Char) : EndsWord (c :: t) := by
  intro d hd
  cases hd
  exact h

theorem run_word {w : List Char} (hw : IsWord w) (hv : word? w = some v) (ht : EndsWord t)
    (done : List Token) :
    run ⟨.between, done⟩ (w ++ t) = run ⟨.between, .scalar v :: done⟩ t := by
  obtain ⟨hne, hchars⟩ := hw
  cases w with
  | nil => exact absurd rfl hne
  | cons c w =>
      obtain ⟨hc, hw⟩ := List.forall_mem_cons.mp hchars
      have hstep : step ⟨.between, done⟩ c = some ⟨.word [c], done⟩ := by
        simp_all [step, openWith, isWordChar, endsWord]
      have hflush : flush ⟨.word (w.reverse ++ [c]), done⟩ =
          some ⟨.between, .scalar v :: done⟩ := by
        simp [flush, hv]
      rw [run_append, foldlM_cons_of_step hstep, foldlM_word hw, Option.bind_some,
        run_eq_flush (.inr ⟨_, rfl⟩) ht, hflush, Option.bind_some]

theorem run_writeText (s : String) (t : List Char) (done : List Token) :
    run ⟨.between, done⟩ (writeText s ++ t) = run ⟨.between, .text s :: done⟩ t := by
  rw [run_append, foldlM_writeText, Option.bind_some]

theorem run_mark {c : Char} {token : Token} (done : List Token)
    (h : step ⟨.between, done⟩ c = some ⟨.between, token :: done⟩) (t : List Char) :
    run ⟨.between, done⟩ (c :: t) = run ⟨.between, token :: done⟩ t := by
  rw [run_cons, h, Option.bind_some]

/-- The first pass finds the tokens of a value. -/
def IsScanned (v : Json) : Prop :=
  ∀ t, EndsWord t → ∀ done,
    run ⟨.between, done⟩ (writeChars v ++ t) = run ⟨.between, (tokens v).reverse ++ done⟩ t

theorem run_writeItems {items : List Json} (h : ∀ v ∈ items, IsScanned v) (ht : EndsWord t)
    (done : List Token) : run ⟨.between, done⟩ (writeItems items ++ t) =
      run ⟨.between, (tokensOfItems items).reverse ++ done⟩ t := by
  match items, h with
  | [], _ => rfl
  | [v], h => exact h v List.mem_cons_self t ht done
  | v :: w :: vs, h =>
      obtain ⟨hv, hvs⟩ := List.forall_mem_cons.mp h
      rw [writeItems, List.append_assoc, List.cons_append, hv _ (endsWord_cons rfl _),
        run_mark _ rfl, run_writeItems hvs ht, tokensOfItems]
      simp

theorem run_writeMembers {members : List (String × Json)} (h : ∀ m ∈ members, IsScanned m.2)
    (ht : EndsWord t) (done : List Token) : run ⟨.between, done⟩ (writeMembers members ++ t) =
      run ⟨.between, (tokensOfMembers members).reverse ++ done⟩ t := by
  match members, h with
  | [], _ => rfl
  | [(k, v)], h =>
      rw [writeMembers, List.append_assoc, run_writeText, List.cons_append, run_mark _ rfl,
        h (k, v) List.mem_cons_self t ht, tokensOfMembers]
      simp
  | (k, v) :: m :: ms, h =>
      obtain ⟨hv, hms⟩ := List.forall_mem_cons.mp h
      rw [writeMembers, List.append_assoc, run_writeText, List.cons_append, run_mark _ rfl,
        List.append_assoc, List.cons_append, hv _ (endsWord_cons rfl _), run_mark _ rfl,
        run_writeMembers hms ht,
        tokensOfMembers]
      simp

/-- **The first pass finds the tokens of a value** that can be read back. -/
theorem Readable.isScanned (h : Readable n v) : IsScanned v := by
  induction h with
  | null => exact fun t ht => run_word ⟨by decide, List.all_eq_true.mp (by decide)⟩ rfl ht
  | bool b =>
      cases b <;>
        exact fun t ht => run_word ⟨by decide, List.all_eq_true.mp (by decide)⟩ rfl ht
  | number h => exact fun t ht => run_word (isWord_writeNumeral _) h ht
  | text s => exact fun t _ => run_writeText s t
  | @array n items _ ih =>
      intro t ht done
      rw [writeChars, List.cons_append, run_mark _ rfl, List.append_assoc, List.singleton_append,
        run_writeItems ih (endsWord_cons rfl t), run_mark _ rfl, tokens]
      simp
  | @object n members _ _ ih =>
      intro t ht done
      rw [writeChars, List.cons_append, run_mark _ rfl, List.append_assoc, List.singleton_append,
        run_writeMembers ih (endsWord_cons rfl t), run_mark _ rfl, tokens]
      simp

/-! ### The second pass -/

/-- The second pass builds a value from its tokens, where there is room for so many containers. -/
def IsBuilt (n : Nat) (v : Json) : Prop :=
  ∀ stack, stack.length + n ≤ Builder.maxDepth →
    (tokens v).foldlM Builder.step ⟨stack, .value⟩ = some ⟨stack, .separator v⟩

theorem foldlM_cons_of_build {s s' : Builder.State} {token : Token}
    (h : Builder.step s token = some s') (ts : List Token) :
    (token :: ts).foldlM Builder.step s = ts.foldlM Builder.step s' := by
  rw [List.foldlM_cons, h]
  rfl

/-- The first item of an array may stand where the array might end. -/
theorem foldlM_tokens_itemOrEnd (v : Json) (ts : List Token) (items : List Json)
    (below : List Frame) :
    (tokens v ++ ts).foldlM Builder.step ⟨.array items :: below, .itemOrEnd⟩ =
      (tokens v ++ ts).foldlM Builder.step ⟨.array items :: below, .value⟩ := by
  cases v <;> rfl

theorem exists_tokensOfItems (first : Json) (items : List Json) :
    ∃ ts, tokensOfItems (first :: items) = tokens first ++ ts := by
  cases items with
  | nil => exact ⟨[], (List.append_nil _).symm⟩
  | cons v items => exact ⟨_, rfl⟩

theorem exists_tokensOfMembers (first : String × Json) (members : List (String × Json)) :
    ∃ ts, tokensOfMembers (first :: members) = .text first.1 :: ts := by
  cases members with
  | nil => exact ⟨_, rfl⟩
  | cons m members => exact ⟨_, rfl⟩

theorem foldlM_tokens_append (h : IsBuilt n v) (stack : List Frame)
    (hroom : stack.length + n ≤ Builder.maxDepth) (ts : List Token) :
    (tokens v ++ ts).foldlM Builder.step ⟨stack, .value⟩ =
      ts.foldlM Builder.step ⟨stack, .separator v⟩ := by
  rw [List.foldlM_append, h stack hroom]
  rfl

theorem foldlM_tokensOfItems {first : Json} {items : List Json}
    (h : ∀ v ∈ first :: items, IsBuilt n v) (before : List Json) (below : List Frame)
    (hroom : below.length + 1 + n ≤ Builder.maxDepth) :
    (tokensOfItems (first :: items) ++ [Token.closeArray]).foldlM Builder.step
        ⟨.array before :: below, .value⟩ =
      some ⟨below, .separator (.array (before.reverse ++ first :: items))⟩ := by
  obtain ⟨hfirst, hitems⟩ := List.forall_mem_cons.mp h
  induction items generalizing first before with
  | nil =>
      rw [tokensOfItems, foldlM_tokens_append hfirst (.array before :: below) hroom,
        foldlM_cons_of_build rfl, List.reverse_cons]
      rfl
  | cons v items ih =>
      rw [tokensOfItems, List.append_assoc,
        foldlM_tokens_append hfirst (.array before :: below) hroom, List.cons_append,
        foldlM_cons_of_build rfl, ih hitems (first :: before) (List.forall_mem_cons.mp hitems).1
          (List.forall_mem_cons.mp hitems).2, List.reverse_cons, List.append_assoc]
      rfl

theorem foldlM_tokensOfMembers {first : String × Json} {members : List (String × Json)}
    (h : ∀ m ∈ first :: members, IsBuilt n m.2) (before : List (String × Json)) (key : String)
    (below : List Frame) (hroom : below.length + 1 + n ≤ Builder.maxDepth) :
    (tokensOfMembers (first :: members) ++ [Token.closeObject]).foldlM Builder.step
        ⟨.object before key :: below, .key⟩ =
      some ⟨below, .separator (ofMembers (before.reverse ++ first :: members))⟩ := by
  obtain ⟨hfirst, hmembers⟩ := List.forall_mem_cons.mp h
  induction members generalizing first before key with
  | nil =>
      obtain ⟨k, v⟩ := first
      rw [tokensOfMembers, List.cons_append, List.cons_append, foldlM_cons_of_build rfl,
        foldlM_cons_of_build rfl, foldlM_tokens_append hfirst (.object before k :: below) hroom,
        foldlM_cons_of_build rfl, List.reverse_cons]
      rfl
  | cons m members ih =>
      obtain ⟨k, v⟩ := first
      rw [tokensOfMembers, List.cons_append, List.cons_append, List.append_assoc,
        foldlM_cons_of_build rfl, foldlM_cons_of_build rfl,
        foldlM_tokens_append hfirst (.object before k :: below) hroom, List.cons_append,
        foldlM_cons_of_build rfl, ih hmembers ((k, v) :: before) k
          (List.forall_mem_cons.mp hmembers).1 (List.forall_mem_cons.mp hmembers).2,
        List.reverse_cons, List.append_assoc]
      rfl

/-- **The second pass builds a value** that can be read back. -/
theorem Readable.isBuilt (h : Readable n v) : IsBuilt n v := by
  induction h with
  | null => exact fun stack _ => rfl
  | bool b => exact fun stack _ => rfl
  | number h => exact fun stack _ => rfl
  | text s => exact fun stack _ => rfl
  | @array n items _ ih =>
      intro stack hroom
      have hopen : Builder.step ⟨stack, .value⟩ .openArray =
          some ⟨.array [] :: stack, .itemOrEnd⟩ :=
        if_pos (show stack.length < Builder.maxDepth by omega)
      rw [tokens, foldlM_cons_of_build hopen]
      cases items with
      | nil => rfl
      | cons first items =>
          obtain ⟨ts, hts⟩ := exists_tokensOfItems first items
          have hitems := foldlM_tokensOfItems ih [] stack (by omega)
          rw [hts, List.append_assoc] at hitems ⊢
          rw [foldlM_tokens_itemOrEnd, hitems]
          rfl
  | @object n members hkeys _ ih =>
      intro stack hroom
      have hopen : Builder.step ⟨stack, .value⟩ .openObject =
          some ⟨.object [] "" :: stack, .keyOrEnd⟩ :=
        if_pos (show stack.length < Builder.maxDepth by omega)
      rw [tokens, foldlM_cons_of_build hopen]
      cases members with
      | nil => rfl
      | cons first members =>
          obtain ⟨ts, hts⟩ := exists_tokensOfMembers first members
          have hmembers := foldlM_tokensOfMembers ih [] "" stack (by omega)
          have hobject : Json.ofMembers (first :: members) = Json.object (first :: members) :=
            congrArg Json.object hkeys.ascending_eq
          rw [List.reverse_nil, List.nil_append, hobject] at hmembers
          rw [hts] at hmembers ⊢
          exact hmembers

/-! ### Both passes -/

/-- **A value is read back from its text.** -/
theorem read?_write (h : Readable n v) (hn : n ≤ Builder.maxDepth) : read? v.write = some v := by
  have htokens : tokens? (writeChars v) = some (tokens v) := by
    have hscanned := h.isScanned [] (by intro c hc; cases hc) []
    rw [List.append_nil, List.append_nil] at hscanned
    exact hscanned.trans (congrArg some (List.reverse_reverse _))
  have hbuilt := h.isBuilt [] (by simpa using hn)
  rw [read?, write, String.toList_ofList, htokens, Option.bind_some, ofTokens?, Builder.start,
    hbuilt]
  rfl

end ChatRelay.Json
