import ChatRelay.Proofs.Tool.Ascending
import ChatRelay.Tool.Assembler

/-!
# Assembly of calls, index by index

An assembler treats each index for itself: what it holds under an index is the merge of the
fragments with that index, and the whole calls are kept in order of arrival.  `Gathers` states this
outcome, and `pushAll_eq_ok_iff` says that it is the only one.

The merge of fragments of one call is a partial operation.  It is associative as such, failures
included (`gather_regroup`), and so fragments may be assembled in groups, and the assembled groups
once more, with the same outcome as in one go (`pushAll_regroup`).

## Main definitions

* `ToolCall.Agrees`, `ToolCall.join` — when two fragments of a call do not conflict, and their merge
* `Assembler.gather` — the merge of the fragments of one index
* `Assembler.WellFormed` — what holds of an assembler however it was reached
* `Assembler.Gathers` — the outcome of pushing some fragments, index by index
-/

namespace ChatRelay

/-! ### Merging two fragments of one call -/

namespace ToolCall

/-- Two texts for one field of a call do not conflict. -/
def Agree (current incoming : String) : Prop :=
  current = "" ∨ incoming = "" ∨ current = incoming

/-- The text of a field for which two texts were given. -/
def pick (current incoming : String) : String :=
  if current = "" then incoming else current

/-- Two fragments of a call do not conflict. -/
def Agrees (call fragment : ToolCall) : Prop :=
  Agree call.id fragment.id ∧ Agree call.function.name fragment.function.name

instance (a b : String) : Decidable (Agree a b) :=
  inferInstanceAs (Decidable (a = "" ∨ b = "" ∨ a = b))

instance (call fragment : ToolCall) : Decidable (call.Agrees fragment) :=
  inferInstanceAs (Decidable (_ ∧ _))

/-- A call and a further fragment of it, put together. -/
def join (call fragment : ToolCall) : ToolCall where
  index := call.index
  id := pick call.id fragment.id
  kind := pick call.kind fragment.kind
  function := {
    name := pick call.function.name fragment.function.name
    arguments := call.function.arguments ++ fragment.function.arguments }

theorem agree_pick (a b c : String) :
    Agree a b ∧ Agree (pick a b) c ↔ Agree b c ∧ Agree a (pick b c) := by
  unfold Agree pick
  by_cases ha : a = "" <;> by_cases hb : b = "" <;> simp [ha, hb]
  grind

theorem pick_assoc (a b c : String) : pick (pick a b) c = pick a (pick b c) := by
  unfold pick
  by_cases ha : a = "" <;> simp [ha]

/-- Three fragments agree in one grouping when they agree in the other. -/
theorem agrees_join (a b c : ToolCall) :
    a.Agrees b ∧ (a.join b).Agrees c ↔ b.Agrees c ∧ a.Agrees (b.join c) := by
  have hid := agree_pick a.id b.id c.id
  have hname := agree_pick a.function.name b.function.name c.function.name
  simp only [Agrees, join]
  tauto

theorem join_assoc (a b c : ToolCall) : (a.join b).join c = a.join (b.join c) := by
  simp only [join, pick_assoc, String.append_assoc]

@[simp] theorem join_index (call fragment : ToolCall) : (call.join fragment).index = call.index :=
  rfl

end ToolCall

namespace Assembler

open ToolCall

theorem mergeText_eq (field : String) (i : UInt32) (a b : String) :
    (Agree a b ∧ mergeText field i a b = .ok (pick a b)) ∨
      (¬ Agree a b ∧ mergeText field i a b = .error (conflict field i a b)) := by
  unfold Agree mergeText pick
  by_cases ha : a = "" <;> by_cases hb : b = "" <;> by_cases hab : a = b <;> simp_all

/-- Fragments that agree are put together, and others conflict. -/
theorem mergeCall_eq (i : UInt32) (call fragment : ToolCall) :
    (call.Agrees fragment ∧ mergeCall i call fragment = (call.join fragment, none)) ∨
      (¬ call.Agrees fragment ∧ (mergeCall i call fragment).2 ≠ none) := by
  unfold mergeCall
  rcases mergeText_eq "id" i call.id fragment.id with ⟨hid, heq⟩ | ⟨hid, heq⟩
  · rcases mergeText_eq "name" i call.function.name fragment.function.name with
      ⟨hname, heq'⟩ | ⟨hname, heq'⟩
    · left
      refine ⟨⟨hid, hname⟩, ?_⟩
      simp [heq, heq', join, pick]
    · right
      refine ⟨fun h => hname h.2, ?_⟩
      simp [heq, heq']
  · right
    refine ⟨fun h => hid h.1, ?_⟩
    simp [heq]

/-! ### Merging the fragments of one index -/

/-- The merge of what is there and further fragments of one index; nothing if they conflict. -/
def gather : Option ToolCall → List ToolCall → Option (Option ToolCall)
  | held, [] => some held
  | none, f :: fs => gather (some f) fs
  | some call, f :: fs => if call.Agrees f then gather (some (call.join f)) fs else none

@[simp] theorem gather_nil (held : Option ToolCall) : gather held [] = some held := by
  cases held <;> rfl

@[simp] theorem gather_none_cons (f : ToolCall) (fs : List ToolCall) :
    gather none (f :: fs) = gather (some f) fs := rfl

theorem gather_some_cons (call f : ToolCall) (fs : List ToolCall) :
    gather (some call) (f :: fs) =
      if call.Agrees f then gather (some (call.join f)) fs else none := rfl

theorem gather_append (held : Option ToolCall) (fs gs : List ToolCall) :
    gather held (fs ++ gs) = (gather held fs).bind fun merged => gather merged gs := by
  induction fs generalizing held with
  | nil => simp
  | cons f fs ih =>
      cases held with
      | none => exact ih (some f)
      | some call =>
          simp only [List.cons_append, gather_some_cons]
          split
          · exact ih (some (call.join f))
          · rfl

/-- Two fragments in a row may be put together first. -/
theorem gather_cons_cons (held : Option ToolCall) (call f : ToolCall) (fs : List ToolCall) :
    gather held (call :: f :: fs) =
      if call.Agrees f then gather held (call.join f :: fs) else none := by
  cases held with
  | none => rfl
  | some b =>
      simp only [gather_some_cons, join_assoc]
      have h := agrees_join b call f
      by_cases h1 : b.Agrees call <;> by_cases h2 : call.Agrees f <;> simp_all

/-- **Fragments may be merged in groups.**  What is held comes before the fragments, and so a group
that begins with what another assembler holds may be merged there first. -/
theorem gather_regroup (held other : Option ToolCall) (fs : List ToolCall) :
    gather held (other.toList ++ fs) =
      (gather other fs).bind fun merged => gather held merged.toList := by
  induction fs generalizing other with
  | nil => simp
  | cons f fs ih =>
      cases other with
      | none => exact ih (some f)
      | some call =>
          rw [gather_some_cons]
          simp only [Option.toList_some, List.singleton_append]
          rw [gather_cons_cons]
          split
          · exact ih (some (call.join f))
          · rfl

/-- Pieces of arguments, without id and name, extend the arguments and never conflict. -/
theorem gather_pieces {call : ToolCall} (hkind : call.kind ≠ "") {fs : List ToolCall}
    (hfs : ∀ f ∈ fs, f.id = "" ∧ f.function.name = "") :
    gather (some call) fs = some (some { call with
      function := { call.function with
        arguments := call.function.arguments ++
          String.join (fs.map fun f => f.function.arguments) } }) := by
  induction fs generalizing call with
  | nil => simp
  | cons f fs ih =>
      obtain ⟨hid, hname⟩ := hfs f List.mem_cons_self
      have hagrees : call.Agrees f := ⟨Or.inr (Or.inl hid), Or.inr (Or.inl hname)⟩
      have hjoin : call.join f = { call with
          function := { call.function with
            arguments := call.function.arguments ++ f.function.arguments } } := by
        simp [join, pick, hid, hname, hkind]
      rw [gather_some_cons, if_pos hagrees, hjoin,
        ih (by simpa using hkind) fun g hg => hfs g (List.mem_cons_of_mem _ hg)]
      simp [String.append_assoc]

/-! ### One fragment -/

/-- What an assembler holds under an index. -/
def held (a : Assembler) (i : UInt32) : Option ToolCall :=
  a.indexed.lookup i

/-- What holds of an assembler however it was reached: indices ascend, every call stands under its
own index, and the others have none. -/
structure WellFormed (a : Assembler) : Prop where
  ascending : Ascending a.indexed
  index : ∀ p ∈ a.indexed, p.2.index = some p.1
  whole : ∀ c ∈ a.whole, c.index = none

theorem wellFormed_empty : ({} : Assembler).WellFormed :=
  ⟨Ascending.nil, by simp, by simp⟩

@[simp] theorem held_empty (i : UInt32) : ({} : Assembler).held i = none := rfl

/-- What comes to stand under an index when a fragment arrives for it. -/
def put (i : UInt32) (fragment : ToolCall) : Option ToolCall → ToolCall
  | none => fragment
  | some call => (mergeCall i call fragment).1

theorem insert_eq_update {l : List (UInt32 × ToolCall)} (h : Ascending l) (i : UInt32)
    (f : ToolCall) :
    insert i f l =
      (Ascending.update i (put i f) l, (l.lookup i).bind fun call => (mergeCall i call f).2) := by
  induction l with
  | nil => rfl
  | cons q rest ih =>
      obtain ⟨k, call⟩ := q
      unfold insert Ascending.update
      by_cases hk : k = i
      · subst hk
        simp [put]
      · by_cases hlt : i < k
        · have hnone : ((k, call) :: rest).lookup i = none := by
            refine Ascending.lookup_eq_none_of_lt fun p hp => ?_
            rcases List.mem_cons.mp hp with rfl | hp
            · exact hlt
            · exact UInt32.lt_trans hlt ((List.pairwise_cons.mp h).1 p hp)
          simp [hk, hlt, hnone, put]
        · simp [hk, hlt, ih h.tail, Ascending.lookup_cons, Ne.symm hk]

theorem push_of_index_none {a : Assembler} {c : ToolCall} (hc : c.index = none) :
    a.push c = ({ a with whole := a.whole ++ [c] }, none) := by
  simp [push, hc]

theorem push_of_index_some {a : Assembler} (ha : a.WellFormed) {c : ToolCall} {i : UInt32}
    (hc : c.index = some i) :
    a.push c = ({ a with indexed := Ascending.update i (put i c) a.indexed },
      (a.held i).bind fun call => (mergeCall i call c).2) := by
  simp [push, hc, insert_eq_update ha.ascending, held]

/-- A fragment never breaks the order of the indices. -/
theorem wellFormed_push {a : Assembler} (ha : a.WellFormed) (c : ToolCall) :
    (a.push c).1.WellFormed := by
  cases hc : c.index with
  | none =>
      rw [push_of_index_none hc]
      refine ⟨ha.ascending, ha.index, fun d hd => ?_⟩
      rcases List.mem_append.mp hd with hd | hd
      · exact ha.whole d hd
      · simpa [List.mem_singleton.mp hd] using hc
  | some i =>
      rw [push_of_index_some ha hc]
      -- Also a fragment that conflicts leaves a call with the same index behind.
      have hasc := Ascending.update_ascending ha.ascending i (put i c)
      refine ⟨hasc, fun p hp => ?_, ha.whole⟩
      have hlookup := Ascending.lookup_of_mem hasc hp
      rw [Ascending.lookup_update ha.ascending] at hlookup
      split at hlookup
      · next hi =>
        have hput : put i c (a.held i) = p.2 := Option.some.inj hlookup
        rw [hi, ← hput]
        cases hheld : a.held i with
        | none => exact hc
        | some call =>
            have hcall : call.index = some i := ha.index _ (Ascending.mem_of_lookup hheld)
            rcases mergeCall_eq i call c with ⟨-, heq⟩ | ⟨-, -⟩
            · simp [put, heq, hcall]
            · unfold put mergeCall
              simp only
              split
              · exact hcall
              · split <;> exact hcall
      · exact ha.index p (Ascending.mem_of_lookup hlookup)

/-! ### Outcomes, index by index -/

/-- The fragments of one index. -/
def at? (i : UInt32) (cs : List ToolCall) : List ToolCall :=
  cs.filter fun c => c.index = some i

@[simp] theorem at?_nil (i : UInt32) : at? i [] = [] := rfl

@[simp] theorem at?_append (i : UInt32) (cs ds : List ToolCall) :
    at? i (cs ++ ds) = at? i cs ++ at? i ds :=
  List.filter_append ..

theorem at?_eq_self {i : UInt32} {cs : List ToolCall} (h : ∀ c ∈ cs, c.index = some i) :
    at? i cs = cs :=
  List.filter_eq_self.mpr fun c hc => decide_eq_true (h c hc)

theorem at?_eq_nil {i : UInt32} {cs : List ToolCall} (h : ∀ c ∈ cs, c.index ≠ some i) :
    at? i cs = [] :=
  List.filter_eq_nil_iff.mpr fun c hc => by simpa using h c hc

theorem at?_singleton (i : UInt32) (c : ToolCall) :
    at? i [c] = if c.index = some i then [c] else [] := by
  by_cases h : c.index = some i <;> simp [at?, h]

/-- What pushing some fragments leaves behind, index by index. -/
structure Gathers (a : Assembler) (cs : List ToolCall) (b : Assembler) : Prop where
  held : ∀ i, gather (a.held i) (at? i cs) = some (b.held i)
  whole : b.whole = a.whole ++ cs.filter fun c => c.index = none

theorem Gathers.refl (a : Assembler) : Gathers a [] a :=
  ⟨fun i => by simp [at?], by simp⟩

theorem Gathers.trans {a b c : Assembler} {cs ds : List ToolCall} (h : Gathers a cs b)
    (h' : Gathers b ds c) : Gathers a (cs ++ ds) c := by
  constructor
  · intro i
    rw [at?_append, gather_append, h.held i]
    exact h'.held i
  · rw [h'.whole, h.whole, List.filter_append, List.append_assoc]

/-- What some fragments leave behind is determined, index by index. -/
theorem Gathers.unique {a b b' : Assembler} {cs : List ToolCall} (hb : b.WellFormed)
    (hb' : b'.WellFormed) (h : Gathers a cs b) (h' : Gathers a cs b') : b = b' := by
  have hindexed : b.indexed = b'.indexed := by
    refine Ascending.ext hb.ascending hb'.ascending fun i => ?_
    exact Option.some.inj ((h.held i).symm.trans (h'.held i))
  have hwhole : b.whole = b'.whole := h.whole.trans h'.whole.symm
  cases b
  cases b'
  simp_all

/-- A fragment and what is held are merged, or they conflict. -/
theorem gather_singleton (i : UInt32) (held : Option ToolCall) (c : ToolCall) :
    (gather held [c] = some (some (put i c held)) ∧
        (held.bind fun call => (mergeCall i call c).2) = none) ∨
      (gather held [c] = none ∧ ∃ e, (held.bind fun call => (mergeCall i call c).2) = some e) := by
  cases held with
  | none => exact Or.inl ⟨rfl, rfl⟩
  | some call =>
      rw [gather_some_cons, Option.bind_some]
      rcases mergeCall_eq i call c with ⟨hagrees, heq⟩ | ⟨hnot, hne⟩
      · rw [if_pos hagrees, gather_nil, put, heq]
        exact Or.inl ⟨rfl, rfl⟩
      · rw [if_neg hnot]
        exact Or.inr ⟨rfl, Option.ne_none_iff_exists'.mp hne⟩

/-- A fragment is taken in, or it conflicts with what stands under its index. -/
theorem push_cases {a : Assembler} (ha : a.WellFormed) (c : ToolCall) :
    (∃ b, a.push c = (b, none) ∧ Gathers a [c] b) ∨
      ∃ b e i, a.push c = (b, some e) ∧ gather (a.held i) (at? i [c]) = none := by
  cases hc : c.index with
  | none =>
      left
      refine ⟨_, push_of_index_none hc, fun i => ?_, by simp [hc]⟩
      simp [at?, hc, held]
  | some k =>
      rw [push_of_index_some ha hc]
      rcases gather_singleton k (a.held k) c with ⟨hgather, hnone⟩ | ⟨hgather, e, he⟩
      · left
        refine ⟨_, by rw [hnone], fun i => ?_, by simp [hc]⟩
        change _ = some ((Ascending.update k (put k c) a.indexed).lookup i)
        rw [Ascending.lookup_update ha.ascending, at?_singleton, hc]
        -- Under its own index the fragment is merged, and nothing happens under the others.
        by_cases hi : i = k
        · subst hi
          rw [if_pos rfl, if_pos rfl]
          exact hgather
        · rw [if_neg hi, if_neg (by simpa using Ne.symm hi), gather_nil]
          rfl
      · right
        exact ⟨_, e, k, by rw [he], by rw [at?_singleton, if_pos hc, hgather]⟩

/-- **Assembly goes index by index.**  Either every index gathers its fragments, or those of some
index conflict and the assembly fails. -/
theorem pushAll_cases {a : Assembler} (ha : a.WellFormed) (cs : List ToolCall) :
    (∃ b, a.pushAll cs = .ok b ∧ b.WellFormed ∧ Gathers a cs b) ∨
      ∃ e i, a.pushAll cs = .error e ∧ gather (a.held i) (at? i cs) = none := by
  induction cs generalizing a with
  | nil => exact Or.inl ⟨a, rfl, ha, Gathers.refl a⟩
  | cons c cs ih =>
      rcases push_cases ha c with ⟨a', hpush, hg⟩ | ⟨a', e, i, hpush, hi⟩
      · have ha' : a'.WellFormed := by
          have h := wellFormed_push ha c
          rwa [hpush] at h
        have hpushAll : a.pushAll (c :: cs) = a'.pushAll cs := by
          rw [pushAll, hpush]
        rw [hpushAll]
        rcases ih ha' with ⟨b, hb, hwf, hg'⟩ | ⟨e, i, he, hi⟩
        · exact Or.inl ⟨b, hb, hwf, hg.trans hg'⟩
        · refine Or.inr ⟨e, i, he, ?_⟩
          rw [← List.singleton_append, at?_append, gather_append, hg.held i]
          exact hi
      · -- No later fragment undoes a conflict.
        refine Or.inr ⟨e, i, by rw [pushAll, hpush], ?_⟩
        rw [← List.singleton_append, at?_append, gather_append, hi]
        rfl

/-- The outcome of an assembly is the one that is right index by index. -/
theorem pushAll_eq_ok_iff {a b : Assembler} (ha : a.WellFormed) {cs : List ToolCall} :
    a.pushAll cs = .ok b ↔ b.WellFormed ∧ Gathers a cs b := by
  rcases pushAll_cases ha cs with ⟨b', hb', hwf, hg⟩ | ⟨e, i, he, hi⟩
  · rw [hb']
    constructor
    · intro h
      cases h
      exact ⟨hwf, hg⟩
    · rintro ⟨hwf', hg'⟩
      rw [hg.unique hwf hwf' hg']
  · rw [he]
    constructor
    · intro h
      cases h
    · rintro ⟨-, hg⟩
      have := hg.held i
      rw [hi] at this
      cases this

/-- Whole calls are kept in order. -/
theorem pushAll_of_index_none {a : Assembler} {cs : List ToolCall}
    (hcs : ∀ c ∈ cs, c.index = none) :
    a.pushAll cs = .ok { a with whole := a.whole ++ cs } := by
  induction cs generalizing a with
  | nil => simp
  | cons c cs ih =>
      rw [pushAll, push_of_index_none (hcs c List.mem_cons_self)]
      simp [ih fun d hd => hcs d (List.mem_cons_of_mem _ hd)]

/-- Indexed calls are assembled when their fragments gather, index by index. -/
theorem pushAll_of_gather {cs : List ToolCall} {entries : List (UInt32 × ToolCall)}
    (hentries : Ascending entries) (hindex : ∀ p ∈ entries, p.2.index = some p.1)
    (hcs : ∀ c ∈ cs, c.index ≠ none)
    (hgather : ∀ i, gather none (at? i cs) = some (entries.lookup i)) :
    ({} : Assembler).pushAll cs = .ok { indexed := entries } := by
  refine (pushAll_eq_ok_iff wellFormed_empty).mpr
    ⟨⟨hentries, hindex, by simp⟩, hgather, ?_⟩
  have hnone : (cs.filter fun c => c.index = none) = [] :=
    List.filter_eq_nil_iff.mpr fun c hc => by simpa using hcs c hc
  rw [hnone]
  rfl

/-- A single call conflicts with nothing. -/
theorem exists_pushAll_singleton (c : ToolCall) :
    ∃ b, ({} : Assembler).pushAll [c] = .ok b := by
  rcases pushAll_cases wellFormed_empty [c] with ⟨b, hb, -⟩ | ⟨e, i, -, hnone⟩
  · exact ⟨b, hb⟩
  · rw [held_empty, at?_singleton] at hnone
    split at hnone <;> simp at hnone

/-- A single call is kept as it is. -/
theorem calls_of_pushAll_singleton {c : ToolCall} {b : Assembler}
    (h : ({} : Assembler).pushAll [c] = .ok b) : b.calls = [c] := by
  cases hc : c.index with
  | none =>
      rw [pushAll, push_of_index_none hc] at h
      cases h
      rfl
  | some i =>
      rw [pushAll, push_of_index_some wellFormed_empty hc] at h
      cases h
      rfl

/-! ### Regrouping -/

/-- The calls of an assembler with one index are the one that it holds there. -/
theorem at?_calls {a : Assembler} (ha : a.WellFormed) (i : UInt32) :
    at? i a.calls = (a.held i).toList := by
  have hwhole : at? i a.whole = [] := at?_eq_nil fun c hc => by simp [ha.whole c hc]
  have hindexed : at? i (a.indexed.map Prod.snd) =
      (a.indexed.filter fun p => p.1 = i).map Prod.snd := by
    rw [at?, List.filter_map]
    refine congrArg _ (List.filter_congr fun p hp => ?_)
    simp [ha.index p hp]
  rw [calls, at?_append, hwhole, hindexed, Ascending.filter_index ha.ascending]
  simp [held, Function.comp_def]

theorem filter_calls {a : Assembler} (ha : a.WellFormed) :
    (a.calls.filter fun c => c.index = none) = a.whole := by
  have hindexed : ((a.indexed.map Prod.snd).filter fun c => c.index = none) = [] := by
    refine List.filter_eq_nil_iff.mpr fun c hc => ?_
    obtain ⟨p, hp, rfl⟩ := List.mem_map.mp hc
    simp [ha.index p hp]
  rw [calls, List.filter_append, hindexed, List.nil_append]
  exact List.filter_eq_self.mpr fun c hc => by simp [ha.whole c hc]

/-- Calls that were assembled are assembled to what they are. -/
theorem pushAll_calls {a : Assembler} (ha : a.WellFormed) :
    ({} : Assembler).pushAll a.calls = .ok a := by
  refine (pushAll_eq_ok_iff wellFormed_empty).mpr ⟨ha, fun i => ?_, ?_⟩
  · rw [at?_calls ha]
    cases a.held i <;> rfl
  · rw [filter_calls ha]
    rfl

/-- Fragments may be pushed in two goes. -/
theorem pushAll_append_eq_ok_iff {a r : Assembler} {cs ds : List ToolCall} :
    a.pushAll (cs ++ ds) = .ok r ↔ ∃ b, a.pushAll cs = .ok b ∧ b.pushAll ds = .ok r := by
  induction cs generalizing a with
  | nil => simp
  | cons c cs ih =>
      rw [List.cons_append, pushAll, pushAll]
      split
      · exact ih
      · simp

/-- **Assembled calls may be assembled further.**  Pushing the calls of another assembler and then
some fragments comes to the same as pushing the fragments there first. -/
theorem pushAll_regroup {a b r : Assembler} (ha : a.WellFormed) (hb : b.WellFormed)
    {cs : List ToolCall} :
    a.pushAll (b.calls ++ cs) = .ok r ↔
      ∃ b', b.pushAll cs = .ok b' ∧ a.pushAll b'.calls = .ok r := by
  have hgather (i : UInt32) : gather (a.held i) (at? i (b.calls ++ cs)) =
      (gather (b.held i) (at? i cs)).bind fun merged => gather (a.held i) merged.toList := by
    rw [at?_append, at?_calls hb, gather_regroup]
  -- Once the fragments are taken in, both sides push the same per index, and the same whole calls.
  have hsame {b' : Assembler} (hwf : b'.WellFormed) (hg : Gathers b cs b') :
      Gathers a (b.calls ++ cs) r ↔ Gathers a b'.calls r := by
    have hheld (i : UInt32) :
        gather (a.held i) (at? i (b.calls ++ cs)) = gather (a.held i) (at? i b'.calls) := by
      rw [hgather, hg.held i, at?_calls hwf]
      rfl
    have hwhole : ((b.calls ++ cs).filter fun c => c.index = none) =
        b'.calls.filter fun c => c.index = none := by
      rw [List.filter_append, filter_calls hb, filter_calls hwf, hg.whole]
    exact ⟨fun h => ⟨fun i => (hheld i).symm.trans (h.held i), by rw [h.whole, hwhole]⟩,
      fun h => ⟨fun i => (hheld i).trans (h.held i), by rw [h.whole, hwhole]⟩⟩
  constructor
  · intro h
    obtain ⟨hr, hg⟩ := (pushAll_eq_ok_iff ha).mp h
    rcases pushAll_cases hb cs with ⟨b', hb', hwf, hg'⟩ | ⟨e, i, -, hi⟩
    · exact ⟨b', hb', (pushAll_eq_ok_iff ha).mpr ⟨hr, (hsame hwf hg').mp hg⟩⟩
    · have := hg.held i
      rw [hgather, hi] at this
      cases this
  · rintro ⟨b', hb', h⟩
    obtain ⟨hr, hg⟩ := (pushAll_eq_ok_iff ha).mp h
    obtain ⟨hwf, hg'⟩ := (pushAll_eq_ok_iff hb).mp hb'
    exact (pushAll_eq_ok_iff ha).mpr ⟨hr, (hsame hwf hg').mpr hg⟩

end Assembler

end ChatRelay
