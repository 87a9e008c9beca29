import ChatRelay.Proofs.Stream.Ids

/-!
# Which ids are given

Where the calls of a stream state no ids, an accumulator numbers them: the calls of the stream have
the ids of `0`, `1`, `2` and so on, each once, in the order in which they start
(`ids_named`).  Assembly keeps that.  A call gathers the id and the name of the fragment that starts
it, since the others only continue it, so the calls that were assembled are labelled as the
fragments are, in another order at most (`perm_labels_of_pushAll`).

What a call is numbered with is all that is new: it gathers as it would have without
(`exists_pushAll_numbered`).  So the ids of a numbered reply are not those of the reply unless there
was nothing to number (`ids_numbered`).

## Main definitions

* `ToolCall.Continues` — a fragment that states neither an id nor a name
* `ToolCall.labels` — the ids and names that fragments state
-/

namespace ChatRelay

namespace ToolCall

/-- A fragment only continues a call: it states neither an id nor a name. -/
def Continues (c : ToolCall) : Prop :=
  c.id = "" ∧ c.function.name = ""

/-- The id and the name of a call. -/
def label (c : ToolCall) : String × String :=
  (c.id, c.function.name)

/-- The ids and names that fragments state; those that only continue a call state none. -/
def labels (cs : List ToolCall) : List (String × String) :=
  (cs.map label).filter (· ≠ ("", ""))

theorem continues_iff {c : ToolCall} : c.Continues ↔ c.label = ("", "") := by
  simp [Continues, label]

theorem Continues.not_startsWithoutId {c : ToolCall} (h : c.Continues) : ¬ c.StartsWithoutId :=
  fun hstart => hstart.1 h.2

@[simp] theorem labels_append (cs ds : List ToolCall) :
    labels (cs ++ ds) = labels cs ++ labels ds := by
  simp [labels]

theorem labels_of_continues {cs : List ToolCall} (h : ∀ c ∈ cs, c.Continues) : labels cs = [] := by
  refine List.filter_eq_nil_iff.mpr fun l hl => ?_
  obtain ⟨c, hc, rfl⟩ := List.mem_map.mp hl
  simpa using continues_iff.mp (h c hc)

theorem labels_singleton_congr {c d : ToolCall} (h : c.label = d.label) :
    labels [c] = labels [d] := by
  simp [labels, h]

/-- The labels of one kind are those of the fragments of the kind. -/
theorem countP_labels {p : String × String → Bool} (hp : p ("", "") = false) (cs : List ToolCall) :
    (labels cs).countP p = cs.countP fun c => p c.label := by
  rw [labels, List.countP_filter, List.countP_map]
  refine List.countP_congr fun c _ => ?_
  by_cases hlabel : c.label = ("", "") <;> simp [hlabel, hp]

/-- The ids of the calls that have a name are among the labels. -/
theorem ids_eq_labels (cs : List ToolCall) :
    (cs.filter fun c => c.function.name ≠ "").map ToolCall.id =
      ((labels cs).filter fun l => l.2 ≠ "").map Prod.fst := by
  have hfilter : ((cs.map label).filter fun l => l ≠ ("", "")).filter (fun l => l.2 ≠ "") =
      (cs.map label).filter fun l => l.2 ≠ "" := by
    rw [List.filter_filter]
    refine List.filter_congr fun l _ => ?_
    by_cases hname : l.2 = ""
    · simp [hname]
    · have hne : l ≠ ("", "") := fun h => hname (congrArg Prod.snd h)
      simp [hname, hne]
  rw [labels, hfilter, List.filter_map, List.map_map]
  rfl

end ToolCall

open ToolCall

namespace Assembler

theorem at?_cons_of_index {i : UInt32} {c : ToolCall} (h : c.index = some i) (cs : List ToolCall) :
    at? i (c :: cs) = c :: at? i cs :=
  List.filter_cons_of_pos (by simpa using h)

theorem at?_cons_of_index_ne {i : UInt32} {c : ToolCall} (h : c.index ≠ some i)
    (cs : List ToolCall) : at? i (c :: cs) = at? i cs :=
  List.filter_cons_of_neg (by simpa using h)

/-! ### The labels of assembled calls -/

/-- What continues a call leaves its label as it is. -/
theorem label_join {c f : ToolCall} (hf : f.Continues) :
    c.Agrees f ∧ (c.join f).label = c.label := by
  obtain ⟨hid, hname⟩ := hf
  refine ⟨⟨Or.inr (Or.inl hid), Or.inr (Or.inl hname)⟩, ?_⟩
  by_cases hempty : c.id = "" <;> by_cases hempty' : c.function.name = "" <;>
    simp [label, ToolCall.join, pick, hid, hname, hempty, hempty']

theorem gather_of_continues {c : ToolCall} {fs : List ToolCall} (hfs : ∀ f ∈ fs, f.Continues) :
    ∃ d, gather (some c) fs = some (some d) ∧ d.label = c.label := by
  induction fs generalizing c with
  | nil => exact ⟨c, rfl, rfl⟩
  | cons f fs ih =>
      obtain ⟨hagrees, hlabel⟩ := label_join (c := c) (hfs f List.mem_cons_self)
      obtain ⟨d, hd, hdlabel⟩ := @ih (c.join f) fun g hg => hfs g (List.mem_cons_of_mem _ hg)
      exact ⟨d, by rw [gather_some_cons, if_pos hagrees, hd], hdlabel.trans hlabel⟩

/-- Fragments of which all but the first continue a call come to one that is labelled as the
first. -/
theorem labels_gathered {fs : List ToolCall} (hfs : ∀ f ∈ fs.tail, f.Continues)
    {held : Option ToolCall} (h : gather none fs = some held) :
    labels held.toList = labels fs := by
  cases fs with
  | nil =>
      cases h
      rfl
  | cons f fs =>
      rw [List.tail_cons] at hfs
      obtain ⟨d, hd, hlabel⟩ := gather_of_continues (c := f) hfs
      rw [gather_none_cons, hd] at h
      cases h
      rw [← List.singleton_append (l := fs), labels_append, labels_of_continues hfs,
        List.append_nil]
      exact labels_singleton_congr hlabel

/-- Fragments that are labelled alike index by index are labelled alike, in another order at
most. -/
theorem perm_labels {cs ds : List ToolCall} (hcs : ∀ c ∈ cs, c.index ≠ none)
    (hds : ∀ d ∈ ds, d.index ≠ none) (h : ∀ i, (labels (at? i cs)).Perm (labels (at? i ds))) :
    (labels cs).Perm (labels ds) := by
  -- With its index a label can be counted where the index is.
  have hcount (cs : List ToolCall) (i : UInt32) (l : String × String) (hl : l ≠ ("", "")) :
      (cs.map fun c => (c.index, c.label)).count (some i, l) = (labels (at? i cs)).count l := by
    rw [List.count, List.count, countP_labels (by simpa using Ne.symm hl), at?, List.countP_filter,
      List.countP_map]
    refine List.countP_congr fun c _ => ?_
    simp [and_comm]
  have hlabels (cs : List ToolCall) : labels cs =
      ((cs.map fun c => (c.index, c.label)).filter (·.2 ≠ ("", ""))).map Prod.snd := by
    rw [List.filter_map, List.map_map, labels, List.filter_map]
    rfl
  have hnone {cs : List ToolCall} (hcs : ∀ c ∈ cs, c.index ≠ none) {l : String × String} :
      (none, l) ∉ cs.map fun c => (c.index, c.label) := by
    intro hmem
    obtain ⟨c, hc, heq⟩ := List.mem_map.mp hmem
    exact hcs c hc (congrArg Prod.fst heq)
  rw [hlabels cs, hlabels ds]
  refine List.Perm.map _ (List.perm_iff_count.mpr ?_)
  rintro ⟨index, l⟩
  by_cases hl : l = ("", "")
  · rw [List.count_eq_zero_of_not_mem (by simp [hl]), List.count_eq_zero_of_not_mem (by simp [hl])]
  · rw [List.count_filter (by simpa using hl), List.count_filter (by simpa using hl)]
    cases index with
    | none =>
        rw [List.count_eq_zero_of_not_mem fun hmem => hnone hcs hmem,
          List.count_eq_zero_of_not_mem fun hmem => hnone hds hmem]
    | some i => rw [hcount cs i l hl, hcount ds i l hl, List.perm_iff_count.mp (h i) l]

/-- **Assembled calls are labelled as their fragments are,** where all but the first fragment of a
call continue it. -/
theorem perm_labels_of_pushAll {cs : List ToolCall} {a : Assembler}
    (h : ({} : Assembler).pushAll cs = .ok a) (hcs : ∀ c ∈ cs, c.index ≠ none)
    (hcontinues : ∀ i, ∀ f ∈ (at? i cs).tail, f.Continues) :
    (labels a.calls).Perm (labels cs) := by
  obtain ⟨hwf, hgathers⟩ := (pushAll_eq_ok_iff wellFormed_empty).mp h
  refine perm_labels (fun c hc hnone => ?_) hcs fun i => ?_
  · have hwhole : c ∈ a.whole := by
      rw [← filter_calls hwf]
      exact List.mem_filter.mpr ⟨hc, by simpa using hnone⟩
    rw [hgathers.whole, List.nil_append] at hwhole
    exact hcs c (List.mem_of_mem_filter hwhole) hnone
  · rw [at?_calls hwf]
    exact List.Perm.of_eq (labels_gathered (hcontinues i) (hgathers.held i))

end Assembler

namespace Accumulator

open Assembler (at? gather)

/-! ### Numbering -/

theorem at?_named_of_not_starts {i : UInt32} {started : Nat} {cs : List ToolCall}
    (hcs : ∀ c ∈ at? i cs, ¬ c.StartsWithoutId) : at? i (named started cs) = at? i cs := by
  induction cs generalizing started with
  | nil => rfl
  | cons c cs ih =>
      rw [named_cons]
      by_cases hindex : c.index = some i
      · rw [Assembler.at?_cons_of_index hindex] at hcs ⊢
        have hc : ¬ c.StartsWithoutId := hcs c List.mem_cons_self
        rw [Assembler.at?_cons_of_index (by simpa using hindex), identified, if_neg hc,
          ih fun d hd => hcs d (List.mem_cons_of_mem _ hd)]
      · rw [Assembler.at?_cons_of_index_ne hindex] at hcs ⊢
        rw [Assembler.at?_cons_of_index_ne (by simpa using hindex), ih hcs]

/-- Where only the first fragment of an index may start a call, only that one is given an id. -/
theorem at?_named {i : UInt32} (started : Nat) {cs : List ToolCall}
    (hcs : ∀ c ∈ (at? i cs).tail, ¬ c.StartsWithoutId) :
    ∃ n, at? i (named started cs) = (at? i cs).modifyHead (identified n) := by
  induction cs generalizing started with
  | nil => exact ⟨started, rfl⟩
  | cons c cs ih =>
      rw [named_cons]
      by_cases hindex : c.index = some i
      · rw [Assembler.at?_cons_of_index hindex] at hcs ⊢
        rw [Assembler.at?_cons_of_index (by simpa using hindex), at?_named_of_not_starts hcs]
        exact ⟨started, rfl⟩
      · rw [Assembler.at?_cons_of_index_ne hindex] at hcs ⊢
        rw [Assembler.at?_cons_of_index_ne (by simpa using hindex)]
        exact ih _ hcs

/-- Closing a call continues it. -/
theorem continues_closingAt (text : String) (i : UInt32) (given : Option Bool) :
    ∀ f ∈ closingAt text i given, f.Continues := by
  intro f hf
  unfold closingAt at hf
  split at hf
  · rw [List.mem_singleton.mp hf]
    exact ⟨rfl, rfl⟩
  · simp at hf

/-- A call that was given an id gathers as it would have without. -/
theorem gather_identified_cons (n : Nat) {c : ToolCall} {fs : List ToolCall}
    (hfs : ∀ f ∈ fs, f.Continues) :
    gather (some (identified n c)) fs = (gather (some c) fs).map (Option.map (identified n)) := by
  induction fs generalizing c with
  | nil => rfl
  | cons f fs ih =>
      have hf := hfs f List.mem_cons_self
      have hjoin : (identified n c).join f = identified n (c.join f) := by
        obtain ⟨hid, hname⟩ := hf
        by_cases hempty : c.id = "" <;> by_cases hempty' : c.function.name = "" <;>
          simp [identified, StartsWithoutId, ToolCall.join, pick, hid, hname, hempty, hempty',
            positionalId_ne_empty]
      rw [Assembler.gather_some_cons, Assembler.gather_some_cons,
        if_pos (Assembler.label_join hf).1, if_pos (Assembler.label_join hf).1, hjoin,
        ih fun g hg => hfs g (List.mem_cons_of_mem _ hg)]

theorem gather_modifyHead (n : Nat) {fs : List ToolCall} (hfs : ∀ f ∈ fs.tail, f.Continues) :
    gather none (fs.modifyHead (identified n)) =
      (gather none fs).map (Option.map (identified n)) := by
  cases fs with
  | nil => rfl
  | cons f fs => exact gather_identified_cons n hfs

/-- Under an index whose fragments, but for the first, continue a call and may close it, numbering
changes the call that is gathered by its id alone. -/
theorem gather_at?_named {cs repaired closing : List ToolCall} {i : UInt32} {held : Option ToolCall}
    (hclosing : at? i repaired = at? i (named 0 cs) ++ closing)
    (hcontinues : ∀ f ∈ (at? i cs).tail ++ closing, f.Continues)
    (hnil : at? i cs = [] → closing = [])
    (hheld : gather none (at? i cs ++ closing) = some held) :
    ∃ n, gather none (at? i repaired) = some (held.map (identified n)) ∧
      (∀ f ∈ (at? i repaired).tail, f.Continues) ∧
      labels (at? i repaired) = labels (at? i (named 0 cs)) := by
  obtain ⟨n, hnamed⟩ := at?_named 0 fun c hc =>
    (hcontinues c (List.mem_append_left _ hc)).not_startsWithoutId
  have hlabels : labels (at? i repaired) = labels (at? i (named 0 cs)) := by
    rw [hclosing, labels_append,
      labels_of_continues fun f hf => hcontinues f (List.mem_append_right _ hf), List.append_nil]
  have hnumbered : at? i repaired = (at? i cs ++ closing).modifyHead (identified n) ∧
      (at? i cs ++ closing).tail = (at? i cs).tail ++ closing := by
    rw [hclosing, hnamed]
    cases hlist : at? i cs with
    | nil => simp [hnil hlist]
    | cons c fs => exact ⟨rfl, rfl⟩
  rw [← hnumbered.2] at hcontinues
  refine ⟨n, ?_, ?_, hlabels⟩
  · rw [hnumbered.1, gather_modifyHead n hcontinues, hheld, Option.map_some]
  · rw [hnumbered.1, List.tail_modifyHead]
    exact hcontinues

/-- **Numbered calls are assembled to the calls, numbered.**  An index may end with fragments that
close its call. -/
theorem exists_pushAll_numbered {cs repaired : List ToolCall} {entries : List (UInt32 × ToolCall)}
    (hentries : Ascending entries) (hcs : ∀ c ∈ cs, c.index ≠ none)
    (hrepaired : ∀ c ∈ repaired, c.index ≠ none)
    (hat : ∀ i, ∃ closing, at? i repaired = at? i (named 0 cs) ++ closing ∧
      (∀ f ∈ (at? i cs).tail ++ closing, f.Continues) ∧ (at? i cs = [] → closing = []) ∧
      gather none (at? i cs ++ closing) = some (entries.lookup i)) :
    ∃ a, ({} : Assembler).pushAll repaired = .ok a ∧
      List.Forall₂ (fun c d => ∃ n, d = identified n c) (entries.map Prod.snd) a.calls ∧
      (labels a.calls).Perm (labels (named 0 cs)) := by
  have hgather (i : UInt32) : ∃ n,
      gather none (at? i repaired) = some ((entries.lookup i).map (identified n)) ∧
        (∀ f ∈ (at? i repaired).tail, f.Continues) ∧
        labels (at? i repaired) = labels (at? i (named 0 cs)) := by
    obtain ⟨closing, hclosing, hcontinues, hnil, hheld⟩ := hat i
    exact gather_at?_named hclosing hcontinues hnil hheld
  have hlabels : (labels repaired).Perm (labels (named 0 cs)) := by
    refine Assembler.perm_labels hrepaired (index_named (p := (· ≠ none)) hcs) fun i => ?_
    obtain ⟨-, -, -, hlabels⟩ := hgather i
    exact List.Perm.of_eq hlabels
  rcases Assembler.pushAll_cases Assembler.wellFormed_empty repaired with
    ⟨a, ha, hwf, hgathers⟩ | ⟨e, i, -, hnone⟩
  · have hcontinues (i : UInt32) : ∀ f ∈ (at? i repaired).tail, f.Continues := by
      obtain ⟨-, -, hcontinues, -⟩ := hgather i
      exact hcontinues
    have hassembled := Assembler.perm_labels_of_pushAll ha hrepaired hcontinues
    refine ⟨a, ha, ?_, hassembled.trans hlabels⟩
    have hwhole : a.whole = [] := by
      rw [hgathers.whole]
      exact List.filter_eq_nil_iff.mpr fun c hc => by simpa using hrepaired c hc
    have hindexed : List.Forall₂ (fun p q => ∃ n, q.2 = identified n p.2) entries a.indexed := by
      refine Ascending.forall₂_of_lookup (R := fun c d => ∃ n, d = identified n c) hentries
        hwf.ascending fun i => ?_
      obtain ⟨n, hn, -⟩ := hgather i
      have hlookup : a.indexed.lookup i = (entries.lookup i).map (identified n) :=
        Option.some.inj ((hgathers.held i).symm.trans hn)
      rw [hlookup]
      cases entries.lookup i with
      | none => exact .none
      | some c => exact .some ⟨n, rfl⟩
    rw [Assembler.calls, hwhole, List.append_nil]
    exact List.forall₂_map_left_iff.mpr (List.forall₂_map_right_iff.mpr hindexed)
  · obtain ⟨n, hn, -⟩ := hgather i
    rw [Assembler.held_empty, hn] at hnone
    cases hnone

/-! ### The ids of numbered calls -/

/-- **Calls without ids are numbered in the order in which they start.** -/
theorem ids_named {started : Nat} {cs : List ToolCall}
    (hcs : ∀ c ∈ cs, c.function.name ≠ "" → c.id = "") :
    ((named started cs).filter fun c => c.function.name ≠ "").map ToolCall.id =
      (List.range' started (starts cs)).map positionalId := by
  induction cs generalizing started with
  | nil => rfl
  | cons c cs ih =>
      have hrest := @ih (started + starts [c]) fun d hd => hcs d (List.mem_cons_of_mem _ hd)
      rw [named_cons, starts_cons c cs]
      by_cases hname : c.function.name = ""
      · have hzero : starts [c] = 0 := by simp [starts, hname]
        rw [List.filter_cons_of_neg (by simp [hname]), hrest, hzero, Nat.zero_add, Nat.add_zero]
      · have hone : starts [c] = 1 := by simp [starts, hname]
        have hid : (identified started c).id = positionalId started := by
          simp [identified, StartsWithoutId, hname, hcs c List.mem_cons_self hname]
        rw [List.filter_cons_of_pos (by simp [hname]), List.map_cons, hrest, hone, hid,
          Nat.add_comm 1, List.range'_succ, List.map_cons]

theorem starts_named (started : Nat) (cs : List ToolCall) :
    starts (named started cs) = starts cs := by
  induction cs generalizing started with
  | nil => rfl
  | cons c cs ih =>
      rw [named_cons, starts_cons, ih, starts_cons c cs]
      simp [starts]

/-- What calls are numbered with is seen in their labels only. -/
theorem starts_eq_countP_labels (cs : List ToolCall) :
    starts cs = (labels cs).countP fun l => !l.2.isEmpty := by
  rw [countP_labels (by simp)]
  rfl

section Numbered

variable {calls numbered : List ToolCall}
  (h : List.Forall₂ (fun c d => ∃ n, d = identified n c) calls numbered)
include h

theorem starts_numbered : starts numbered = starts calls := by
  induction h with
  | nil => rfl
  | @cons c d cs ds hd _ ih =>
      obtain ⟨n, rfl⟩ := hd
      rw [starts_cons, ih, starts_cons c cs]
      simp [starts]

/-- As many ids are given as calls start. -/
theorem countP_id_numbered (hcalls : ∀ c ∈ calls, c.function.name ≠ "" → c.id = "") :
    numbered.countP (fun c => c.id ≠ "") = calls.countP (fun c => c.id ≠ "") + starts calls := by
  induction h with
  | nil => rfl
  | @cons c d cs ds hd _ ih =>
      obtain ⟨n, rfl⟩ := hd
      have hrest := ih fun e he => hcalls e (List.mem_cons_of_mem _ he)
      have hhead : [identified n c].countP (fun c => c.id ≠ "") =
          [c].countP (fun c => c.id ≠ "") + starts [c] := by
        by_cases hname : c.function.name = ""
        · simp [identified, StartsWithoutId, starts, hname]
        · have hid := hcalls c List.mem_cons_self hname
          simp [identified, StartsWithoutId, starts, hname, hid, positionalId_ne_empty]
      rw [← List.singleton_append, List.countP_append, hhead, hrest,
        ← List.singleton_append (l := cs), List.countP_append, starts_append]
      omega

/-- **The ids of a numbered reply are not those of the reply,** unless no call starts in it.
Calls of the same labels, in another order or in pieces, have the same ids. -/
theorem ids_numbered (hcalls : ∀ c ∈ calls, c.function.name ≠ "" → c.id = "")
    {fragments kept : List ToolCall}
    (hfragments : ∀ c ∈ fragments, c.function.name ≠ "" → c.id = "")
    (hnumbered : (labels numbered).Perm (labels (named 0 fragments)))
    (hkept : (labels kept).Perm (labels numbered)) :
    ((kept.filter fun c => c.function.name ≠ "").map ToolCall.id).Perm
        ((List.range (starts calls)).map positionalId) ∧
      (kept.map ToolCall.id = calls.map ToolCall.id → starts calls = 0) := by
  have hstarts : starts calls = starts fragments := by
    rw [← starts_numbered h, ← starts_named 0 fragments, starts_eq_countP_labels,
      starts_eq_countP_labels, hnumbered.countP_eq]
  constructor
  · have hids := @ids_named 0 _ hfragments
    rw [ids_eq_labels] at hids
    rw [ids_eq_labels, List.range_eq_range', hstarts, ← hids]
    exact ((hkept.trans hnumbered).filter _).map _
  · intro hsame
    -- Ids are not counted alike, as every call that starts has one among the numbered only.
    have hcountP (cs : List ToolCall) :
        cs.countP (fun c => c.id ≠ "") = (cs.map ToolCall.id).countP (· ≠ "") := by
      rw [List.countP_map]
      rfl
    have hlabels : kept.countP (fun c => c.id ≠ "") = numbered.countP (fun c => c.id ≠ "") := by
      have hcount := hkept.countP_eq fun l => decide (l.1 ≠ "")
      rwa [countP_labels (by simp), countP_labels (by simp)] at hcount
    have hmore := countP_id_numbered h hcalls
    rw [← hlabels, hcountP, hsame, ← hcountP] at hmore
    omega

end Numbered

end Accumulator

end ChatRelay
