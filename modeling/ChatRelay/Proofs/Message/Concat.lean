import ChatRelay.Proofs.Message.Report
import ChatRelay.Proofs.Outcome
import ChatRelay.Proofs.Tool.Assembler

/-!
# Concatenation does not depend on grouping

Fragments may be concatenated in consecutive groups, and the messages of the groups once more, with
the same outcome as in one go (`Message.concat_flatten`).  A group that holds one fragment is taken
as it is and all others are rebuilt, so the proof compares what *adding* either of them to a merge
leaves behind (`Merge.concat_add`).

`Merge.Adds` says field by field what adding a fragment leaves behind.  Every field has a law of its
own by which it may be regrouped; for the calls this is `Assembler.pushAll_regroup`.

## Main definitions

* `Merge.Adds` — the outcome of adding a fragment, field by field
* `Merge.WellFormed` — what holds of a merge however it was reached
* `Message.IsSpoken`, `Message.IsFragment` — what the model says, and how it comes in pieces
-/

namespace ChatRelay

namespace Merge

open Result

/-! ### One fragment -/

/-- What adding a fragment leaves behind, field by field. -/
structure Adds (m : Merge) (f : Message) (r : Merge) : Prop where
  role : addRole m.role f.role = .ok r.role
  calls : m.calls.pushAll f.toolCalls = .ok r.calls
  toolCallId : addOnce "tool_call_id" m.toolCallId f.toolCallId = .ok r.toolCallId
  toolName : addOnce "tool_name" m.toolName f.toolName = .ok r.toolName
  content : r.content = m.content ++ f.content
  reasoning : r.reasoning = m.reasoning ++ f.reasoning.getD ""
  parts : r.parts = m.parts ++ f.parts
  info : r.info = addInfo m.info f.info

theorem add_eq_ok_iff {m r : Merge} {f : Message} : m.add f = .ok r ↔ Adds m f r := by
  unfold add
  simp only [bind_eq_ok_iff]
  constructor
  · rintro ⟨role, hrole, calls, hcalls, id, hid, name, hname, h⟩
    cases h
    exact ⟨hrole, hcalls, hid, hname, rfl, rfl, rfl, rfl⟩
  · intro h
    refine ⟨_, h.role, _, h.calls, _, h.toolCallId, _, h.toolName, ?_⟩
    rw [← h.content, ← h.reasoning, ← h.parts, ← h.info]
    rfl

/-! ### Fields that are given once -/

theorem addRole_eq_ok_iff {current r : Option Role} {role : Role} :
    addRole current role = .ok r ↔ (current = none ∨ current = some role) ∧ r = some role := by
  cases current with
  | none => simp [addRole, eq_comm]
  | some c =>
      by_cases h : c = role
      · simp [addRole, h, eq_comm]
      · simp [addRole, h]

/-- Of two roles in a row the second changes nothing, as it must be the first. -/
theorem addRole_addRole {current r : Option Role} {role role' : Role} :
    (∃ c, addRole current role = .ok c ∧ addRole c role' = .ok r) ↔
      role = role' ∧ addRole current role = .ok r := by
  simp only [addRole_eq_ok_iff]
  constructor
  · rintro ⟨_, ⟨hcurrent, rfl⟩, hrole, rfl⟩
    have hsame : role = role' := by simpa using hrole
    exact ⟨hsame, hcurrent, by rw [hsame]⟩
  · rintro ⟨rfl, hcurrent, rfl⟩
    exact ⟨_, ⟨hcurrent, rfl⟩, Or.inr rfl, rfl⟩

/-- Either nothing is given and nothing changes, or a text that does not conflict is kept. -/
theorem addOnce_eq_ok_iff {field : String} {current incoming r : Option String} :
    addOnce field current incoming = .ok r ↔
      ((incoming = none ∨ incoming = some "") ∧ r = current) ∨
        ∃ v, v ≠ "" ∧ incoming = some v ∧ (current = none ∨ current = some v) ∧ r = some v := by
  cases incoming with
  | none => simp [addOnce, @eq_comm _ r]
  | some v =>
      by_cases hv : v = ""
      · simp [addOnce, hv, @eq_comm _ r]
      · cases current with
        | none => simp [addOnce, hv, @eq_comm _ r]
        | some u =>
            by_cases hu : u = v
            · simp [addOnce, hv, hu, @eq_comm _ r]
            · simp [addOnce, hv, hu]

theorem addOnce_some_eq_ok_iff {field v : String} (hv : v ≠ "") {current r : Option String} :
    addOnce field current (some v) = .ok r ↔
      (current = none ∨ current = some v) ∧ r = some v := by
  simp [addOnce_eq_ok_iff, hv]

theorem addOnce_ne_empty {field : String} {current incoming r : Option String}
    (hcurrent : current ≠ some "") (h : addOnce field current incoming = .ok r) :
    r ≠ some "" := by
  rcases addOnce_eq_ok_iff.mp h with ⟨-, rfl⟩ | ⟨v, hv, -, -, rfl⟩
  · exact hcurrent
  · simpa using hv

theorem addOnce_regroup {field : String} {a b c r : Option String} (hb : b ≠ some "") :
    (∃ a', addOnce field a b = .ok a' ∧ addOnce field a' c = .ok r) ↔
      ∃ b', addOnce field b c = .ok b' ∧ addOnce field a b' = .ok r := by
  by_cases hc : c = none ∨ c = some ""
  · have hkeep (a : Option String) : addOnce field a c = .ok a :=
      addOnce_eq_ok_iff.mpr (Or.inl ⟨hc, rfl⟩)
    simp [hkeep]
  · obtain ⟨v, rfl⟩ : ∃ v, c = some v := Option.ne_none_iff_exists'.mp fun h => hc (Or.inl h)
    have hv : v ≠ "" := fun h => hc (Or.inr (congrArg some h))
    simp only [addOnce_some_eq_ok_iff hv]
    cases b with
    | none => simp [addOnce_eq_ok_iff, addOnce_some_eq_ok_iff hv]
    | some u =>
        have hu : u ≠ "" := fun h => hb (congrArg some h)
        simp only [addOnce_some_eq_ok_iff hu]
        constructor
        · rintro ⟨_, ⟨ha, rfl⟩, huv, rfl⟩
          have huv : u = v := by simpa using huv
          subst huv
          exact ⟨_, ⟨Or.inr rfl, rfl⟩, (addOnce_some_eq_ok_iff hu).mpr ⟨ha, rfl⟩⟩
        · rintro ⟨_, ⟨huv, rfl⟩, h⟩
          have huv : u = v := by simpa using huv
          subst huv
          obtain ⟨ha, rfl⟩ := (addOnce_some_eq_ok_iff hu).mp h
          exact ⟨_, ⟨ha, rfl⟩, Or.inr rfl, rfl⟩

/-! ### Regrouping -/

/-- What holds of a merge however it was reached. -/
structure WellFormed (m : Merge) : Prop where
  calls : m.calls.WellFormed
  toolCallId : m.toolCallId ≠ some ""
  toolName : m.toolName ≠ some ""

theorem wellFormed_empty : ({} : Merge).WellFormed :=
  ⟨Assembler.wellFormed_empty, by simp, by simp⟩

theorem WellFormed.adds {m r : Merge} {f : Message} (hm : m.WellFormed) (h : Adds m f r) :
    r.WellFormed where
  calls := ((Assembler.pushAll_eq_ok_iff hm.calls).mp h.calls).1
  toolCallId := addOnce_ne_empty hm.toolCallId h.toolCallId
  toolName := addOnce_ne_empty hm.toolName h.toolName

theorem WellFormed.foldlM {m r : Merge} {fs : List Message} (hm : m.WellFormed)
    (h : fs.foldlM Merge.add m = .ok r) : r.WellFormed := by
  induction fs generalizing m with
  | nil =>
      cases h
      exact hm
  | cons f fs ih =>
      rw [List.foldlM_cons] at h
      obtain ⟨m', hadd, hrest⟩ := bind_eq_ok_iff.mp h
      exact ih (hm.adds (add_eq_ok_iff.mp hadd)) hrest

/-- Once a fragment was added, the role is that of the fragments. -/
theorem role_of_foldlM {m r : Merge} {fs : List Message} (hfs : fs ≠ [])
    (h : fs.foldlM add m = .ok r) : ∃ role, r.role = some role := by
  obtain ⟨gs, f, rfl⟩ : ∃ gs f, fs = gs ++ [f] :=
    ⟨fs.dropLast, fs.getLast hfs, (List.dropLast_append_getLast hfs).symm⟩
  obtain ⟨m', -, hlast⟩ := foldlM_append_eq_ok_iff.mp h
  rw [List.foldlM_cons] at hlast
  obtain ⟨r', hadd, hr⟩ := bind_eq_ok_iff.mp hlast
  cases hr
  exact ⟨f.role, (addRole_eq_ok_iff.mp (add_eq_ok_iff.mp hadd).role).2⟩

theorem finish_reasoning (g : Merge) : g.finish.reasoning.getD "" = g.reasoning := by
  by_cases h : g.reasoning = "" <;> simp [finish, h]

/-- The merge of a single fragment may be finished and added in its place. -/
theorem add_finish_singleton {m r : Merge} {f : Message} (hm : m.WellFormed) :
    (∃ g, Adds {} f g ∧ Adds m g.finish r) ↔ Adds m f r := by
  constructor
  · rintro ⟨g, hg, h⟩
    obtain ⟨-, hrole⟩ := addRole_eq_ok_iff.mp hg.role
    have hcalls := (Assembler.pushAll_regroup hm.calls Assembler.wellFormed_empty).mpr
      ⟨_, hg.calls, h.calls⟩
    obtain ⟨_, hid, hid'⟩ := (addOnce_regroup (by simp)).mpr ⟨_, hg.toolCallId, h.toolCallId⟩
    obtain ⟨_, hname, hname'⟩ := (addOnce_regroup (by simp)).mpr ⟨_, hg.toolName, h.toolName⟩
    cases hid
    cases hname
    refine ⟨?_, hcalls, hid', hname', ?_, ?_, ?_, ?_⟩
    · simpa [finish, hrole] using h.role
    · rw [h.content, finish, hg.content]
      simp
    · rw [h.reasoning, finish_reasoning, hg.reasoning]
      simp
    · rw [h.parts, finish, hg.parts]
      simp
    · rw [h.info, finish, hg.info]
      exact addInfo_none_addInfo ..
  · intro h
    obtain ⟨calls, hcalls, hcalls'⟩ :=
      (Assembler.pushAll_regroup hm.calls Assembler.wellFormed_empty).mp h.calls
    obtain ⟨id, hid, hid'⟩ := (addOnce_regroup (b := none) (by simp)).mp ⟨_, rfl, h.toolCallId⟩
    obtain ⟨name, hname, hname'⟩ := (addOnce_regroup (b := none) (by simp)).mp ⟨_, rfl, h.toolName⟩
    -- The merge of the fragment alone, which must be given in full here.
    let g : Merge := {
      role := some f.role, calls, toolCallId := id, toolName := name, content := f.content
      reasoning := f.reasoning.getD "", parts := f.parts, info := addInfo none f.info }
    refine ⟨g, ⟨rfl, hcalls, hid, hname, ?_, ?_, ?_, rfl⟩,
      ?_, hcalls', hid', hname', ?_, ?_, ?_, ?_⟩
    · simp [g]
    · simp [g]
    · simp [g]
    · exact h.role
    · exact h.content
    · rw [finish_reasoning]
      exact h.reasoning
    · exact h.parts
    · change _ = addInfo m.info (addInfo none f.info)
      rw [h.info, addInfo_none_addInfo]

/-- A merge that was finished and added may take one more fragment before. -/
theorem add_finish_add {m g r : Merge} {f : Message} (hm : m.WellFormed) (hg : g.WellFormed)
    {role : Role} (hrole : g.role = some role)
    (hfit : TokenUsage.SumsFit (usages m.info ++ usages g.info ++ usages f.info)) :
    (∃ m', Adds m g.finish m' ∧ Adds m' f r) ↔ ∃ g', Adds g f g' ∧ Adds m g'.finish r := by
  have hfinish : g.finish.role = role := by simp [finish, hrole]
  -- Each field regroups for itself, and what each leaves behind makes up the merge in between.
  constructor
  · rintro ⟨m', h, h'⟩
    obtain ⟨hsame, hr⟩ := addRole_addRole.mp ⟨_, h.role, h'.role⟩
    obtain ⟨calls, hcalls, hcalls'⟩ := (Assembler.pushAll_regroup hm.calls hg.calls).mp
      (Assembler.pushAll_append_eq_ok_iff.mpr ⟨_, h.calls, h'.calls⟩)
    obtain ⟨id, hid, hid'⟩ := (addOnce_regroup hg.toolCallId).mp ⟨_, h.toolCallId, h'.toolCallId⟩
    obtain ⟨name, hname, hname'⟩ := (addOnce_regroup hg.toolName).mp ⟨_, h.toolName, h'.toolName⟩
    let g' : Merge := {
      role := g.role, calls, toolCallId := id, toolName := name, content := g.content ++ f.content
      reasoning := g.reasoning ++ f.reasoning.getD "", parts := g.parts ++ f.parts
      info := addInfo g.info f.info }
    refine ⟨g', ⟨?_, hcalls, hid, hname, rfl, rfl, rfl, rfl⟩,
      hr, hcalls', hid', hname', ?_, ?_, ?_, ?_⟩
    · have hkept : g.role = some f.role := by rw [hrole, ← hfinish, hsame]
      exact addRole_eq_ok_iff.mpr ⟨Or.inr hkept, hkept⟩
    · simp [h'.content, h.content, finish, g', String.append_assoc]
    · rw [finish_reasoning, h'.reasoning, h.reasoning, finish_reasoning, String.append_assoc]
    · simp [h'.parts, h.parts, finish, g']
    · rw [h'.info, h.info]
      exact addInfo_assoc hfit
  · rintro ⟨g', h, h'⟩
    obtain ⟨hr, hrole'⟩ := addRole_eq_ok_iff.mp h.role
    have hsame : g.finish.role = f.role := by
      rw [hfinish]
      simpa [hrole] using hr
    have hfinish' : g'.finish.role = g.finish.role := by
      rw [hsame, finish, hrole']
      rfl
    obtain ⟨role', hm', hr'⟩ := addRole_addRole.mpr ⟨hsame, hfinish' ▸ h'.role⟩
    obtain ⟨calls, hcalls, hcalls'⟩ := Assembler.pushAll_append_eq_ok_iff.mp
      ((Assembler.pushAll_regroup hm.calls hg.calls).mpr ⟨_, h.calls, h'.calls⟩)
    obtain ⟨id, hid, hid'⟩ := (addOnce_regroup hg.toolCallId).mpr ⟨_, h.toolCallId, h'.toolCallId⟩
    obtain ⟨name, hname, hname'⟩ := (addOnce_regroup hg.toolName).mpr ⟨_, h.toolName, h'.toolName⟩
    let m' : Merge := {
      role := role', calls, toolCallId := id, toolName := name
      content := m.content ++ g.content, reasoning := m.reasoning ++ g.reasoning
      parts := m.parts ++ g.parts, info := addInfo m.info g.info }
    refine ⟨m', ⟨hm', hcalls, hid, hname, rfl, ?_, rfl, rfl⟩,
      hr', hcalls', hid', hname', ?_, ?_, ?_, ?_⟩
    · rw [finish_reasoning]
    · simp [h'.content, h.content, finish, m', String.append_assoc]
    · rw [h'.reasoning, finish_reasoning, h.reasoning, String.append_assoc]
    · simp [h'.parts, h.parts, finish, m']
    · rw [h'.info]
      change addInfo m.info g'.info = addInfo (addInfo m.info g.info) f.info
      rw [h.info, addInfo_assoc hfit]

theorem filterMap_usage?_cons (f : Message) (fs : List Message) :
    (f :: fs).filterMap Message.usage? = usages f.info ++ fs.filterMap Message.usage? := by
  cases hf : f.usage? with
  | none => rw [List.filterMap_cons_none hf, usages, show f.info.bind _ = none from hf]; rfl
  | some u => rw [List.filterMap_cons_some hf, usages, show f.info.bind _ = some u from hf]; rfl

/-- The counts of fragments, once merged, still fit with the others. -/
theorem sumsFit_of_foldlM {m r : Merge} {fs : List Message} {others : List TokenUsage}
    (hfit : TokenUsage.SumsFit (usages m.info ++ fs.filterMap Message.usage? ++ others))
    (h : fs.foldlM add m = .ok r) : TokenUsage.SumsFit (usages r.info ++ others) := by
  induction fs generalizing m with
  | nil =>
      cases h
      simpa using hfit
  | cons f fs ih =>
      rw [List.foldlM_cons] at h
      obtain ⟨m', hadd, hrest⟩ := bind_eq_ok_iff.mp h
      refine ih ?_ hrest
      rw [(add_eq_ok_iff.mp hadd).info, List.append_assoc]
      refine sumsFit_addInfo ?_
      rwa [filterMap_usage?_cons, ← List.append_assoc, List.append_assoc _ _ others] at hfit

/-- **A merge of fragments may be finished and added in their place,** where no sum of counts wraps
around. -/
theorem foldlM_add_finish {m r : Merge} (hm : m.WellFormed) {fs : List Message} (hfs : fs ≠ [])
    (hfit : TokenUsage.SumsFit (usages m.info ++ fs.filterMap Message.usage?)) :
    (∃ g, fs.foldlM add {} = .ok g ∧ m.add g.finish = .ok r) ↔ fs.foldlM add m = .ok r := by
  -- By induction on the end of the list: a merge is finished only after its last fragment.
  induction fs using List.reverseRecOn generalizing r with
  | nil => exact absurd rfl hfs
  | append_singleton gs f ih =>
      have hsingleton (m r : Merge) : [f].foldlM add m = .ok r ↔ Adds m f r := by
        rw [List.foldlM_cons, bind_eq_ok_iff, ← add_eq_ok_iff]
        constructor
        · rintro ⟨_, h, hr⟩
          cases hr
          exact h
        · intro h
          exact ⟨r, h, rfl⟩
      simp only [foldlM_append_eq_ok_iff, hsingleton, add_eq_ok_iff]
      have hgather : gs.filterMap Message.usage? ++ usages f.info =
          (gs ++ [f]).filterMap Message.usage? := by
        rw [List.filterMap_append, filterMap_usage?_cons]
        simp
      rw [← hgather] at hfit
      have hbefore : TokenUsage.SumsFit (usages m.info ++ gs.filterMap Message.usage?) :=
        hfit.sublist ((List.sublist_append_left ..).append_left _)
      -- What was merged of the fragments before fits with the rest.
      have hbetween {g : Merge} (hg : gs.foldlM add {} = .ok g) :
          TokenUsage.SumsFit (usages m.info ++ usages g.info ++ usages f.info) := by
        have hrotated : TokenUsage.SumsFit
            (gs.filterMap Message.usage? ++ (usages f.info ++ usages m.info)) := by
          refine hfit.perm ?_
          rw [← List.append_assoc (gs.filterMap _)]
          exact List.perm_append_comm
        refine (sumsFit_of_foldlM (m := {}) hrotated hg).perm ?_
        rw [List.append_assoc, ← List.append_assoc]
        exact List.perm_append_comm
      by_cases hgs : gs = []
      · subst hgs
        constructor
        · rintro ⟨g, ⟨_, h, hg⟩, hr⟩
          cases h
          exact ⟨m, rfl, (add_finish_singleton hm).mp ⟨g, hg, hr⟩⟩
        · rintro ⟨_, h, hr⟩
          cases h
          obtain ⟨g, hg, hr⟩ := (add_finish_singleton hm).mpr hr
          exact ⟨g, ⟨{}, rfl, hg⟩, hr⟩
      · constructor
        · rintro ⟨g', ⟨g, hg, hg'⟩, hr⟩
          obtain ⟨role, hrole⟩ := role_of_foldlM hgs hg
          obtain ⟨m', hm', hr⟩ := (add_finish_add hm (wellFormed_empty.foldlM hg) hrole
            (hbetween hg)).mpr ⟨g', hg', hr⟩
          exact ⟨m', (ih hgs hbefore).mp ⟨g, hg, add_eq_ok_iff.mpr hm'⟩, hr⟩
        · rintro ⟨m', hm', hr⟩
          obtain ⟨g, hg, hadd⟩ := (ih hgs hbefore).mpr hm'
          obtain ⟨role, hrole⟩ := role_of_foldlM hgs hg
          obtain ⟨g', hg', hr⟩ := (add_finish_add hm (wellFormed_empty.foldlM hg) hrole
            (hbetween hg)).mp ⟨m', add_eq_ok_iff.mp hadd, hr⟩
          exact ⟨g', ⟨g, hg, hg'⟩, hr⟩

/-! ### Groups of fragments -/

/-- What adding the message of a group leaves behind is what adding its fragments does. -/
theorem concat_add {m r : Merge} (hm : m.WellFormed) {fs : List Message} (hfs : fs ≠ [])
    (hfit : TokenUsage.SumsFit (usages m.info ++ fs.filterMap Message.usage?)) :
    (∃ x, Message.concat fs = .ok x ∧ m.add x = .ok r) ↔ fs.foldlM add m = .ok r := by
  match fs, hfs with
  | [f], _ =>
      rw [Message.concat_singleton, List.foldlM_cons, bind_eq_ok_iff]
      constructor
      · rintro ⟨_, hx, h⟩
        cases hx
        exact ⟨r, h, rfl⟩
      · rintro ⟨_, h, hr⟩
        cases hr
        exact ⟨f, rfl, h⟩
  | f :: g :: fs, hfs =>
      rw [← foldlM_add_finish hm hfs hfit]
      simp only [Message.concat, map_eq_ok_iff]
      constructor
      · rintro ⟨_, ⟨g, hg, rfl⟩, h⟩
        exact ⟨g, hg, h⟩
      · rintro ⟨g, hg, h⟩
        exact ⟨_, ⟨g, hg, rfl⟩, h⟩

theorem foldlM_add_mapM_concat {m r : Merge} (hm : m.WellFormed) {gs : List (List Message)}
    (hgs : ∀ g ∈ gs, g ≠ [])
    (hfit : TokenUsage.SumsFit (usages m.info ++ gs.flatten.filterMap Message.usage?)) :
    (∃ xs, gs.mapM Message.concat = .ok xs ∧ xs.foldlM add m = .ok r) ↔
      gs.flatten.foldlM add m = .ok r := by
  induction gs generalizing m with
  | nil =>
      constructor
      · rintro ⟨_, hxs, h⟩
        cases hxs
        exact h
      · exact fun h => ⟨[], rfl, h⟩
  | cons g gs ih =>
      have hgs' : ∀ g ∈ gs, g ≠ [] := fun g hg => hgs g (List.mem_cons_of_mem _ hg)
      rw [List.flatten_cons, List.filterMap_append, ← List.append_assoc] at hfit
      have hgroup : TokenUsage.SumsFit (usages m.info ++ g.filterMap Message.usage?) :=
        hfit.sublist (List.sublist_append_left ..)
      rw [List.flatten_cons, foldlM_append_eq_ok_iff]
      simp only [mapM_cons_eq_ok_iff]
      constructor
      · rintro ⟨_, ⟨x, xs, hx, hxs, rfl⟩, h⟩
        rw [List.foldlM_cons] at h
        obtain ⟨m', hm', h⟩ := bind_eq_ok_iff.mp h
        have hadded := (concat_add hm (hgs g List.mem_cons_self) hgroup).mp ⟨x, hx, hm'⟩
        exact ⟨m', hadded, (ih (hm.adds (add_eq_ok_iff.mp hm')) hgs'
          (sumsFit_of_foldlM hfit hadded)).mp ⟨xs, hxs, h⟩⟩
      · rintro ⟨m', hm', h⟩
        obtain ⟨x, hx, hadd⟩ := (concat_add hm (hgs g List.mem_cons_self) hgroup).mpr hm'
        obtain ⟨xs, hxs, h⟩ := (ih (hm.foldlM hm') hgs' (sumsFit_of_foldlM hfit hm')).mpr h
        refine ⟨_, ⟨x, xs, hx, hxs, rfl⟩, ?_⟩
        rw [List.foldlM_cons]
        exact bind_eq_ok_iff.mpr ⟨m', hadd, h⟩

end Merge

namespace Message

open Result

/-- **Concatenation does not depend on grouping,** where no sum of counts wraps around.  The groups
and then their messages can be concatenated just when all fragments can, and with the same
result. -/
theorem concat_flatten_of_sumsFit {gs : List (List Message)} (hne : gs ≠ [])
    (hgs : ∀ g ∈ gs, g ≠ []) (hfit : TokenUsage.SumsFit (gs.flatten.filterMap usage?))
    {r : Message} :
    (∃ xs, gs.mapM concat = .ok xs ∧ concat xs = .ok r) ↔ concat gs.flatten = .ok r := by
  match gs, hne with
  | [g], _ =>
      simp only [mapM_cons_eq_ok_iff, List.flatten_cons, List.flatten_nil, List.append_nil]
      constructor
      · rintro ⟨_, ⟨x, _, hx, hxs, rfl⟩, h⟩
        cases hxs
        exact hx.trans h
      · intro h
        exact ⟨[r], ⟨r, [], h, rfl, rfl⟩, rfl⟩
  | g :: g' :: gs, _ =>
      obtain ⟨f, fs, rfl⟩ := List.exists_cons_of_ne_nil (hgs g (by simp))
      obtain ⟨f', fs', rfl⟩ := List.exists_cons_of_ne_nil (hgs g' (by simp))
      -- There are two fragments at least and two groups, so both sides finish a merge.
      have hfragments : concat ((f :: fs) :: (f' :: fs') :: gs).flatten = .ok r ↔
          ∃ m, ((f :: fs) :: (f' :: fs') :: gs).flatten.foldlM Merge.add {} = .ok m ∧
            m.finish = r := by
        cases fs <;> exact map_eq_ok_iff
      rw [hfragments]
      simp only [← Merge.foldlM_add_mapM_concat Merge.wellFormed_empty hgs hfit]
      constructor
      · rintro ⟨xs, hxs, h⟩
        obtain ⟨x, _, -, hys, rfl⟩ := mapM_cons_eq_ok_iff.mp hxs
        obtain ⟨y, ys, -, -, rfl⟩ := mapM_cons_eq_ok_iff.mp hys
        obtain ⟨m, hm, hr⟩ := map_eq_ok_iff.mp h
        exact ⟨m, ⟨_, hxs, hm⟩, hr⟩
      · rintro ⟨m, ⟨xs, hxs, hm⟩, hr⟩
        obtain ⟨x, _, -, hys, rfl⟩ := mapM_cons_eq_ok_iff.mp hxs
        obtain ⟨y, ys, -, -, rfl⟩ := mapM_cons_eq_ok_iff.mp hys
        exact ⟨_, hxs, map_eq_ok_iff.mpr ⟨m, hm, hr⟩⟩

/-! ### Other calls -/

/-- Where fragments differ in their calls only, so does the merge of them. -/
theorem foldlM_add_of_calls {fs gs : List Message}
    (hgs : List.Forall₂ (fun f g => g = { f with toolCalls := g.toolCalls }) fs gs) {m r r' : Merge}
    (h : fs.foldlM Merge.add m = .ok r) (calls : Assembler) :
    gs.foldlM Merge.add { m with calls } = .ok r' ↔ ∃ b,
      calls.pushAll (gs.flatMap toolCalls) = .ok b ∧ r' = { r with calls := b } := by
  induction hgs generalizing m calls with
  | nil =>
      cases h
      simp [pure, Except.pure, eq_comm]
  | @cons f g fs gs hg _ ih =>
      rw [List.foldlM_cons] at h ⊢
      obtain ⟨m', hadd, hrest⟩ := bind_eq_ok_iff.mp h
      have hadds := Merge.add_eq_ok_iff.mp hadd
      -- All but the calls is added as it was, so the calls alone decide whether this succeeds.
      have hstep (n : Merge) : Merge.add { m with calls } g = .ok n ↔ ∃ b,
          calls.pushAll g.toolCalls = .ok b ∧ n = { m' with calls := b } := by
        rw [Merge.add_eq_ok_iff]
        constructor
        · intro hn
          rw [hg] at hn
          refine ⟨n.calls, hn.calls, ?_⟩
          obtain ⟨role, -, id, name, content, reasoning, parts, info⟩ := hn
          obtain ⟨role', -, id', name', content', reasoning', parts', info'⟩ := hadds
          cases n
          cases m'
          simp_all
        · rintro ⟨b, hb, rfl⟩
          rw [hg]
          exact { hadds with calls := hb }
      rw [bind_eq_ok_iff]
      simp only [hstep, List.flatMap_cons, Assembler.pushAll_append_eq_ok_iff]
      constructor
      · rintro ⟨_, ⟨b, hb, rfl⟩, hr⟩
        obtain ⟨b', hb', hr⟩ := (ih hrest b).mp hr
        exact ⟨b', ⟨b, hb, hb'⟩, hr⟩
      · rintro ⟨b', ⟨b, hb, hb'⟩, hr⟩
        exact ⟨_, ⟨b, hb, rfl⟩, (ih hrest b).mpr ⟨b', hb', hr⟩⟩

/-- **Where fragments differ in their calls only,** they come to the same message but for the calls,
provided that those can be assembled. -/
theorem concat_of_calls {fs gs : List Message}
    (hgs : List.Forall₂ (fun f g => g = { f with toolCalls := g.toolCalls }) fs gs)
    (hlength : fs.length ≠ 1) {m r : Message} (h : concat fs = .ok m) :
    concat gs = .ok r ↔ ∃ b : Assembler,
      ({} : Assembler).pushAll (gs.flatMap toolCalls) = .ok b ∧
        r = { m with toolCalls := b.calls } := by
  match fs, gs, hgs with
  | [], _, .nil => cases h
  | [f], _, _ => exact absurd rfl hlength
  | f :: f' :: fs, g :: g' :: gs, hgs =>
      obtain ⟨n, hn, rfl⟩ := map_eq_ok_iff.mp h
      have hconcat : concat (g :: g' :: gs) = .ok r ↔ ∃ n',
          (g :: g' :: gs).foldlM Merge.add {} = .ok n' ∧ n'.finish = r := map_eq_ok_iff
      rw [hconcat]
      simp only [foldlM_add_of_calls hgs hn {}]
      constructor
      · rintro ⟨_, ⟨b, hb, rfl⟩, rfl⟩
        exact ⟨b, hb, rfl⟩
      · rintro ⟨b, hb, rfl⟩
        exact ⟨_, ⟨b, hb, rfl⟩, rfl⟩

/-! ### What the model says -/

/-- The model says a message, and nothing in it is about the result of a tool. -/
structure IsSpoken (f : Message) : Prop where
  role : f.role = .assistant
  toolCallId : f.toolCallId = none
  toolName : f.toolName = none

/-- Nothing in what the model says can conflict but its calls, so the merge succeeds when they can
be assembled. -/
theorem foldlM_add_of_isSpoken {fs : List Message} (hfs : ∀ f ∈ fs, f.IsSpoken) {m : Merge}
    (hrole : m.role = none ∨ m.role = some .assistant) {calls : Assembler}
    (hcalls : m.calls.pushAll (fs.flatMap toolCalls) = .ok calls) :
    fs.foldlM Merge.add m = .ok { m with
      role := if fs.isEmpty then m.role else some .assistant
      content := m.content ++ String.join (fs.map content)
      reasoning := m.reasoning ++ String.join (fs.map fun f => f.reasoning.getD "")
      parts := m.parts ++ fs.flatMap parts
      calls
      info := fs.foldl (fun info f => Merge.addInfo info f.info) m.info } := by
  induction fs generalizing m with
  | nil =>
      cases hcalls
      simp [pure, Except.pure]
  | cons f fs ih =>
      obtain ⟨hfrole, hid, hname⟩ := hfs f List.mem_cons_self
      rw [List.flatMap_cons, Assembler.pushAll_append_eq_ok_iff] at hcalls
      obtain ⟨calls', hcalls', hcalls⟩ := hcalls
      let m' : Merge := { m with
        role := some .assistant, content := m.content ++ f.content
        reasoning := m.reasoning ++ f.reasoning.getD "", parts := m.parts ++ f.parts
        calls := calls', info := Merge.addInfo m.info f.info }
      have hadd : m.add f = .ok m' := by
        refine Merge.add_eq_ok_iff.mpr ⟨?_, hcalls', ?_, ?_, rfl, rfl, rfl, rfl⟩
        · exact Merge.addRole_eq_ok_iff.mpr ⟨by rw [hfrole]; exact hrole, by rw [hfrole]⟩
        · simp [hid, m', Merge.addOnce]
        · simp [hname, m', Merge.addOnce]
      rw [List.foldlM_cons, hadd]
      have hrest := ih (m := m') (fun g hg => hfs g (List.mem_cons_of_mem _ hg)) (Or.inr rfl) hcalls
      refine hrest.trans ?_
      simp [m', String.append_assoc]

theorem exists_concat {fs : List Message} (hne : fs ≠ []) (hfs : ∀ f ∈ fs, f.IsSpoken)
    {calls : Assembler}
    (hcalls : ({} : Assembler).pushAll (fs.flatMap toolCalls) = .ok calls) :
    ∃ m, concat fs = .ok m := by
  match fs, hne with
  | [f], _ => exact ⟨f, rfl⟩
  | f :: g :: fs, _ =>
      exact ⟨_, map_eq_ok_iff.mpr ⟨_, foldlM_add_of_isSpoken hfs (Or.inl rfl) hcalls, rfl⟩⟩

/-- **What the model says in pieces** can be concatenated just when its calls can be assembled, and
says all the texts with these calls.  A single piece is taken as it is, so it must not have two
calls. -/
theorem concat_spoken {fs : List Message} (hne : fs ≠ []) (hfs : ∀ f ∈ fs, f.IsSpoken)
    (hsingle : ∀ f, fs = [f] → f.toolCalls.length ≤ 1) :
    ((∃ m, concat fs = .ok m) ↔
        ∃ calls, ({} : Assembler).pushAll (fs.flatMap toolCalls) = .ok calls) ∧
      ∀ m calls, concat fs = .ok m →
        ({} : Assembler).pushAll (fs.flatMap toolCalls) = .ok calls →
          m.toolCalls = calls.calls ∧ m.content = String.join (fs.map content) ∧
            m.reasoning.getD "" = String.join (fs.map fun f => f.reasoning.getD "") := by
  match fs, hne with
  | [f], _ =>
      have hlength := hsingle f rfl
      rw [List.flatMap_singleton]
      match hcalls : f.toolCalls with
      | [] =>
          refine ⟨by simp, fun m calls hm ha => ?_⟩
          cases hm
          cases ha
          simp [hcalls]
      | [c] =>
          refine ⟨?_, fun m calls hm ha => ?_⟩
          · exact iff_of_true ⟨f, rfl⟩ (Assembler.exists_pushAll_singleton c)
          · cases hm
            rw [hcalls, Assembler.calls_of_pushAll_singleton ha]
            simp
      | _ :: _ :: _ =>
          rw [hcalls] at hlength
          simp at hlength
  | f :: g :: fs, _ =>
      constructor
      · constructor
        · rintro ⟨m, hm⟩
          have hsame : List.Forall₂ (fun f g => g = { f with toolCalls := g.toolCalls })
              (f :: g :: fs) (f :: g :: fs) := List.forall₂_same.mpr fun f _ => rfl
          obtain ⟨calls, hcalls, -⟩ := (concat_of_calls hsame (by simp) hm).mp hm
          exact ⟨calls, hcalls⟩
        · rintro ⟨calls, hcalls⟩
          exact exists_concat (by simp) hfs hcalls
      · intro m calls hm hcalls
        obtain ⟨n, hn, rfl⟩ := map_eq_ok_iff.mp hm
        rw [foldlM_add_of_isSpoken hfs (Or.inl rfl) hcalls] at hn
        cases hn
        exact ⟨rfl, by simp [Merge.finish], by simp [Merge.finish_reasoning]⟩

/-! ### Fragments of a reply -/

@[simp] theorem assistant_reasoning (content : String) : (assistant content).reasoning = none :=
  rfl

/-- A fragment of a reply: the model said it, it has texts and calls only, and no text in it is
there without saying anything. -/
structure IsFragment (f : Message) : Prop where
  role : f.role = .assistant
  parts : f.parts = []
  toolCallId : f.toolCallId = none
  toolName : f.toolName = none
  reasoning : f.reasoning ≠ some ""
  finishReason : f.finishReason? ≠ some ""
  info : f.info ≠ some {}

theorem IsFragment.isSpoken {f : Message} (hf : f.IsFragment) : f.IsSpoken :=
  ⟨hf.role, hf.toolCallId, hf.toolName⟩

/-- The reports of some fragments, merged. -/
def reports (fs : List Message) : Option ResponseInfo :=
  fs.foldl (fun info f => Merge.addInfo info f.info) none

/-- All that some fragments say, with the given calls. -/
def gathered (fs : List Message) (calls : List ToolCall) : Message :=
  { assistant (String.join (fs.map content)) with
    reasoning :=
      let text := String.join (fs.map fun f => f.reasoning.getD "")
      if text.isEmpty then none else some text
    toolCalls := calls
    info := reports fs }

/-- A single fragment says all that it says. -/
theorem gathered_singleton {f : Message} (hf : f.IsFragment) : gathered [f] f.toolCalls = f := by
  obtain ⟨hrole, hparts, hid, hname, hreasoning, hreason, -⟩ := hf
  have hinfo : reports [f] = f.info := by
    cases hinfo : f.info with
    | none => simp [reports, Merge.addInfo, hinfo]
    | some i =>
        obtain ⟨reason, usage⟩ := i
        have hreason : reason ≠ some "" := by simpa [finishReason?, hinfo] using hreason
        have hlast := ResponseInfo.none_lastReason hreason
        cases usage <;> simp [reports, Merge.addInfo, ResponseInfo.merge, hinfo, hlast]
  have htext : (if (f.reasoning.getD "").isEmpty then none else some (f.reasoning.getD "")) =
      f.reasoning := by
    cases hr : f.reasoning with
    | none => rfl
    | some t =>
        have ht : t ≠ "" := fun h => hreasoning (by rw [hr, h])
        simp [ht]
  cases f
  simp_all [gathered, assistant]

/-- **The concatenation of fragments of a reply** says all that they say, with the calls assembled
from theirs. -/
theorem concat_of_isFragment {f g : Message} {fs : List Message}
    (hfs : ∀ x ∈ f :: g :: fs, x.IsFragment) {calls : Assembler}
    (hcalls : ({} : Assembler).pushAll ((f :: g :: fs).flatMap toolCalls) = .ok calls) :
    concat (f :: g :: fs) = .ok (gathered (f :: g :: fs) calls.calls) := by
  have hparts : (f :: g :: fs).flatMap parts = [] :=
    List.flatMap_eq_nil_iff.mpr fun x hx => (hfs x hx).parts
  have h := foldlM_add_of_isSpoken (fun x hx => (hfs x hx).isSpoken) (m := {}) (Or.inl rfl) hcalls
  refine map_eq_ok_iff.mpr ⟨_, h, ?_⟩
  rw [hparts]
  simp [Merge.finish, gathered, assistant, reports]

end Message

end ChatRelay
