/-! Lists of keyed entries as partial maps: what `lookup` finds after an entry is
added, taken out or replaced. -/

namespace Comp310.Lib

variable {κ ν : Type} {entries : List (κ × ν)} {key other : κ} {value : ν}

theorem lookup_none [BEq κ] [LawfulBEq κ] : entries.lookup key = none ↔ ∀ entry ∈ entries, entry.1 ≠ key := by
  induction entries with
  | nil => simp
  | cons entry rest ih =>
    rw [List.lookup_cons, List.forall_mem_cons, ← ih]
    by_cases same : key = entry.1
    · simp [same]
    · simp [beq_eq_false_iff_ne.mpr same, Ne.symm same]

theorem lookup_of_mem [BEq κ] [LawfulBEq κ] (distinct : (entries.map (·.1)).Nodup) (member : (key, value) ∈ entries) :
    entries.lookup key = some value := by
  induction entries with
  | nil => cases member
  | cons entry rest ih =>
    rw [List.map_cons, List.nodup_cons] at distinct
    rw [List.lookup_cons]
    cases member with
    | head => rw [beq_self_eq_true]
    | tail _ member =>
      have apart : key ≠ entry.1 := fun same => distinct.1 (same ▸ List.mem_map.mpr ⟨(key, value), member, rfl⟩)
      rw [beq_eq_false_iff_ne.mpr apart]
      exact ih distinct.2 member

/-- Members of a list with the same key are one, where no key comes twice. -/
theorem unique_key {α β : Type} {entries : List α} {key : α → β} (distinct : (entries.map key).Nodup) {first second : α}
    (member : first ∈ entries) (member' : second ∈ entries) (same : key first = key second) : first = second := by
  induction entries with
  | nil => cases member
  | cons entry rest ih =>
    rw [List.map_cons, List.nodup_cons] at distinct
    rcases List.mem_cons.mp member with rfl | later <;> rcases List.mem_cons.mp member' with rfl | later'
    · rfl
    · exact absurd (List.mem_map.mpr ⟨_, later', same.symm⟩) distinct.1
    · exact absurd (List.mem_map.mpr ⟨_, later, same⟩) distinct.1
    · exact ih distinct.2 later later'

/-- An entry added at the end is found when there was none for its key. -/
theorem lookup_add [BEq κ] [LawfulBEq κ] [DecidableEq κ] (missing : entries.lookup key = none) :
    (entries ++ [(key, value)]).lookup other = if other = key then some value else entries.lookup other := by
  induction entries with
  | nil =>
    by_cases same : other = key
    · simp [same]
    · simp [same]
  | cons entry rest ih =>
    have absent := lookup_none.mp missing
    have away : entry.1 ≠ key := absent entry List.mem_cons_self
    have rest_missing : rest.lookup key = none := lookup_none.mpr fun entry there => absent entry (List.mem_cons_of_mem _ there)
    rw [List.cons_append, List.lookup_cons, List.lookup_cons, ih rest_missing]
    by_cases first : other = entry.1
    · simp [first, away]
    · rw [beq_eq_false_iff_ne.mpr first]

theorem lookup_erase [BEq κ] [LawfulBEq κ] [DecidableEq κ] (distinct : (entries.map (·.1)).Nodup) :
    (entries.eraseP fun entry => entry.1 == key).lookup other = if other = key then none else entries.lookup other := by
  induction entries with
  | nil => simp
  | cons entry rest ih =>
    rw [List.map_cons, List.nodup_cons] at distinct
    rw [List.eraseP_cons]
    by_cases same : entry.1 = key
    · rw [same, beq_self_eq_true, cond_true]
      have gone : rest.lookup key = none := by
        rw [lookup_none]
        intro later there equal
        exact distinct.1 (List.mem_map.mpr ⟨later, there, equal.trans same.symm⟩)
      by_cases mine : other = key
      · rw [mine, if_pos rfl, gone]
      · rw [if_neg mine, List.lookup_cons, beq_eq_false_iff_ne.mpr (same ▸ mine)]
    · rw [beq_eq_false_iff_ne.mpr same, cond_false, List.lookup_cons, List.lookup_cons, ih distinct.2]
      by_cases first : other = entry.1
      · simp [first, same]
      · rw [beq_eq_false_iff_ne.mpr first]

theorem keys_erase [BEq κ] (distinct : (entries.map (·.1)).Nodup) :
    ((entries.eraseP fun entry => entry.1 == key).map (·.1)).Nodup :=
  distinct.sublist (List.eraseP_sublist.map _)

theorem lookup_changed [BEq κ] [LawfulBEq κ] [DecidableEq κ] (change : ν → ν) :
    (entries.map fun entry => if entry.1 = key then (key, change entry.2) else entry).lookup other =
      if other = key then (entries.lookup key).map change else entries.lookup other := by
  induction entries with
  | nil => simp
  | cons entry rest ih =>
    rw [List.map_cons, List.lookup_cons, List.lookup_cons, List.lookup_cons, ih]
    by_cases same : entry.1 = key
    · rw [if_pos same]
      by_cases mine : other = key
      · simp [mine, same]
      · simp [mine, beq_eq_false_iff_ne.mpr (show other ≠ entry.1 from same.symm ▸ mine), beq_eq_false_iff_ne.mpr mine]
    · rw [if_neg same]
      by_cases mine : other = key
      · simp [mine, beq_eq_false_iff_ne.mpr (Ne.symm same)]
      · simp [mine]

theorem lookup_change [BEq κ] [LawfulBEq κ] [DecidableEq κ] (change : ν → ν) :
    (entries.map fun entry => if entry.1 = key then (key, change entry.2) else entry).lookup key = (entries.lookup key).map change := by
  rw [lookup_changed, if_pos rfl]

theorem keys_change [DecidableEq κ] (change : ν → ν) :
    (entries.map fun entry => if entry.1 = key then (key, change entry.2) else entry).map (·.1) = entries.map (·.1) := by
  rw [List.map_map]
  refine List.map_congr_left fun entry _ => ?_
  simp only [Function.comp_apply]
  split
  next same => exact same.symm
  next => rfl

theorem lookup_store [BEq κ] [LawfulBEq κ] [DecidableEq κ] :
    (entries.map fun entry => if entry.1 = key then (key, value) else entry).lookup other =
      if other = key then (entries.lookup key).map fun _ => value else entries.lookup other :=
  lookup_changed fun _ => value

theorem keys_store [DecidableEq κ] :
    (entries.map fun entry => if entry.1 = key then (key, value) else entry).map (·.1) = entries.map (·.1) :=
  keys_change fun _ => value

theorem keys_add [BEq κ] [LawfulBEq κ] (distinct : (entries.map (·.1)).Nodup) (missing : entries.lookup key = none) :
    ((entries ++ [(key, value)]).map (·.1)).Nodup := by
  rw [List.map_append, List.nodup_append]
  refine ⟨distinct, by simp, ?_⟩
  intro first there second there'
  obtain ⟨entry, member, rfl⟩ := List.mem_map.mp there
  simp only [List.map_cons, List.map_nil, List.mem_singleton] at there'
  rw [there']
  exact lookup_none.mp missing entry member

theorem lookup_perm [BEq κ] [LawfulBEq κ] (found : entries.lookup key = some value) :
    entries.Perm ((key, value) :: entries.eraseP fun entry => entry.1 == key) := by
  induction entries with
  | nil => cases found
  | cons entry rest ih =>
    rw [List.lookup_cons] at found
    rw [List.eraseP_cons]
    by_cases same : key = entry.1
    · subst same
      rw [beq_self_eq_true] at found ⊢
      cases found
      exact .refl _
    · rw [beq_eq_false_iff_ne.mpr same] at found
      rw [beq_eq_false_iff_ne.mpr (Ne.symm same)]
      exact ((ih found).cons entry).trans (.swap _ _ _)

theorem filter_key [BEq κ] [LawfulBEq κ] (distinct : (entries.map (·.1)).Nodup) :
    (entries.filter fun entry => entry.1 != key) = entries.eraseP fun entry => entry.1 == key := by
  induction entries with
  | nil => rfl
  | cons entry rest ih =>
    rw [List.map_cons, List.nodup_cons] at distinct
    rw [List.filter_cons, List.eraseP_cons]
    by_cases same : entry.1 = key
    · have others : ∀ later ∈ rest, (later.1 != key) = true := by
        intro later there
        apply bne_iff_ne.mpr
        intro equal
        exact distinct.1 (List.mem_map.mpr ⟨later, there, equal.trans same.symm⟩)
      rw [same, bne_self_eq_false, beq_self_eq_true]
      exact List.filter_eq_self.mpr others
    · rw [bne_iff_ne.mpr same, beq_eq_false_iff_ne.mpr same, ih distinct.2]
      rfl

theorem lookup_filter [BEq κ] [LawfulBEq κ] [DecidableEq κ] :
    (entries.filter fun entry => entry.1 != key).lookup other = if other = key then none else entries.lookup other := by
  induction entries with
  | nil => simp
  | cons entry rest ih =>
    rw [List.filter_cons]
    by_cases same : entry.1 = key
    · rw [same, bne_self_eq_false, if_neg Bool.false_ne_true, ih, List.lookup_cons]
      split
      next => rfl
      next differs => rw [beq_eq_false_iff_ne.mpr (same ▸ differs)]
    · rw [bne_iff_ne.mpr same, if_pos rfl, List.lookup_cons, List.lookup_cons, ih]
      by_cases mine : other = key
      · simp [mine, beq_eq_false_iff_ne.mpr (Ne.symm same)]
      · simp [mine]

end Comp310.Lib
