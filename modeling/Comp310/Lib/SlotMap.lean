/-! Finite maps, and tables of slots that hold one: a slot is in use or free, and
no two slots in use have the same key. Slots and keys are of any type. -/

namespace Comp310.Lib
variable {σ κ ν : Type}

section Maps
variable [DecidableEq κ]

def insertKey (map : κ → Option ν) (key : κ) (value : ν) : κ → Option ν := fun other => if other = key then some value else map other

def eraseKey (map : κ → Option ν) (key : κ) : κ → Option ν := fun other => if other = key then none else map other

variable {map : κ → Option ν} {key other : κ} {value value' : ν}

@[simp] theorem insertKey_self : insertKey map key value key = some value := if_pos rfl

theorem insertKey_other (differs : other ≠ key) : insertKey map key value other = map other := if_neg differs

@[simp] theorem eraseKey_self : eraseKey map key key = none := if_pos rfl

theorem eraseKey_other (differs : other ≠ key) : eraseKey map key other = map other := if_neg differs

theorem insertKey_some : insertKey map key value other = some value' ↔
    (other = key ∧ value' = value) ∨ (other ≠ key ∧ map other = some value') := by
  rw [insertKey]
  split
  next same => simp [same, eq_comm]
  next differs => simp [differs]

theorem eraseKey_some : eraseKey map key other = some value' ↔ other ≠ key ∧ map other = some value' := by
  rw [eraseKey]
  split
  next same => simp [same]
  next differs => simp [differs]

end Maps

structure SlotView (σ κ ν : Type) where
  used : σ → Bool
  key : σ → κ
  value : σ → ν

/-- The slots in use are the entries of the map. -/
structure Represents (view : SlotView σ κ ν) (slots : List σ) (map : κ → Option ν) : Prop where
  unique : ∀ (i j : Nat) (s t : σ), slots[i]? = some s → slots[j]? = some t → view.used s = true → view.used t = true →
    view.key s = view.key t → i = j
  entries : ∀ key value, map key = some value ↔
    ∃ (i : Nat) (s : σ), slots[i]? = some s ∧ view.used s = true ∧ view.key s = key ∧ view.value s = value

variable {view : SlotView σ κ ν} {slots slots' : List σ} {map : κ → Option ν} {s t : σ} {j : Nat} {key : κ}

theorem Represents.empty (free : ∀ s ∈ slots, view.used s = false) : Represents view slots fun _ => none := by
  refine ⟨fun i _ s _ there _ used => ?_, fun key value => iff_of_false nofun ?_⟩
  · rw [free s (List.mem_of_getElem? there)] at used
    cases used
  · rintro ⟨i, s, there, used, _⟩
    rw [free s (List.mem_of_getElem? there)] at used
    cases used

theorem Represents.found (represents : Represents view slots map) (there : slots[j]? = some s) (used : view.used s = true) :
    map (view.key s) = some (view.value s) := (represents.entries _ _).mpr ⟨j, s, there, used, rfl, rfl⟩

theorem Represents.absent (represents : Represents view slots map) :
    map key = none ↔ ∀ s ∈ slots, view.used s = true → view.key s ≠ key := by
  constructor
  · rintro missing s member used rfl
    obtain ⟨i, there⟩ := List.mem_iff_getElem?.mp member
    rw [represents.found there used] at missing
    cases missing
  · intro nowhere
    cases found : map key with
    | none => rfl
    | some value =>
      obtain ⟨i, s, there, used, same, _⟩ := (represents.entries key value).mp found
      exact absurd same (nowhere s (List.mem_of_getElem? there) used)

/-- A new key in a slot that was free, or behind the last. -/
theorem Represents.put [DecidableEq κ] (represents : Represents view slots map)
    (put : ∀ i : Nat, slots'[i]? = if i = j then some s else slots[i]?)
    (free : ∀ t, slots[j]? = some t → view.used t = false) (used : view.used s = true) (new : map (view.key s) = none) :
    Represents view slots' (insertKey map (view.key s) (view.value s)) := by
  have other {i : Nat} {t : σ} (there : slots[i]? = some t) (used' : view.used t = true) : view.key t ≠ view.key s ∧ i ≠ j := by
    refine ⟨represents.absent.mp new t (List.mem_of_getElem? there) used', ?_⟩
    rintro rfl
    rw [free t there] at used'
    cases used'
  constructor
  · intro i k t u there there' used₁ used₂ same
    rw [put] at there there'
    split at there <;> split at there'
    next first second => rw [first, second]
    next =>
      cases there
      exact absurd same.symm (other there' used₂).1
    next =>
      cases there'
      exact absurd same (other there used₁).1
    next => exact represents.unique i k t u there there' used₁ used₂ same
  · intro key value
    rw [insertKey_some]
    constructor
    · rintro (⟨rfl, rfl⟩ | ⟨_, before⟩)
      · exact ⟨j, s, by rw [put, if_pos rfl], used, rfl, rfl⟩
      · obtain ⟨i, t, there, used', rfl, rfl⟩ := (represents.entries key value).mp before
        exact ⟨i, t, by rw [put, if_neg (other there used').2]; exact there, used', rfl, rfl⟩
    · rintro ⟨i, t, there, used', rfl, rfl⟩
      rw [put] at there
      split at there
      next =>
        cases there
        exact .inl ⟨rfl, rfl⟩
      next => exact .inr ⟨(other there used').1, represents.found there used'⟩

theorem Represents.replace [DecidableEq κ] (represents : Represents view slots map)
    (put : ∀ i : Nat, slots'[i]? = if i = j then some s else slots[i]?)
    (there : slots[j]? = some t) (taken : view.used t = true) (used : view.used s = true) (same : view.key s = view.key t) :
    Represents view slots' (insertKey map (view.key s) (view.value s)) := by
  have before {i : Nat} {u : σ} (there' : slots'[i]? = some u) (used' : view.used u = true) :
      ∃ w, slots[i]? = some w ∧ view.used w = true ∧ view.key w = view.key u := by
    rw [put] at there'
    split at there'
    next here =>
      cases there'
      exact ⟨t, here ▸ there, taken, same.symm⟩
    next => exact ⟨u, there', used', rfl⟩
  constructor
  · intro i k u w there₁ there₂ used₁ used₂ equal
    obtain ⟨u', at₁, taken₁, key₁⟩ := before there₁ used₁
    obtain ⟨w', at₂, taken₂, key₂⟩ := before there₂ used₂
    exact represents.unique i k u' w' at₁ at₂ taken₁ taken₂ (key₁.trans (equal.trans key₂.symm))
  · intro key value
    rw [insertKey_some]
    constructor
    · rintro (⟨rfl, rfl⟩ | ⟨differs, before⟩)
      · exact ⟨j, s, by rw [put, if_pos rfl], used, rfl, rfl⟩
      · obtain ⟨i, u, there', used', rfl, rfl⟩ := (represents.entries key value).mp before
        refine ⟨i, u, ?_, used', rfl, rfl⟩
        rw [put, if_neg]
        · exact there'
        · rintro rfl
          cases there.symm.trans there'
          exact differs same.symm
    · rintro ⟨i, u, there', used', rfl, rfl⟩
      rw [put] at there'
      split at there'
      next =>
        cases there'
        exact .inl ⟨rfl, rfl⟩
      next elsewhere =>
        refine .inr ⟨fun equal => elsewhere ?_, represents.found there' used'⟩
        exact represents.unique i j u t there' there used' taken (equal.trans same)

theorem Represents.idle (represents : Represents view slots map)
    (put : ∀ i : Nat, slots'[i]? = if i = j then some t else slots[i]?)
    (free : ∀ s, slots[j]? = some s → view.used s = false) (free' : view.used t = false) : Represents view slots' map := by
  have same (i : Nat) (s : σ) (used : view.used s = true) : slots'[i]? = some s ↔ slots[i]? = some s := by
    rw [put]
    split
    next here =>
      subst here
      constructor
      · intro there
        cases there
        rw [free'] at used
        cases used
      · intro there
        rw [free s there] at used
        cases used
    next => rfl
  constructor
  · intro i k s u there there' used used'
    exact represents.unique i k s u ((same i s used).mp there) ((same k u used').mp there') used used'
  · intro key value
    rw [represents.entries]
    constructor
    · rintro ⟨i, s, there, used, rest⟩
      exact ⟨i, s, (same i s used).mpr there, used, rest⟩
    · rintro ⟨i, s, there, used, rest⟩
      exact ⟨i, s, (same i s used).mp there, used, rest⟩

theorem Represents.clear [DecidableEq κ] (represents : Represents view slots map)
    (put : ∀ i : Nat, slots'[i]? = if i = j then some t else slots[i]?)
    (there : slots[j]? = some s) (used : view.used s = true) (free : view.used t = false) :
    Represents view slots' (eraseKey map (view.key s)) := by
  constructor
  · intro i k u w there₁ there₂ used₁ used₂ same
    rw [put] at there₁ there₂
    split at there₁
    next =>
      cases there₁
      rw [free] at used₁
      cases used₁
    next =>
      split at there₂
      next =>
        cases there₂
        rw [free] at used₂
        cases used₂
      next => exact represents.unique i k u w there₁ there₂ used₁ used₂ same
  · intro key value
    rw [eraseKey_some]
    constructor
    · rintro ⟨differs, before⟩
      obtain ⟨i, u, there', used', rfl, rfl⟩ := (represents.entries key value).mp before
      refine ⟨i, u, ?_, used', rfl, rfl⟩
      rw [put, if_neg]
      · exact there'
      · rintro rfl
        cases there.symm.trans there'
        exact differs rfl
    · rintro ⟨i, u, there', used', rfl, rfl⟩
      rw [put] at there'
      split at there'
      next =>
        cases there'
        rw [free] at used'
        cases used'
      next differs =>
        exact ⟨fun same => differs (represents.unique i j u s there' there used' used same), represents.found there' used'⟩

/-- The keys in the order of the slots: each key of the map, and once. -/
theorem Represents.keys (represents : Represents view slots map) : ((slots.filter view.used).map view.key).Nodup ∧
    ∀ key, key ∈ (slots.filter view.used).map view.key ↔ map key ≠ none := by
  constructor
  · rw [List.Nodup, List.pairwise_map, List.pairwise_filter, List.pairwise_iff_getElem]
    intro i j inside inside' before used used' same
    have equal := represents.unique i j _ _ (List.getElem?_eq_getElem inside) (List.getElem?_eq_getElem inside') used used' same
    omega
  · intro key
    rw [ne_eq, represents.absent]
    simp only [List.mem_map, List.mem_filter]
    constructor
    · rintro ⟨s, ⟨member, used⟩, same⟩ nowhere
      exact nowhere s member used same
    · intro somewhere
      apply Classical.byContradiction
      intro none
      exact somewhere fun s member used same => none ⟨s, ⟨member, used⟩, same⟩

end Comp310.Lib
