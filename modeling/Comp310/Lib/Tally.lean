import Comp310.Lib.SlotMap

/-! Counts of references. Objects are of any type, and a reference is an
occurrence of its object in a list, whose order means nothing. -/

namespace Comp310.Lib
variable {α : Type} [DecidableEq α]

/-- What is referred to is there, and whatever is there counts the references to it. -/
structure Tallied (counts : α → Option Int) (refs : List α) : Prop where
  held : ∀ a ∈ refs, ∃ n, counts a = some n
  counted : ∀ a n, counts a = some n → n = refs.count a

variable {counts : α → Option Int} {refs refs' : List α} {a : α} {n : Int}

theorem Tallied.perm (tallied : Tallied counts refs) (same : refs.Perm refs') : Tallied counts refs' where
  held b member := tallied.held b (same.mem_iff.mpr member)
  counted b m found := by
    rw [← same.count_eq b]
    exact tallied.counted b m found

theorem Tallied.fresh (tallied : Tallied counts refs) (new : counts a = none) : Tallied (insertKey counts a 1) (a :: refs) := by
  have unused : a ∉ refs := by
    intro member
    obtain ⟨m, found⟩ := tallied.held a member
    rw [new] at found
    cases found
  constructor
  · intro b member
    rcases List.mem_cons.mp member with rfl | member
    · exact ⟨1, insertKey_self⟩
    · have differs : b ≠ a := fun same => unused (same ▸ member)
      rw [insertKey_other differs]
      exact tallied.held b member
  · intro b m found
    rcases insertKey_some.mp found with ⟨rfl, rfl⟩ | ⟨differs, found⟩
    · rw [List.count_cons_self, List.count_eq_zero_of_not_mem unused]
      rfl
    · rw [List.count_cons_of_ne (Ne.symm differs)]
      exact tallied.counted b m found

theorem Tallied.last (tallied : Tallied counts (a :: refs)) (one : counts a = some 1) : a ∉ refs := by
  have count := tallied.counted a 1 one
  rw [List.count_cons_self] at count
  exact List.count_eq_zero.mp (by omega)

theorem Tallied.dropped (tallied : Tallied counts (a :: refs)) (one : counts a = some 1) : Tallied (eraseKey counts a) refs := by
  have gone := tallied.last one
  constructor
  · intro b member
    have differs : b ≠ a := fun same => gone (same ▸ member)
    rw [eraseKey_other differs]
    exact tallied.held b (List.mem_cons_of_mem _ member)
  · intro b m found
    obtain ⟨differs, found⟩ := eraseKey_some.mp found
    have count := tallied.counted b m found
    rwa [List.count_cons_of_ne (Ne.symm differs)] at count

theorem Tallied.lessened (tallied : Tallied counts (a :: refs)) (found : counts a = some n) :
    Tallied (insertKey counts a (n - 1)) refs := by
  constructor
  · intro b member
    by_cases same : b = a
    · exact ⟨n - 1, same ▸ insertKey_self⟩
    · rw [insertKey_other same]
      exact tallied.held b (List.mem_cons_of_mem _ member)
  · intro b m found'
    rcases insertKey_some.mp found' with ⟨rfl, rfl⟩ | ⟨differs, found'⟩
    · have count := tallied.counted b n found
      rw [List.count_cons_self] at count
      omega
    · have count := tallied.counted b m found'
      rwa [List.count_cons_of_ne (Ne.symm differs)] at count

theorem Tallied.uncounted (tallied : Tallied counts refs) (found : counts a = some n) : ¬ Tallied counts (a :: refs) := by
  intro wrong
  have before := tallied.counted a n found
  have after := wrong.counted a n found
  rw [List.count_cons_self] at after
  omega

end Comp310.Lib
