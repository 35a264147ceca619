/-! Assignments of resources to places that only grow. `nil` marks a place that
has no resource yet; resources come from a pool, in which a used one is never
handed out again. -/

namespace Comp310.Lib

variable {π κ ρ : Type} {nil : ρ} {used used' used'' : ρ → Prop} {before middle after : π → ρ}

/-- Every assigned resource is in use, and in one place. -/
structure Placed (nil : ρ) (used : ρ → Prop) (map : π → ρ) : Prop where
  used : ∀ p, map p ≠ nil → used (map p)
  distinct : ∀ p q, map p ≠ nil → map p = map q → p = q

/-- What was assigned stays, and what is added was free. -/
structure Grows (nil : ρ) (used used' : ρ → Prop) (before after : π → ρ) : Prop where
  keep : ∀ p, before p ≠ nil → after p = before p
  fresh : ∀ p, before p = nil → after p ≠ nil → ¬ used (after p) ∧ used' (after p)
  apart : ∀ p q, before p = nil → before q = nil → after p ≠ nil → after p = after q → p = q
  mono : ∀ r, used r → used' r

theorem Grows.refl : Grows nil used used before before :=
  ⟨fun _ _ => rfl, fun _ absent present => absurd absent present, fun _ _ absent _ present => absurd absent present,
    fun _ => id⟩

theorem Grows.idle (grows : Grows nil used used before after) : after = before := by
  funext p
  by_cases absent : before p = nil
  · by_cases present : after p = nil
    · rw [present, absent]
    · exact absurd (grows.fresh p absent present).2 (grows.fresh p absent present).1
  · exact grows.keep p absent

theorem Grows.trans (first : Grows nil used used' before middle) (second : Grows nil used' used'' middle after) :
    Grows nil used used'' before after := by
  have origin (p : π) (absent : before p = nil) (present : after p ≠ nil) :
      (middle p = nil ∨ after p = middle p) ∧ (middle p ≠ nil → ¬ used (after p) ∧ used' (after p)) := by
    by_cases assigned : middle p = nil
    · exact ⟨.inl assigned, fun present => absurd assigned present⟩
    · have kept := second.keep p assigned
      exact ⟨.inr kept, fun _ => kept ▸ first.fresh p absent assigned⟩
  refine ⟨?_, ?_, ?_, fun r member => second.mono r (first.mono r member)⟩
  · intro p present
    have kept := first.keep p present
    rw [second.keep p (kept.symm ▸ present), kept]
  · intro p absent present
    by_cases assigned : middle p = nil
    · obtain ⟨free, taken⟩ := second.fresh p assigned present
      exact ⟨fun member => free (first.mono _ member), taken⟩
    · obtain ⟨free, taken⟩ := (origin p absent present).2 assigned
      exact ⟨free, second.mono _ taken⟩
  · intro p q absent absent' present same
    have present' : after q ≠ nil := same ▸ present
    by_cases assigned : middle p = nil <;> by_cases assigned' : middle q = nil
    · exact second.apart p q assigned assigned' present same
    · exact absurd ((origin q absent' present').2 assigned').2 (same ▸ (second.fresh p assigned present).1)
    · exact absurd ((origin p absent present).2 assigned).2 (same ▸ (second.fresh q assigned' present').1)
    · rw [second.keep p assigned, second.keep q assigned'] at same
      exact first.apart p q absent absent' assigned same

theorem Grows.drop (grows : Grows nil used used' before middle)
    (dropped : ∀ p, after p = middle p ∨ (before p = nil ∧ after p = nil)) : Grows nil used used' before after := by
  have still (p : π) (present : after p ≠ nil) : after p = middle p :=
    (dropped p).elim id fun absent => absurd absent.2 present
  refine ⟨?_, ?_, ?_, grows.mono⟩
  · intro p present
    exact ((dropped p).elim id fun absent => absurd absent.1 present).trans (grows.keep p present)
  · intro p absent present
    have kept := still p present
    rw [kept] at present ⊢
    exact grows.fresh p absent present
  · intro p q absent absent' present same
    have kept := still p present
    have kept' := still q (same ▸ present)
    rw [kept] at present same
    rw [kept'] at same
    exact grows.apart p q absent absent' present same

/-- Growth of one part of a larger assignment, of which the rest stays as it is. -/
theorem Grows.embed {whole whole' : κ → ρ} (grows : Grows nil used used' before after) (place : π → κ)
    (inside : ∀ p, whole (place p) = before p) (inside' : ∀ p, whole' (place p) = after p)
    (outside : ∀ k, (∀ p, k ≠ place p) → whole' k = whole k) : Grows nil used used' whole whole' := by
  have reach (k : κ) (changed : whole k = nil) (present : whole' k ≠ nil) : ∃ p, k = place p := by
    by_cases found : ∃ p, k = place p
    · exact found
    · rw [outside k (fun p same => found ⟨p, same⟩)] at present
      exact absurd changed present
  refine ⟨?_, ?_, ?_, grows.mono⟩
  · intro k present
    by_cases found : ∃ p, k = place p
    · obtain ⟨p, rfl⟩ := found
      rw [inside] at present
      rw [inside, inside', grows.keep p present]
    · exact outside k fun p same => found ⟨p, same⟩
  · intro k absent present
    obtain ⟨p, rfl⟩ := reach k absent present
    rw [inside'] at present ⊢
    exact grows.fresh p (inside p ▸ absent) present
  · intro k l absent absent' present same
    obtain ⟨p, rfl⟩ := reach k absent present
    obtain ⟨q, rfl⟩ := reach l absent' (same ▸ present)
    rw [inside'] at present
    rw [inside', inside'] at same
    rw [grows.apart p q (inside p ▸ absent) (inside q ▸ absent') present same]

theorem Grows.placed (grows : Grows nil used used' before after) (placed : Placed nil used before) :
    Placed nil used' after := by
  have old (p : π) (present : before p ≠ nil) : after p = before p ∧ used (after p) := by
    have kept := grows.keep p present
    exact ⟨kept, kept.symm ▸ placed.used p present⟩
  constructor
  · intro p present
    by_cases absent : before p = nil
    · exact (grows.fresh p absent present).2
    · exact grows.mono _ (old p absent).2
  · intro p q present same
    have present' : after q ≠ nil := same ▸ present
    by_cases absent : before p = nil <;> by_cases absent' : before q = nil
    · exact grows.apart p q absent absent' present same
    · exact absurd (old q absent').2 (same ▸ (grows.fresh p absent present).1)
    · exact absurd (old p absent).2 (same ▸ (grows.fresh q absent' present').1)
    · rw [(old p absent).1, (old q absent').1] at same
      exact placed.distinct p q absent same

end Comp310.Lib
