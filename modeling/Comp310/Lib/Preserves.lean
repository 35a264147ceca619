import Comp310.Lib.Wp

/-! Partial correctness: an invariant that a program keeps and what is known of
its result, on every run that comes to its end. Nothing is said of a fault, so
the rules need no precondition besides the invariant. -/

namespace Comp310.Lib

/-- From a state with the invariant, a run that comes to its end leaves one and gives a value as described. -/
def Preserves (invariant : σ → Prop) (program : Prog σ α) (gives : α → Prop) : Prop :=
  ∀ state value after, invariant state → program state = some (value, after) → invariant after ∧ gives value

/-- As `Preserves`, with nothing known of the value. -/
abbrev Stays (invariant : σ → Prop) (program : Prog σ α) : Prop := Preserves invariant program fun _ => True

variable {invariant : σ → Prop} {program : Prog σ α} {gives : α → Prop}

theorem Preserves.mono {weaker : α → Prop} (keeps : Preserves invariant program gives) (implies : ∀ value, gives value → weaker value) :
    Preserves invariant program weaker := by
  intro state value after holds ran
  obtain ⟨kept, given⟩ := keeps state value after holds ran
  exact ⟨kept, implies value given⟩

theorem Preserves.stays (keeps : Preserves invariant program gives) : Stays invariant program :=
  keeps.mono fun _ _ => trivial

theorem Preserves.also {other : α → Prop} (keeps : Preserves invariant program gives) (always : Preserves (fun _ => True) program other) :
    Preserves invariant program fun value => gives value ∧ other value := by
  intro state value after holds ran
  obtain ⟨kept, given⟩ := keeps state value after holds ran
  exact ⟨kept, given, (always state value after trivial ran).2⟩

theorem Preserves.pure {value : α} (given : gives value) : Preserves invariant (pure value) gives := by
  intro state value' after holds ran
  cases ran
  exact ⟨holds, given⟩

theorem Preserves.done {value : α} : Stays invariant (Pure.pure value : Prog σ α) := Preserves.pure trivial

theorem Preserves.any : Stays (fun _ => True) program := fun _ _ _ _ _ => ⟨trivial, trivial⟩

theorem Preserves.fault : Preserves invariant fault gives := by
  intro state value after _ ran
  cases ran

theorem Preserves.bind {middle : α → Prop} {next : α → Prog σ β} {gives : β → Prop}
    (first : Preserves invariant program middle) (rest : ∀ value, middle value → Preserves invariant (next value) gives) :
    Preserves invariant (program >>= next) gives := by
  intro state result final holds ran
  obtain ⟨value, after, ran₁, ran₂⟩ := bind_some ran
  obtain ⟨kept, given⟩ := first state value after holds ran₁
  exact rest value given after result final kept ran₂

theorem Preserves.next {next : α → Prog σ β} {gives : β → Prop} (first : Stays invariant program)
    (rest : ∀ value, Preserves invariant (next value) gives) : Preserves invariant (program >>= next) gives :=
  first.bind fun value _ => rest value

theorem Preserves.get : Preserves invariant (get : Prog σ σ) invariant := by
  intro state value after holds ran
  cases ran
  exact ⟨holds, holds⟩

theorem Preserves.set {state : σ} (holds : invariant state) : Stays invariant (set state : Prog σ PUnit) := by
  intro _ value after _ ran
  cases ran
  exact ⟨holds, trivial⟩

theorem Preserves.modify {change : σ → σ} (holds : ∀ state, invariant state → invariant (change state)) :
    Stays invariant (modify change : Prog σ PUnit) := by
  intro state value after before ran
  cases ran
  exact ⟨holds state before, trivial⟩

theorem Preserves.ite {condition : Prop} [Decidable condition] {first second : Prog σ α}
    (yes : condition → Preserves invariant first gives) (no : ¬ condition → Preserves invariant second gives) :
    Preserves invariant (if condition then first else second) gives := by
  split
  · exact yes ‹_›
  · exact no ‹_›

end Comp310.Lib
