import Comp310.Lib.Wp

/-! Runs of a system that takes one call after another, each of which may fail
to return. A property of steps is asked of every step of the run, up to the
first call that does not return; a program is traced when each of its runs is
one of these. -/

namespace Comp310.Lib

/-- Every step of the run of `calls` from `state` is as `holds` says. -/
def Along (step : ι → σ → Option σ) (holds : σ → ι → σ → Prop) : List ι → σ → Prop
  | [], _ => True
  | call :: rest, state => ∀ after, step call state = some after → holds state call after ∧ Along step holds rest after

variable {step : ι → σ → Option σ} {first second : σ → ι → σ → Prop} {good : σ → Prop}

/-- The step rule: where every step that is as `first` says keeps the invariant,
and under the invariant is as `second` says, so is the whole run. -/
theorem Along.of (implies : ∀ state call after, good state → step call state = some after → first state call after →
      good after ∧ second state call after)
    (calls : List ι) (state : σ) (initial : good state) (along : Along step first calls state) :
    Along step second calls state := by
  induction calls generalizing state with
  | nil => trivial
  | cons call rest ih =>
    intro after taken
    obtain ⟨holds, remains⟩ := along after taken
    obtain ⟨kept, follows⟩ := implies state call after initial taken holds
    exact ⟨follows, ih after kept remains⟩

/-- Under an invariant that both kinds of steps keep, two properties of steps that agree agree on runs. -/
theorem Along.iff (kept : ∀ state call after, good state → step call state = some after → first state call after → good after)
    (agree : ∀ state call after, good state → step call state = some after → (first state call after ↔ second state call after))
    (calls : List ι) (state : σ) (initial : good state) : Along step first calls state ↔ Along step second calls state := by
  constructor
  · apply Along.of _ calls state initial
    intro before call after holds taken given
    exact ⟨kept before call after holds taken given, (agree before call after holds taken).mp given⟩
  · apply Along.of _ calls state initial
    intro before call after holds taken given
    have given' := (agree before call after holds taken).mpr given
    exact ⟨kept before call after holds taken given', given'⟩

/-- The state that the calls lead to, if each of them returns. -/
def takeAll (step : ι → σ → Option σ) : List ι → σ → Option σ
  | [], state => some state
  | call :: rest, state => (step call state).bind (takeAll step rest)

theorem takeAll_append (before after : List ι) (state : σ) :
    takeAll step (before ++ after) state = (takeAll step before state).bind (takeAll step after) := by
  induction before generalizing state with
  | nil => rfl
  | cons call rest ih =>
    change (step call state).bind (takeAll step (rest ++ after)) = ((step call state).bind (takeAll step rest)).bind (takeAll step after)
    cases step call state with
    | none => rfl
    | some next => exact ih next

section Traced
variable {τ α β : Type} {view : τ → σ} {program : Prog τ α}

/-- What a run of the program does to the system is what some calls do. -/
def Traced (step : ι → σ → Option σ) (view : τ → σ) (program : Prog τ α) : Prop :=
  ∀ state value after, program state = some (value, after) → ∃ calls, takeAll step calls (view state) = some (view after)

theorem Traced.quiet (quiet : ∀ state value after, program state = some (value, after) → view after = view state) :
    Traced step view program := by
  intro state value after ran
  exact ⟨[], congrArg some (quiet state value after ran).symm⟩

theorem Traced.pure (value : α) : Traced step view (pure value : Prog τ α) := by
  apply Traced.quiet
  intro state value after ran
  cases ran
  rfl

theorem Traced.fault : Traced step view (fault : Prog τ α) := by
  intro state value after ran
  cases ran

theorem Traced.get : Traced step view (get : Prog τ τ) := by
  apply Traced.quiet
  intro state value after ran
  cases ran
  rfl

theorem Traced.modify {change : τ → τ} (same : ∀ state, view (change state) = view state) :
    Traced step view (modify change : Prog τ PUnit) := by
  apply Traced.quiet
  intro state value after ran
  cases ran
  exact same state

theorem Traced.bind {next : α → Prog τ β} (first : Traced step view program) (rest : ∀ value, Traced step view (next value)) :
    Traced step view (program >>= next) := by
  intro state result final ran
  obtain ⟨value, after, ran₁, ran₂⟩ := bind_some ran
  obtain ⟨calls, taken⟩ := first state value after ran₁
  obtain ⟨later, taken'⟩ := rest value after result final ran₂
  refine ⟨calls ++ later, ?_⟩
  rw [takeAll_append, taken]
  exact taken'

theorem Traced.ite {condition : Prop} [Decidable condition] {first second : Prog τ α} (yes : Traced step view first)
    (no : Traced step view second) : Traced step view (if condition then first else second) := by
  split
  · exact yes
  · exact no

end Traced

end Comp310.Lib
