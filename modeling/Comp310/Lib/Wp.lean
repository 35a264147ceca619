/-! Total correctness of programs that carry a state and may fault. The rules
are about arbitrary states and results; a program is only unfolded to the calls
it makes, and each call is replaced by what is known of it. -/

namespace Comp310.Lib

/-- A deterministic program over `σ`. `none` is a fault: no result and no state. -/
abbrev Prog (σ : Type) := StateT σ Option

def fault : Prog σ α := fun _ => none

/-- The program runs to completion from `state`, and `post` holds of its result. -/
def Wp (program : Prog σ α) (post : α → σ → Prop) (state : σ) : Prop :=
  ∃ value after, program state = some (value, after) ∧ post value after

variable {program : Prog σ α} {post : α → σ → Prop} {state : σ}

theorem Wp.mono {weaker : α → σ → Prop} (runs : Wp program post state)
    (implies : ∀ value after, post value after → weaker value after) : Wp program weaker state := by
  obtain ⟨value, after, ran, holds⟩ := runs
  exact ⟨value, after, ran, implies value after holds⟩

theorem run_bind {value : α} {after : σ} (ran : program state = some (value, after)) (next : α → Prog σ β) :
    (program >>= next) state = next value after := by
  change (program state).bind (fun pair => next pair.1 pair.2) = _
  rw [ran]
  rfl

theorem run_bind_fault (ran : program state = none) (next : α → Prog σ β) : (program >>= next) state = none := by
  change (program state).bind (fun pair => next pair.1 pair.2) = _
  rw [ran]
  rfl

theorem bind_some {next : α → Prog σ β} {result : β × σ} (ran : (program >>= next) state = some result) :
    ∃ value after, program state = some (value, after) ∧ next value after = some result := by
  obtain ⟨⟨value, after⟩, first, rest⟩ := Option.bind_eq_some_iff.mp ran
  exact ⟨value, after, first, rest⟩

/-- A program that is known to run through has that result as its postcondition. -/
theorem Wp.of_eq {value : α} {after : σ} (ran : program state = some (value, after)) (holds : post value after) :
    Wp program post state := ⟨value, after, ran, holds⟩

/-- A program has one result, so a postcondition can be read off any run. -/
theorem Wp.result {value : α} {after : σ} (runs : Wp program post state)
    (ran : program state = some (value, after)) : post value after := by
  obtain ⟨value', after', ran', holds⟩ := runs
  cases ran.symm.trans ran'
  exact holds

theorem Wp.and {other : α → σ → Prop} (first : Wp program post state) (second : Wp program other state) :
    Wp program (fun value after => post value after ∧ other value after) state := by
  obtain ⟨value, after, ran, holds⟩ := first
  exact ⟨value, after, ran, holds, second.result ran⟩

theorem Wp.remember (runs : Wp program post state) :
    Wp program (fun value after => program state = some (value, after) ∧ post value after) state := by
  obtain ⟨value, after, ran, holds⟩ := runs
  exact ⟨value, after, ran, ran, holds⟩

@[simp] theorem wp_pure (value : α) : Wp (pure value) post state ↔ post value state := by
  constructor
  · rintro ⟨value', after, ran, holds⟩
    cases ran
    exact holds
  · exact fun holds => ⟨value, state, rfl, holds⟩

@[simp] theorem wp_bind {next : α → Prog σ β} {post : β → σ → Prop} :
    Wp (program >>= next) post state ↔ Wp program (fun value after => Wp (next value) post after) state := by
  constructor
  · rintro ⟨result, final, ran, holds⟩
    change (program state).bind (fun pair => next pair.1 pair.2) = some (result, final) at ran
    obtain ⟨⟨value, after⟩, first, rest⟩ := Option.bind_eq_some_iff.mp ran
    exact ⟨value, after, first, result, final, rest, holds⟩
  · rintro ⟨value, after, first, result, final, rest, holds⟩
    refine ⟨result, final, ?_, holds⟩
    change (program state).bind (fun pair => next pair.1 pair.2) = some (result, final)
    rw [first]
    exact rest

@[simp] theorem wp_map {f : α → β} {post : β → σ → Prop} :
    Wp (f <$> program) post state ↔ Wp program (fun value after => post (f value) after) state := by
  rw [map_eq_pure_bind, wp_bind]
  simp only [wp_pure]

@[simp] theorem wp_get {post : σ → σ → Prop} : Wp (get : Prog σ σ) post state ↔ post state state := by
  constructor
  · rintro ⟨value, after, ran, holds⟩
    cases ran
    exact holds
  · exact fun holds => ⟨state, state, rfl, holds⟩

@[simp] theorem wp_set {next : σ} {post : PUnit → σ → Prop} :
    Wp (set next : Prog σ PUnit) post state ↔ post ⟨⟩ next := by
  constructor
  · rintro ⟨value, after, ran, holds⟩
    cases ran
    exact holds
  · exact fun holds => ⟨⟨⟩, next, rfl, holds⟩

@[simp] theorem wp_modify {f : σ → σ} {post : PUnit → σ → Prop} :
    Wp (modify f : Prog σ PUnit) post state ↔ post ⟨⟩ (f state) := by
  constructor
  · rintro ⟨value, after, ran, holds⟩
    cases ran
    exact holds
  · exact fun holds => ⟨⟨⟩, f state, rfl, holds⟩

/-- As `Wp`, but where `excused` holds the program may also stop at a fault. -/
def WpUnless (excused : Prop) (program : Prog σ α) (post : α → σ → Prop) (state : σ) : Prop :=
  Wp program post state ∨ excused ∧ program state = none

section Faults
variable {excused : Prop}

theorem Wp.unless (runs : Wp program post state) : WpUnless excused program post state := .inl runs

theorem WpUnless.total (runs : WpUnless False program post state) : Wp program post state := runs.resolve_right And.left

theorem WpUnless.mono {weaker : α → σ → Prop} (runs : WpUnless excused program post state)
    (implies : ∀ value after, post value after → weaker value after) : WpUnless excused program weaker state :=
  runs.imp (Wp.mono · implies) id

theorem WpUnless.result {value : α} {after : σ} (runs : WpUnless excused program post state)
    (ran : program state = some (value, after)) : post value after := by
  rcases runs with runs | ⟨_, stopped⟩
  · exact runs.result ran
  · cases stopped.symm.trans ran

theorem WpUnless.of_result (holds : ∀ value after, program state = some (value, after) → post value after) :
    WpUnless True program post state := by
  cases ran : program state with
  | none => exact .inr ⟨trivial, ran⟩
  | some result => exact .inl ⟨result.1, result.2, ran, holds result.1 result.2 ran⟩

theorem WpUnless.after {value : α} {after : σ} {next : α → Prog σ β} {post : β → σ → Prop}
    (ran : program state = some (value, after)) (rest : WpUnless excused (next value) post after) :
    WpUnless excused (program >>= next) post state := by
  rw [WpUnless, wp_bind, run_bind ran]
  exact rest.imp (Wp.of_eq ran) id

theorem WpUnless.bind {next : α → Prog σ β} {middle : α → σ → Prop} {post : β → σ → Prop}
    (runs : WpUnless excused program middle state)
    (rest : ∀ value after, middle value after → WpUnless excused (next value) post after) :
    WpUnless excused (program >>= next) post state := by
  rcases runs with ⟨value, after, ran, holds⟩ | ⟨excuse, stopped⟩
  · exact .after ran (rest value after holds)
  · exact .inr ⟨excuse, run_bind_fault stopped next⟩

end Faults

/-- A list of operations, one after another. -/
def runAll (step : ι → Prog σ PUnit) : List ι → Prog σ PUnit
  | [] => pure ⟨⟩
  | operation :: rest => do
    step operation
    runAll step rest

end Comp310.Lib
