/-! Linked lists in a heap: cells of any type, each of which has a next one or none. -/

namespace Comp310.Lib
variable {α : Type}

/-- From `start` the cells of the list follow one another, up to `stop`. -/
def Linked (next : α → Option α) : Option α → List α → Option α → Prop
  | start, [], stop => start = stop
  | start, cell :: rest, stop => start = some cell ∧ Linked next (next cell) rest stop

variable {next next' : α → Option α} {start stop : Option α} {cells first rest other : List α} {cell last : α}

theorem Linked.congr (same : ∀ cell ∈ cells, next' cell = next cell) (linked : Linked next start cells stop) :
    Linked next' start cells stop := by
  induction cells generalizing start with
  | nil => exact linked
  | cons cell rest ih =>
    refine ⟨linked.1, ?_⟩
    rw [same cell List.mem_cons_self]
    exact ih (fun later member => same later (List.mem_cons_of_mem _ member)) linked.2

theorem linked_append : Linked next start (first ++ rest) stop ↔ ∃ middle, Linked next start first middle ∧ Linked next middle rest stop := by
  induction first generalizing start with
  | nil =>
    constructor
    · intro linked
      exact ⟨start, rfl, linked⟩
    · rintro ⟨_, rfl, linked⟩
      exact linked
  | cons cell first ih =>
    rw [List.cons_append]
    constructor
    · rintro ⟨same, linked⟩
      obtain ⟨middle, before, after⟩ := ih.mp linked
      exact ⟨middle, ⟨same, before⟩, after⟩
    · rintro ⟨middle, ⟨same, before⟩, after⟩
      exact ⟨same, ih.mpr ⟨middle, before, after⟩⟩

theorem linked_split : Linked next start (first ++ cell :: rest) stop ↔
    Linked next start first (some cell) ∧ Linked next (next cell) rest stop := by
  rw [linked_append]
  constructor
  · rintro ⟨_, before, rfl, after⟩
    exact ⟨before, after⟩
  · rintro ⟨before, after⟩
    exact ⟨some cell, before, rfl, after⟩

/-- A list that comes to an end is the only one from its start. -/
theorem Linked.unique (linked : Linked next start cells none) (linked' : Linked next start other none) : cells = other := by
  induction cells generalizing start other with
  | nil =>
    cases other with
    | nil => rfl
    | cons cell rest =>
      have empty : start = none := linked
      cases empty.symm.trans linked'.1
  | cons cell rest ih =>
    cases other with
    | nil => cases linked.1.symm.trans linked'
    | cons cell' rest' =>
      cases linked.1.symm.trans linked'.1
      rw [ih linked.2 linked'.2]

theorem Linked.nodup (linked : Linked next start cells none) : cells.Nodup := by
  induction cells generalizing start with
  | nil => exact List.nodup_nil
  | cons cell rest ih =>
    rw [List.nodup_cons]
    refine ⟨?_, ih linked.2⟩
    intro again
    obtain ⟨front, back, rfl⟩ := List.append_of_mem again
    have same := (linked_split.mp linked.2).2.unique linked.2
    have length := congrArg List.length same
    rw [List.length_append, List.length_cons] at length
    omega

theorem Linked.next_mem {later : α} (linked : Linked next start (cell :: rest) none) (member : last ∈ cell :: rest) (link : next last = some later) :
    later ∈ rest := by
  obtain ⟨front, back, split⟩ := List.append_of_mem member
  rw [split] at linked
  have behind := (linked_split.mp linked).2
  rw [link] at behind
  cases back with
  | nil => cases behind
  | cons second back =>
    cases behind.1
    cases front with
    | nil =>
      rw [(List.cons.inj split).2]
      exact List.mem_cons_self
    | cons first front =>
      rw [(List.cons.inj split).2]
      exact List.mem_append_right front (List.mem_cons_of_mem _ List.mem_cons_self)

section Update
variable [DecidableEq α]

def relink (next : α → Option α) (cell : α) (target : Option α) : α → Option α := fun other => if other = cell then target else next other

theorem relink_self {target : Option α} : relink next cell target cell = target := if_pos rfl

theorem relink_other {target : Option α} {other : α} (differs : other ≠ cell) : relink next cell target other = next other := if_neg differs

theorem Linked.relink {target : Option α} (absent : cell ∉ cells) (linked : Linked next start cells stop) :
    Linked (relink next cell target) start cells stop :=
  linked.congr fun _ member => relink_other fun same => absent (same ▸ member)

end Update

end Comp310.Lib
