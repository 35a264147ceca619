import Mathlib.Data.List.TakeWhile

/-! The parts of a text between separators, without the empty ones. Texts are
lists of any type. -/

namespace Comp310.Lib

/-- The parts one after the other: the maximal runs without the separator. -/
inductive Runs (separator : α) : List α → List (List α) → Prop where
  | done (only : ∀ x ∈ before, x = separator) : Runs separator before []
  | part (only : ∀ x ∈ before, x = separator) (nonempty : run ≠ []) (absent : separator ∉ run)
      (ends : rest = [] ∨ rest.head? = some separator) (later : Runs separator rest parts) :
      Runs separator (before ++ run ++ rest) (run :: parts)

variable {α : Type} [BEq α] {separator : α} {text first rest token : List α}

/-- The parts of the text that are not empty. -/
def fields (separator : α) (text : List α) : List (List α) := (text.splitOn separator).filter fun part => !part.isEmpty

theorem fields_nil : fields separator ([] : List α) = [] := by
  rw [fields, List.splitOn_nil]
  rfl

/-- The next part, and what is left behind the separator that ends it. -/
def nextField (separator : α) (text : List α) : Option (List α × List α) :=
  match text.dropWhile (· == separator) with
  | [] => none
  | c :: rest => some ((c :: rest).takeWhile (· != separator), ((c :: rest).dropWhile (· != separator)).tail)

theorem nextField_shorter (found : nextField separator text = some (token, rest)) : rest.length < text.length := by
  rw [nextField] at found
  split at found
  next => cases found
  next c behind left =>
    cases found
    have skipped := (List.dropWhile_suffix (l := text) (· == separator)).length_le
    have dropped := (List.dropWhile_suffix (l := c :: behind) (· != separator)).length_le
    rw [left, List.length_cons] at skipped
    rw [List.length_tail]
    rw [List.length_cons] at dropped
    omega

variable [LawfulBEq α]

theorem fields_append : fields separator (first ++ separator :: rest) = fields separator first ++ fields separator rest := by
  unfold fields
  rw [List.splitOn_append_cons_self, List.filter_append]

theorem fields_separator : fields separator (separator :: rest) = fields separator rest := by
  have split : fields separator ([] ++ separator :: rest) = fields separator [] ++ fields separator rest := fields_append
  rw [fields_nil] at split
  exact split

theorem fields_single (nonempty : text ≠ []) (absent : separator ∉ text) : fields separator text = [text] := by
  unfold fields
  rw [List.splitOn_eq_singleton absent]
  apply List.filter_eq_self.mpr
  intro part member
  rw [List.mem_singleton.mp member, Bool.not_eq_true']
  exact List.isEmpty_eq_false_iff.mpr nonempty

/-- A part has no separator, and what it has is of the text. -/
theorem splitOn_parts (separator : α) (text : List α) : ∀ part ∈ text.splitOn separator, separator ∉ part ∧ ∀ x ∈ part, x ∈ text := by
  generalize size : text.length = length
  induction length using Nat.strongRecOn generalizing text with
  | ind length ih =>
    intro part member
    by_cases there : separator ∈ text
    · obtain ⟨first, rest, rfl, absent⟩ := List.eq_append_cons_of_mem there
      rw [List.splitOn_append_cons_self_of_not_mem absent] at member
      rw [List.length_append, List.length_cons] at size
      rcases List.mem_cons.mp member with rfl | member
      · exact ⟨absent, fun x inside => List.mem_append_left _ inside⟩
      · obtain ⟨absent, within⟩ := ih rest.length (by omega) rest rfl part member
        exact ⟨absent, fun x inside => List.mem_append_right _ (List.mem_cons_of_mem _ (within x inside))⟩
    · rw [List.splitOn_eq_singleton there, List.mem_singleton] at member
      rw [member]
      exact ⟨there, fun x inside => inside⟩

/-- Without a separator there is one part, and with one there are more behind it. -/
theorem split_first (separator : α) (text : List α) :
    separator ∉ text ∨ ∃ first rest, text = first ++ separator :: rest ∧ separator ∉ first := by
  by_cases there : separator ∈ text
  · exact .inr (List.eq_append_cons_of_mem there)
  · exact .inl there

theorem fields_dropWhile : fields separator (text.dropWhile (· == separator)) = fields separator text := by
  induction text with
  | nil => rfl
  | cons c rest ih =>
    rw [List.dropWhile_cons]
    split
    next same => rw [ih, eq_of_beq same, fields_separator]
    next => rfl

theorem fields_first {c : α} (other : c ≠ separator) : fields separator (c :: rest) =
    (c :: rest).takeWhile (· != separator) :: fields separator ((c :: rest).dropWhile (· != separator)).tail := by
  have whole (first : List α) (absent : separator ∉ first) : ∀ x ∈ first, (x != separator) = true :=
    fun x member => bne_iff_ne.mpr fun same => absent (same ▸ member)
  rcases split_first separator (c :: rest) with absent | ⟨first, behind, split, absent⟩
  · rw [fields_single (List.cons_ne_nil c rest) absent, List.takeWhile_eq_self_iff.mpr (whole _ absent),
      List.dropWhile_eq_nil_iff.mpr (whole _ absent), List.tail_nil, fields_nil]
  · have nonempty : first ≠ [] := by
      rintro rfl
      exact other (List.cons.inj split).1
    have stop : (separator != separator) = false := bne_self_eq_false separator
    rw [split, fields_append, fields_single nonempty absent, List.takeWhile_append_of_pos (whole _ absent),
      List.dropWhile_append_of_pos (whole _ absent), List.takeWhile_cons, List.dropWhile_cons, stop, if_neg Bool.false_ne_true,
      if_neg Bool.false_ne_true, List.append_nil, List.tail_cons, List.singleton_append]

section Tokens

theorem skipped_head {c : α} (left : text.dropWhile (· == separator) = c :: rest) : c ≠ separator := by
  have stop := List.head?_dropWhile_not (· == separator) text
  rw [left] at stop
  exact beq_eq_false_iff_ne.mp stop

theorem nextField_none : nextField separator text = none ↔ fields separator text = [] := by
  rw [← fields_dropWhile, nextField]
  split
  next left => rw [left]; exact iff_of_true rfl fields_nil
  next c rest left =>
    rw [left, fields_first (skipped_head left)]
    exact iff_of_false (Option.some_ne_none _) (List.cons_ne_nil _ _)

theorem nextField_some (found : nextField separator text = some (token, rest)) :
    fields separator text = token :: fields separator rest := by
  rw [nextField] at found
  split at found
  next => cases found
  next c behind left =>
    cases found
    rw [← fields_dropWhile, left, fields_first (skipped_head left)]

end Tokens

section Maximal
variable {parts : List (List α)}

private theorem fields_before {before : List α} (only : ∀ x ∈ before, x = separator) :
    fields separator (before ++ text) = fields separator text := by
  rw [← fields_dropWhile, List.dropWhile_append_of_pos fun x member => beq_iff_eq.mpr (only x member), fields_dropWhile]

theorem Runs.fields_eq (runs : Runs separator text parts) : fields separator text = parts := by
  induction runs with
  | @done before only => rw [← List.append_nil before, fields_before only, fields_nil]
  | @part before run rest parts only nonempty absent ends _ ih =>
    rw [List.append_assoc, fields_before only]
    rcases ends with rfl | stop
    · rw [List.append_nil, fields_single nonempty absent, ← ih, fields_nil]
    · obtain ⟨behind, rfl⟩ := List.head?_eq_some_iff.mp stop
      rw [fields_append, fields_single nonempty absent, ← ih, fields_separator, List.singleton_append]

private theorem text_parts (separator : α) (text : List α) : (∀ x ∈ text, x = separator) ∨
    ∃ before run rest, text = before ++ run ++ rest ∧ (∀ x ∈ before, x = separator) ∧ run ≠ [] ∧ separator ∉ run ∧
      (rest = [] ∨ rest.head? = some separator) := by
  have split := List.takeWhile_append_dropWhile (p := (· == separator)) (l := text)
  have only : ∀ x ∈ text.takeWhile (· == separator), x = separator := by
    intro x member
    have same := List.mem_takeWhile_imp member
    exact eq_of_beq same
  cases left : text.dropWhile (· == separator) with
  | nil =>
    rw [left, List.append_nil] at split
    rw [split] at only
    exact .inl only
  | cons c behind =>
    rw [left] at split
    rcases split_first separator (c :: behind) with absent | ⟨run, rest, inner, absent⟩
    · exact .inr ⟨_, c :: behind, [], by rw [List.append_nil, split], only, List.cons_ne_nil c behind, absent, .inl rfl⟩
    · have nonempty : run ≠ [] := by
        rintro rfl
        exact skipped_head left (List.cons.inj inner).1
      exact .inr ⟨_, run, separator :: rest, by rw [List.append_assoc, ← inner, split], only, nonempty, absent, .inr rfl⟩

theorem runs_fields (separator : α) (text : List α) : Runs separator text (fields separator text) := by
  have runs : ∃ parts, Runs separator text parts := by
    generalize size : text.length = length
    induction length using Nat.strongRecOn generalizing text with
    | ind length ih =>
      rcases text_parts separator text with only | ⟨before, run, rest, rfl, only, nonempty, absent, ends⟩
      · exact ⟨[], .done only⟩
      · have long := List.length_pos_iff.mpr nonempty
        rw [List.length_append, List.length_append] at size
        obtain ⟨parts, later⟩ := ih rest.length (by omega) rest rfl
        exact ⟨_, .part only nonempty absent ends later⟩
  obtain ⟨parts, runs⟩ := runs
  rwa [runs.fields_eq]

end Maximal

end Comp310.Lib
