import Mathlib.Data.List.Perm.Basic
import Comp310.Lib.Bubble

/-! Natural merge sort, over lists of any type: a list is taken for the runs in
it that ascend already, and the runs are merged in pairs until one is left. What
comes out is the stable sort of the list, of which there is only one. -/

namespace Comp310.Lib
variable {α : Type}

/-- No element is less than one before it. -/
def Ascending (less : α → α → Bool) (list : List α) : Prop := list.Pairwise fun a b => less b a = false

def alike (less : α → α → Bool) (a b : α) : Bool := !less a b && !less b a

/-- The elements are in order, and those that are alike are in the order that they had. -/
structure StablySorted (less : α → α → Bool) (before after : List α) : Prop where
  ascending : Ascending less after
  classes : ∀ a, after.filter (alike less a) = before.filter (alike less a)

/-- The longest ascending parts of a list, one after another. -/
def naturalRuns (less : α → α → Bool) : List α → List (List α)
  | [] => []
  | [x] => [[x]]
  | x :: y :: rest =>
    match naturalRuns less (y :: rest) with
    | [] => [[x]]
    | run :: others => if less y x then [x] :: run :: others else (x :: run) :: others

/-- An element of the first list goes first, unless that of the second is less. -/
def mergeRuns (less : α → α → Bool) (first second : List α) : List α := first.merge second fun a b => !less b a

def mergePairs (less : α → α → Bool) : List (List α) → List (List α)
  | first :: second :: others => mergeRuns less first second :: mergePairs less others
  | others => others

variable {less : α → α → Bool} {list xs ys zs run left right : List α} {runs others : List (List α)} {a b c x y : α}

section Runs

theorem naturalRuns_cons (less : α → α → Bool) (x : α) (rest : List α) :
    ∃ run others, naturalRuns less (x :: rest) = (x :: run) :: others ∧ rest = run ++ others.flatten ∧ naturalRuns less others.flatten = others := by
  induction rest generalizing x with
  | nil => exact ⟨[], [], rfl, rfl, rfl⟩
  | cons y rest ih =>
    obtain ⟨run, others, found, split, again⟩ := ih y
    rw [naturalRuns, found]
    dsimp only
    split
    · refine ⟨[], (y :: run) :: others, rfl, ?_, ?_⟩
      · rw [List.nil_append, List.flatten_cons, List.cons_append, ← split]
      · rw [List.flatten_cons, List.cons_append, ← split, found]
    · exact ⟨y :: run, others, rfl, by rw [List.cons_append, ← split], again⟩

theorem naturalRuns_flatten (less : α → α → Bool) (list : List α) : (naturalRuns less list).flatten = list := by
  cases list with
  | nil => rfl
  | cons x rest =>
    obtain ⟨run, others, found, split, -⟩ := naturalRuns_cons less x rest
    rw [found, List.flatten_cons, List.cons_append, ← split]

theorem naturalRuns_rest (found : naturalRuns less list = run :: others) : naturalRuns less others.flatten = others := by
  cases list with
  | nil => cases found
  | cons x rest =>
    obtain ⟨run', others', found', -, again⟩ := naturalRuns_cons less x rest
    cases found.symm.trans found'
    exact again

theorem naturalRuns_ne_nil (member : run ∈ naturalRuns less list) : run ≠ [] := by
  rintro rfl
  induction h : (naturalRuns less list) generalizing list with
  | nil => rw [h] at member; cases member
  | cons first others ih =>
    rw [h] at member
    rcases List.mem_cons.mp member with rfl | member
    · cases list with
      | nil => cases h
      | cons x rest =>
        obtain ⟨_, _, found, -, -⟩ := naturalRuns_cons less x rest
        cases h.symm.trans found
    · have again := naturalRuns_rest h
      exact ih (again.symm ▸ member) again

end Runs

theorem mergeRuns_cons : mergeRuns less (x :: xs) (y :: ys) =
    if less y x then y :: mergeRuns less (x :: xs) ys else x :: mergeRuns less xs (y :: ys) := by
  rw [mergeRuns, List.cons_merge_cons]
  cases less y x <;> rfl

theorem notLess : (!less b a) = true ↔ less b a = false := by
  cases less b a <;> decide

theorem Precedence.irrefl (precedence : Precedence less) (a : α) : less a a = false := by
  cases held : less a a with
  | false => rfl
  | true => exact held.symm.trans (precedence.asymm a a held)

theorem alike_self (precedence : Precedence less) (a : α) : alike less a a = true := by
  rw [alike, precedence.irrefl]
  rfl

/-- The first element of an ascending list is not greater than the others. -/
theorem Ascending.first (precedence : Precedence less) (ascending : Ascending less (x :: xs)) (member : y ∈ x :: xs) : less y x = false := by
  rcases List.mem_cons.mp member with rfl | member
  · exact precedence.irrefl y
  · exact (List.pairwise_cons.mp ascending).1 y member

section Ascending
variable (precedence : Precedence less)
include precedence

theorem notLess_trans (first : less b a = false) (second : less c b = false) : less c a = false := by
  cases held : less c a with
  | false => rfl
  | true =>
    rcases precedence.cotrans c b a held with back | back
    · exact back.symm.trans second
    · exact back.symm.trans first

theorem notLess_order (a b c : α) (first : (!less b a) = true) (second : (!less c b) = true) : (!less c a) = true :=
  notLess.mpr (notLess_trans precedence (notLess.mp first) (notLess.mp second))

theorem notLess_total (a b : α) : ((!less b a) || !less a b) = true := by
  cases held : less b a with
  | false => rfl
  | true => rw [precedence.asymm b a held]; rfl

theorem Ascending.cons (ascending : Ascending less (y :: ys)) (first : less y x = false) : Ascending less (x :: y :: ys) := by
  refine List.pairwise_cons.mpr ⟨fun z member => ?_, ascending⟩
  rcases List.mem_cons.mp member with rfl | member
  · exact first
  · exact notLess_trans precedence first ((List.pairwise_cons.mp ascending).1 z member)

theorem naturalRuns_ascending (member : run ∈ naturalRuns less list) : Ascending less run := by
  induction list generalizing run with
  | nil => cases member
  | cons x rest ih =>
    cases rest with
    | nil =>
      cases List.mem_singleton.mp member
      exact List.pairwise_singleton _ x
    | cons y rest =>
      obtain ⟨run', others, found, -, -⟩ := naturalRuns_cons less y rest
      rw [naturalRuns, found] at member
      dsimp only at member
      split at member
      · rcases List.mem_cons.mp member with rfl | member
        · exact List.pairwise_singleton _ x
        · exact ih (found ▸ member)
      next first =>
        rcases List.mem_cons.mp member with rfl | member
        · exact .cons precedence (ih (found ▸ List.mem_cons_self)) (Bool.eq_false_iff.mpr first)
        · exact ih (found ▸ List.mem_cons_of_mem _ member)

theorem mergeRuns_ascending (first : Ascending less xs) (second : Ascending less ys) : Ascending less (mergeRuns less xs ys) := by
  have merged := List.pairwise_merge (notLess_order precedence) (notLess_total precedence) xs ys (first.imp notLess.mpr) (second.imp notLess.mpr)
  exact merged.imp notLess.mp

/-- A merge keeps the order of elements that are alike, those of the first list before those of the second. -/
theorem mergeRuns_classes (first : Ascending less xs) (a : α) :
    (mergeRuns less xs ys).filter (alike less a) = xs.filter (alike less a) ++ ys.filter (alike less a) := by
  induction xs generalizing ys with
  | nil => rw [mergeRuns, List.nil_merge, List.filter_nil, List.nil_append]
  | cons x xs ihLeft =>
    induction ys with
    | nil => rw [mergeRuns, List.merge_right, List.filter_nil, List.append_nil]
    | cons y ys ihRight =>
      have rest := (List.pairwise_cons.mp first).2
      rw [mergeRuns_cons]
      cases earlier : less y x with
      | false =>
        have later : (mergeRuns less xs (y :: ys)).filter (alike less a) = _ := ihLeft rest
        rw [if_neg Bool.false_ne_true]
        by_cases same : alike less a x = true
        · rw [List.filter_cons_of_pos same, List.filter_cons_of_pos same, later, List.cons_append]
        · rw [List.filter_cons_of_neg same, List.filter_cons_of_neg same, later]
      | true =>
        rw [if_pos rfl]
        by_cases same : alike less a y = true
        · -- an element of the first list that is alike to `y` would not be greater
          have none : (x :: xs).filter (alike less a) = [] := by
            rw [List.filter_eq_nil_iff]
            intro z member same'
            have notBefore : less z x = false := first.first precedence member
            have greater : less y z = true := (precedence.cotrans y z x earlier).resolve_right (by rw [notBefore]; exact Bool.false_ne_true)
            simp only [alike, Bool.and_eq_true, Bool.not_eq_true'] at same same'
            rcases precedence.cotrans y a z greater with held | held
            · exact Bool.false_ne_true (same.2.symm.trans held)
            · exact Bool.false_ne_true (same'.1.symm.trans held)
          rw [none, List.nil_append] at ihRight ⊢
          rw [List.filter_cons_of_pos same, List.filter_cons_of_pos same, ihRight]
        · rw [List.filter_cons_of_neg same, List.filter_cons_of_neg same, ihRight]

theorem mergePairs_ascending (each : ∀ run ∈ runs, Ascending less run) : ∀ run ∈ mergePairs less runs, Ascending less run := by
  induction runs using mergePairs.induct with
  | case1 first second others ih =>
    intro run member
    rw [mergePairs] at member
    rcases List.mem_cons.mp member with rfl | member
    · exact mergeRuns_ascending precedence (each first List.mem_cons_self) (each second (List.mem_cons_of_mem _ List.mem_cons_self))
    · exact ih (fun run member => each run (List.mem_cons_of_mem _ (List.mem_cons_of_mem _ member))) run member
  | case2 others short =>
    rw [mergePairs]
    · exact each
    · exact short

theorem mergePairs_classes (each : ∀ run ∈ runs, Ascending less run) (a : α) :
    (mergePairs less runs).flatten.filter (alike less a) = runs.flatten.filter (alike less a) := by
  induction runs using mergePairs.induct with
  | case1 first second others ih =>
    have rest := ih fun run member => each run (List.mem_cons_of_mem _ (List.mem_cons_of_mem _ member))
    rw [mergePairs, List.flatten_cons, List.filter_append, rest, mergeRuns_classes precedence (each first List.mem_cons_self),
      List.flatten_cons, List.flatten_cons, List.filter_append, List.filter_append, List.append_assoc]
  | case2 others short =>
    rw [mergePairs]
    exact short

end Ascending

section Counting

theorem mergePairs_length (less : α → α → Bool) (runs : List (List α)) : (mergePairs less runs).length = (runs.length + 1) / 2 := by
  induction runs using mergePairs.induct with
  | case1 first second others ih =>
    rw [mergePairs, List.length_cons, ih, List.length_cons, List.length_cons]
    omega
  | case2 others short =>
    rw [mergePairs]
    · rcases others with _ | ⟨first, _ | ⟨second, others⟩⟩
      · simp
      · simp
      · exact absurd rfl (short first second others)
    · exact short

theorem mergePairs_elements (less : α → α → Bool) (runs : List (List α)) : (mergePairs less runs).flatten.length = runs.flatten.length := by
  induction runs using mergePairs.induct with
  | case1 first second others ih =>
    rw [mergePairs, List.flatten_cons, List.flatten_cons, List.flatten_cons, List.length_append, ih, mergeRuns, List.length_merge,
      List.length_append, List.length_append, Nat.add_assoc]
  | case2 others short =>
    rw [mergePairs]
    exact short

theorem naturalRuns_append_length (ascending : Ascending less xs) :
    (naturalRuns less (xs ++ ys)).length ≤ 1 + (naturalRuns less ys).length := by
  induction xs with
  | nil =>
    rw [List.nil_append]
    omega
  | cons x xs ih =>
    have bound := ih (List.pairwise_cons.mp ascending).2
    cases xs with
    | nil =>
      cases ys with
      | nil => exact Nat.le_refl 1
      | cons y ys =>
        obtain ⟨run, others, found, -, -⟩ := naturalRuns_cons less y ys
        rw [List.cons_append, List.nil_append, naturalRuns, found]
        dsimp only
        split <;> simp only [List.length_cons] <;> omega
    | cons y xs =>
      have order : less y x = false := (List.pairwise_cons.mp ascending).1 y List.mem_cons_self
      obtain ⟨run, others, found, -, -⟩ := naturalRuns_cons less y (xs ++ ys)
      rw [List.cons_append] at bound
      rw [List.cons_append, List.cons_append, naturalRuns]
      rw [found] at bound ⊢
      dsimp only
      rw [order, if_neg Bool.false_ne_true]
      exact bound

theorem naturalRuns_flatten_length (each : ∀ run ∈ runs, Ascending less run) : (naturalRuns less runs.flatten).length ≤ runs.length := by
  induction runs with
  | nil => exact Nat.le_refl 0
  | cons run others ih =>
    have rest := ih fun run member => each run (List.mem_cons_of_mem _ member)
    have bound : (naturalRuns less (run ++ others.flatten)).length ≤ _ := naturalRuns_append_length (each run List.mem_cons_self)
    rw [List.flatten_cons, List.length_cons]
    omega

theorem naturalRuns_length (less : α → α → Bool) (list : List α) : (naturalRuns less list).length ≤ list.length := by
  induction list with
  | nil => exact Nat.le_refl 0
  | cons x rest ih =>
    have bound : (naturalRuns less ([x] ++ rest)).length ≤ _ := naturalRuns_append_length (List.pairwise_singleton _ x)
    rw [List.singleton_append] at bound
    rw [List.length_cons]
    omega

end Counting

section Stable

/-- Two ascending lists with the same elements of each kind, in the same order, are the same. -/
theorem Ascending.unique (precedence : Precedence less) (first : Ascending less xs) (second : Ascending less ys)
    (classes : ∀ a, xs.filter (alike less a) = ys.filter (alike less a)) : xs = ys := by
  induction xs generalizing ys with
  | nil =>
    cases ys with
    | nil => rfl
    | cons y ys =>
      have none := classes y
      rw [List.filter_nil, List.filter_cons_of_pos (alike_self precedence y)] at none
      cases none
  | cons x xs ih =>
    cases ys with
    | nil =>
      have none := classes x
      rw [List.filter_nil, List.filter_cons_of_pos (alike_self precedence x)] at none
      cases none
    | cons y ys =>
      have mine : x ∈ (y :: ys).filter (alike less x) := by
        rw [← classes x, List.filter_cons_of_pos (alike_self precedence x)]
        exact List.mem_cons_self
      have yours : y ∈ (x :: xs).filter (alike less y) := by
        rw [classes y, List.filter_cons_of_pos (alike_self precedence y)]
        exact List.mem_cons_self
      have same : alike less x y = true := by
        rw [alike, first.first precedence (List.mem_of_mem_filter yours), second.first precedence (List.mem_of_mem_filter mine)]
        rfl
      have heads := classes x
      rw [List.filter_cons_of_pos (alike_self precedence x), List.filter_cons_of_pos same] at heads
      obtain ⟨rfl, -⟩ := List.cons.inj heads
      congr 1
      refine ih (List.pairwise_cons.mp first).2 (List.pairwise_cons.mp second).2 fun a => ?_
      have whole := classes a
      by_cases kind : alike less a x = true
      · rw [List.filter_cons_of_pos kind, List.filter_cons_of_pos kind] at whole
        exact (List.cons.inj whole).2
      · rwa [List.filter_cons_of_neg kind, List.filter_cons_of_neg kind] at whole

theorem mergeSort_stable (precedence : Precedence less) (list : List α) :
    StablySorted less list (list.mergeSort fun a b => !less b a) := by
  have order := notLess_order precedence
  have total := notLess_total precedence
  refine ⟨(List.pairwise_mergeSort order total list).imp notLess.mp, fun a => ?_⟩
  -- elements that are alike are in order as they are
  have ascending : (list.filter (alike less a)).Pairwise fun b c => (!less c b) = true := by
    refine List.pairwise_of_forall_mem_list fun b first c second => notLess.mpr ?_
    have kind := List.of_mem_filter first
    have kind' := List.of_mem_filter second
    simp only [alike, Bool.and_eq_true, Bool.not_eq_true'] at kind kind'
    exact notLess_trans precedence kind.1 kind'.2
  have kept := (List.sublist_mergeSort order total ascending List.filter_sublist).filter (alike less a)
  rw [List.filter_filter, show (fun b => alike less a b && alike less a b) = alike less a by simp only [Bool.and_self]] at kept
  exact (kept.eq_of_length ((List.mergeSort_perm list _).filter _).length_eq.symm).symm

theorem StablySorted.eq_mergeSort (precedence : Precedence less) (sorted : StablySorted less list xs) :
    xs = list.mergeSort fun a b => !less b a := by
  obtain ⟨ascending, classes⟩ := mergeSort_stable precedence list
  exact sorted.ascending.unique precedence ascending fun a => (sorted.classes a).trans (classes a).symm

end Stable

end Comp310.Lib
