import Mathlib.Data.List.Nodup
import Mathlib.Data.List.FinRange
import Comp310.Fs.Reserve

/-! The blocks that a file lacks when it grows from one size to another, counted
against those of its first size: together they are the blocks of the second. -/

namespace Comp310.Fs
open Comp310.Lib

/-- The blocks of a whole tree over so many sectors, none for no sectors. -/
private def need (level numSectors : Nat) : Nat :=
  if numSectors = 0 then 0 else (missingTree level (fun _ => 0) numSectors).length

private def needEntries (level unit : Nat) : Nat → Nat → Nat
  | 0, _ => 0
  | left + 1, numSectors => need level (min numSectors unit) + needEntries level unit left (numSectors - min numSectors unit)

variable {level unit left numSectors m : Nat}

private theorem need_pos (positive : 0 < numSectors) : need level numSectors = (missingTree level (fun _ => 0) numSectors).length :=
  if_neg (by omega)

private theorem needEntries_zero : needEntries level unit left 0 = 0 := by
  induction left with
  | zero => rfl
  | succ left ih => rw [needEntries, Nat.zero_min, Nat.sub_self, ih, need, if_pos rfl]

private theorem needEntries_rounds (positive : 0 < unit) (enough : divRoundUp numSectors unit ≤ left) :
    needEntries level unit left numSectors = needEntries level unit (divRoundUp numSectors unit) numSectors := by
  induction left generalizing numSectors with
  | zero => rw [Nat.le_zero.mp enough]
  | succ left ih =>
    cases rounds : divRoundUp numSectors unit with
    | zero =>
      have empty : numSectors = 0 := by
        unfold divRoundUp at rounds
        rw [Nat.div_eq_zero_iff] at rounds
        omega
      rw [empty, needEntries_zero, needEntries_zero]
    | succ some_left =>
      obtain ⟨_, rest⟩ := rounds_next positive rounds
      rw [needEntries, needEntries, ih (by omega), rest]

private theorem missingEntries_need {n : Nat} (positive : 0 < unit) (i : Nat) (rounds : divRoundUp numSectors unit = left)
    (inside : i + left ≤ n) :
    (missingEntries (fun _ : Fin n => missingTree level fun _ => 0) unit i left numSectors).length =
      needEntries level unit left numSectors := by
  induction left generalizing i numSectors with
  | zero => rfl
  | succ left ih =>
    obtain ⟨some_left, rest⟩ := rounds_next positive rounds
    rw [missingEntries, dif_pos (by omega), List.length_append, ih (i + 1) rest (by omega), needEntries, need_pos (by omega)]

private theorem missingEntries_add {n : Nat} {sub : Fin n → Nat → List Bool} (positive : 0 < unit) (i : Nat)
    (rounds : divRoundUp numSectors unit = left) (inside : i + left ≤ n)
    (each : ∀ (j : Fin n) (k : Nat), i ≤ j.val → 0 < k → k ≤ unit →
      (sub j k).length + need level (min (m - (j.val - i) * unit) k) = need level k) :
    (missingEntries sub unit i left numSectors).length + needEntries level unit left (min m numSectors) =
      needEntries level unit left numSectors := by
  induction left generalizing i numSectors m with
  | zero => rfl
  | succ left ih =>
    obtain ⟨some_left, rest⟩ := rounds_next positive rounds
    have here := each ⟨i, by omega⟩ (min numSectors unit) (Nat.le_refl i) (by omega) (Nat.min_le_right _ _)
    have later := ih (m := m - unit) (i + 1) rest (by omega) fun j k after some small => by
      have step := each j k (by omega) some small
      obtain ⟨d, further⟩ : ∃ d, j.val = i + 1 + d := ⟨j.val - (i + 1), by omega⟩
      rw [further, show i + 1 + d - i = d + 1 by omega, Nat.succ_mul] at step
      rw [further, show i + 1 + d - (i + 1) = d by omega, show m - unit - d * unit = m - (d * unit + unit) by omega]
      exact step
    rw [Nat.sub_self, Nat.zero_mul, Nat.sub_zero] at here
    rw [missingEntries, dif_pos (by omega), List.length_append, needEntries, needEntries,
      show min (min m numSectors) unit = min m (min numSectors unit) by omega,
      show min m numSectors - min m (min numSectors unit) = min (m - unit) (numSectors - min numSectors unit) by omega]
    omega

private theorem need_block (positive : 0 < numSectors) (few : divRoundUp numSectors (capacity level) ≤ 128) :
    need (level + 1) numSectors =
      1 + needEntries level (capacity level) (divRoundUp numSectors (capacity level)) numSectors := by
  have unit : 0 < capacity level := Nat.pow_pos (by decide)
  rw [need_pos positive, missingTree, if_pos rfl, List.length_append, List.length_singleton,
    missingEntries_need unit 0 rfl (by omega)]

/-- What the first `m` sectors of a tree have, and what the others lack, is the whole tree. -/
private theorem missingTree_add {map : TreePos level → Sector} (absent : ∀ p, map p = 0 ↔ m ≤ p.first) (positive : 0 < numSectors)
    (inside : numSectors ≤ capacity level) :
    (missingTree level map numSectors).length + need level (min m numSectors) = need level numSectors := by
  have start : map .here = 0 ↔ m = 0 := (absent .here).trans (by rw [TreePos.first]; omega)
  induction level generalizing m numSectors with
  | zero =>
    rw [missingTree, need_pos positive]
    rcases Nat.eq_zero_or_pos m with none | some
    · rw [if_pos (start.mpr none), none, Nat.zero_min]
      rfl
    · rw [if_neg (mt start.mp (by omega)), need_pos (by omega)]
      rfl
  | succ level ih =>
    have unit : 0 < capacity level := Nat.pow_pos (by decide)
    rcases Nat.eq_zero_or_pos m with rfl | some
    · have empty : map = fun _ => 0 := funext fun p => (absent p).mpr (Nat.zero_le _)
      rw [empty, Nat.zero_min, need_pos positive]
      rfl
    · have few := rounds_le inside
      have entries : (missingEntries (fun index => missingTree level fun below => map (.child index below)) (capacity level) 0
          (divRoundUp numSectors (capacity level)) numSectors).length + _ = _ :=
        missingEntries_add (m := m) unit 0 rfl (by omega) fun j k _ positive small => by
          refine ih (fun p => (absent (.child j p)).trans ?_) positive small ((absent (.child j .here)).trans ?_)
          · rw [TreePos.first, Nat.sub_zero]
            omega
          · rw [TreePos.first, TreePos.first, Nat.sub_zero]
            omega
      have fewer : needEntries level (capacity level) (divRoundUp numSectors (capacity level)) (min m numSectors) =
          needEntries level (capacity level) (divRoundUp (min m numSectors) (capacity level)) (min m numSectors) :=
        needEntries_rounds unit (Nat.div_le_div_right (by omega))
      have part := need_block (show 0 < min m numSectors by omega) (rounds_le (by omega) : divRoundUp _ (capacity level) ≤ 128)
      rw [missingTree, if_neg (mt start.mp (by omega)), List.nil_append, need_block positive few, part]
      omega

private theorem sectorsNeeded_parts : sectorsNeeded m =
    needEntries 0 1 (min m 123) (min m 123) + (need 1 (min (m - 123) 128) + need 2 (min (m - 251) 16384)) := by
  have tree (level first most : Nat) (some : 0 < most) :
      (if first < m then missingTree level (fun _ => 0) (min (m - first) most) else []).length = need level (min (m - first) most) := by
    by_cases more : first < m
    · rw [if_pos more, need_pos (by omega)]
    · rw [if_neg more, show min (m - first) most = 0 by omega]
      rfl
  rw [sectorsNeeded, missingBlocks, List.length_append, List.length_append, tree 1 123 128 (by decide), tree 2 251 16384 (by decide),
    missingEntries_need (by decide) 0 (by simp [divRoundUp]) (by omega)]

/-- A map with room for the first `m` sectors lacks what more sectors need beyond them. -/
theorem missingBlocks_add {map : InodePos → Sector} (absent : ∀ p, map p = 0 ↔ m ≤ p.first) (grows : m ≤ numSectors)
    (limit : numSectors ≤ 16635) : (missingBlocks map numSectors).length + sectorsNeeded m = sectorsNeeded numSectors := by
  have direct : (missingEntries (fun index => missingTree 0 fun _ => map (.direct index)) 1 0 (min numSectors 123)
      (min numSectors 123)).length + _ = _ :=
    missingEntries_add (m := m) (by decide) 0 (by simp [divRoundUp]) (by omega) fun j k _ positive small => by
      refine missingTree_add (fun p => (absent (.direct j)).trans ?_) positive (by rw [capacity]; omega)
      cases p
      rw [InodePos.first, TreePos.first]
      omega
  have one (k : Nat) : divRoundUp k 1 = k := by simp [divRoundUp]
  have rounds : needEntries 0 1 (min numSectors 123) (min m 123) = needEntries 0 1 (min m 123) (min m 123) := by
    have enough : divRoundUp (min m 123) 1 ≤ min numSectors 123 := by rw [one]; omega
    rw [needEntries_rounds Nat.one_pos enough, one]
  have tree (level first most : Nat) (sub : TreePos level → Sector) (below : ∀ p, sub p = 0 ↔ m ≤ first + p.first)
      (positive : 0 < most) (whole : most = capacity level) :
      (if first < numSectors then missingTree level sub (min (numSectors - first) most) else []).length +
        need level (min (m - first) most) = need level (min (numSectors - first) most) := by
    by_cases more : first < numSectors
    · have added := missingTree_add (m := m - first) (fun p => (below p).trans (by omega))
        (show 0 < min (numSectors - first) most by omega) (by omega)
      rw [if_pos more, show min (m - first) most = min (m - first) (min (numSectors - first) most) by omega]
      exact added
    · rw [if_neg more, show min (m - first) most = 0 by omega, show min (numSectors - first) most = 0 by omega]
      exact Nat.zero_add _
  have single := tree 1 123 128 (fun p => map (.single p)) (fun p => absent (.single p)) (by decide) rfl
  have double := tree 2 251 16384 (fun p => map (.double p)) (fun p => absent (.double p)) (by decide) rfl
  rw [show min m (min numSectors 123) = min m 123 by omega] at direct
  rw [missingBlocks, List.length_append, List.length_append, sectorsNeeded_parts, sectorsNeeded_parts]
  omega

theorem sectorsNeeded_mono (grows : m ≤ numSectors) (limit : numSectors ≤ 16635) : sectorsNeeded m ≤ sectorsNeeded numSectors := by
  have some_map (p : InodePos) : (if m ≤ p.first then (0 : Sector) else 1) = 0 ↔ m ≤ p.first := by
    split
    next past => exact ⟨fun _ => past, fun _ => rfl⟩
    next before => exact ⟨nofun, fun past => absurd past before⟩
  have added := missingBlocks_add some_map grows limit
  omega

section Places

def TreePos.all : (level : Nat) → List (TreePos level)
  | 0 => [.here]
  | level + 1 => .here :: (List.finRange 128).flatMap fun index => (TreePos.all level).map (.child index)

def InodePos.all : List InodePos :=
  (List.finRange 123).map .direct ++ ((TreePos.all 1).map .single ++ (TreePos.all 2).map .double)

theorem TreePos.mem_all (p : TreePos level) : p ∈ TreePos.all level := by
  induction p with
  | @here level =>
    cases level with
    | zero => exact List.mem_singleton_self _
    | succ level => exact List.mem_cons_self
  | child index below ih =>
    exact List.mem_cons_of_mem _ (List.mem_flatMap.mpr ⟨index, List.mem_finRange index, List.mem_map_of_mem ih⟩)

theorem InodePos.mem_all (p : InodePos) : p ∈ InodePos.all := by
  cases p with
  | direct index => exact List.mem_append_left _ (List.mem_map_of_mem (List.mem_finRange index))
  | single below => exact List.mem_append_right _ (List.mem_append_left _ (List.mem_map_of_mem below.mem_all))
  | double below => exact List.mem_append_right _ (List.mem_append_right _ (List.mem_map_of_mem below.mem_all))

theorem TreePos.nodup_all (level : Nat) : (TreePos.all level).Nodup := by
  induction level with
  | zero => exact List.nodup_singleton _
  | succ level ih =>
    refine List.nodup_cons.mpr ⟨fun member => ?_, List.nodup_flatMap.mpr ⟨fun index _ => ?_, ?_⟩⟩
    · obtain ⟨index, _, member⟩ := List.mem_flatMap.mp member
      obtain ⟨below, _, same⟩ := List.mem_map.mp member
      cases same
    · exact ih.map fun below below' same => (TreePos.child.inj same).2
    · refine (List.nodup_finRange 128).imp fun {index index'} differs position member member' => ?_
      obtain ⟨below, _, rfl⟩ := List.mem_map.mp member
      obtain ⟨below', _, same⟩ := List.mem_map.mp member'
      exact differs (TreePos.child.inj same).1.symm

theorem InodePos.nodup_all : InodePos.all.Nodup := by
  have direct : ((List.finRange 123).map InodePos.direct).Nodup := (List.nodup_finRange 123).map fun _ _ => InodePos.direct.inj
  have single : ((TreePos.all 1).map InodePos.single).Nodup := (TreePos.nodup_all 1).map fun _ _ => InodePos.single.inj
  have double : ((TreePos.all 2).map InodePos.double).Nodup := (TreePos.nodup_all 2).map fun _ _ => InodePos.double.inj
  refine List.nodup_append.mpr ⟨direct, List.nodup_append.mpr ⟨single, double, fun p member q member' same => ?_⟩, fun p member q member' same => ?_⟩
  · obtain ⟨_, _, rfl⟩ := List.mem_map.mp member
    obtain ⟨_, _, rfl⟩ := List.mem_map.mp member'
    cases same
  · obtain ⟨_, _, rfl⟩ := List.mem_map.mp member
    rcases List.mem_append.mp member' with member' | member'
    all_goals
      obtain ⟨_, _, rfl⟩ := List.mem_map.mp member'
      cases same

/-- The positions that a file of so many sectors has. -/
def needed (numSectors : Nat) : List InodePos := InodePos.all.filter fun p => p.first < numSectors

theorem mem_needed {p : InodePos} : p ∈ needed numSectors ↔ p.first < numSectors := by
  rw [needed, List.mem_filter, decide_eq_true_iff]
  exact and_iff_right p.mem_all

theorem nodup_needed : (needed numSectors).Nodup := InodePos.nodup_all.filter _

private theorem finRange_val (n : Nat) : (List.finRange n).map Fin.val = List.range' 0 n :=
  List.ext_getElem (by simp) fun j _ _ => by simp

private theorem count_children (each : ∀ m, ((TreePos.all level).countP fun p => p.first < m) = need level (min m (capacity level)))
    (i m : Nat) {rest : List (Fin 128)} (consecutive : rest.map Fin.val = List.range' i rest.length) :
    ((rest.flatMap fun index => (TreePos.all level).map (TreePos.child index)).countP fun p => p.first < m) =
      needEntries level (capacity level) rest.length (m - i * capacity level) := by
  induction rest generalizing i with
  | nil => rfl
  | cons index rest ih =>
    rw [List.map_cons, List.length_cons, List.range'_succ, List.cons.injEq] at consecutive
    obtain ⟨here, later⟩ := consecutive
    have below : (((TreePos.all level).map (TreePos.child index)).countP fun p => p.first < m) =
        (TreePos.all level).countP fun p => p.first < m - i * capacity level := by
      rw [List.countP_map]
      refine List.countP_congr fun p _ => ?_
      simp only [Function.comp_apply, decide_eq_true_iff, TreePos.first, here]
      omega
    rw [List.flatMap_cons, List.countP_append, below, each, ih (i + 1) later, List.length_cons, needEntries]
    have left : m - (i + 1) * capacity level = m - i * capacity level - min (m - i * capacity level) (capacity level) := by
      rw [Nat.succ_mul]
      omega
    rw [left]

private theorem count_tree (level m : Nat) : ((TreePos.all level).countP fun p => p.first < m) = need level (min m (capacity level)) := by
  induction level generalizing m with
  | zero =>
    rcases Nat.eq_zero_or_pos m with rfl | positive
    · rfl
    · rw [show min m (capacity 0) = 1 from Nat.min_eq_right positive, TreePos.all, List.countP_singleton, TreePos.first, decide_eq_true positive]
      rfl
  | succ level ih =>
    have clipped : ((TreePos.all (level + 1)).countP fun p => p.first < m) =
        (TreePos.all (level + 1)).countP fun p => p.first < min m (capacity (level + 1)) := by
      refine List.countP_congr fun p _ => ?_
      have inside := first_lt p
      rw [decide_eq_true_iff, decide_eq_true_iff]
      omega
    rw [clipped]
    have bound : min m (capacity (level + 1)) ≤ capacity (level + 1) := Nat.min_le_right ..
    generalize min m (capacity (level + 1)) = m' at bound
    have children := count_children ih 0 m' (finRange_val 128)
    rw [List.length_finRange, Nat.zero_mul, Nat.sub_zero] at children
    rw [TreePos.all, List.countP_cons, children, TreePos.first]
    rcases Nat.eq_zero_or_pos m' with rfl | positive
    · rw [needEntries_zero]
      rfl
    · have few := rounds_le bound
      have unit : 0 < capacity level := Nat.pow_pos (by decide)
      rw [needEntries_rounds unit few, need_block positive few, if_pos (decide_eq_true positive), Nat.add_comm]

private theorem needEntries_one (left n : Nat) : needEntries 0 1 left n = min left n := by
  induction left generalizing n with
  | zero => rw [needEntries, Nat.zero_min]
  | succ left ih =>
    rw [needEntries, ih]
    rcases Nat.eq_zero_or_pos n with rfl | positive
    · rw [Nat.zero_min, Nat.min_zero, Nat.min_zero]
      rfl
    · rw [Nat.min_eq_right positive, show need 0 1 = 1 from rfl]
      omega

/-- They are as many as the blocks that a file of so many sectors needs. -/
theorem needed_length (m : Nat) : (needed m).length = sectorsNeeded m := by
  have direct : (((List.finRange 123).map InodePos.direct).countP fun p => p.first < m) = min 123 (min m 123) := by
    have numbers : (((List.finRange 123).map InodePos.direct).countP fun p => p.first < m) = (List.range 123).countP fun i => i < m := by
      rw [List.range_eq_range', ← finRange_val 123, List.countP_map, List.countP_map]
      rfl
    have below (n : Nat) : ((List.range n).countP fun i => i < m) = min n m := by
      induction n with
      | zero => rw [Nat.zero_min, List.range_zero, List.countP_nil]
      | succ n ih =>
        rw [List.range_succ, List.countP_append, ih, List.countP_singleton]
        by_cases inside : n < m
        · rw [if_pos (decide_eq_true inside)]
          omega
        · rw [if_neg (by rwa [decide_eq_true_iff])]
          omega
    rw [numbers, below]
    omega
  have tree (level first : Nat) (place : TreePos level → InodePos) (at_ : ∀ p, (place p).first = first + p.first) :
      (((TreePos.all level).map place).countP fun p => p.first < m) = need level (min (m - first) (capacity level)) := by
    rw [← count_tree, List.countP_map]
    refine List.countP_congr fun p _ => ?_
    simp only [Function.comp_apply, decide_eq_true_iff, at_]
    omega
  rw [needed, ← List.countP_eq_length_filter, InodePos.all, List.countP_append, List.countP_append, direct,
    tree 1 123 .single fun _ => rfl, tree 2 251 .double fun _ => rfl, sectorsNeeded_parts, needEntries_one]
  simp only [capacity, Nat.reducePow]
  omega

end Places

end Comp310.Fs
