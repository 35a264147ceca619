import Mathlib.Data.List.Nodup
import Mathlib.Data.Finset.Card

/-! First fit for runs of cells of one size. Where the cells in use are whole blocks, first fit gives out a whole block,
though it looks at every cell for a start, and it fails only when all blocks are in use. -/

namespace Comp310.Lib

/-- So many cells from here on are within the bound and free. -/
def Room (size bound : Nat) (used : Nat → Prop) (start : Nat) : Prop :=
  start + size ≤ bound ∧ ∀ k < size, ¬ used (start + k)

/-- The cells in use below the bound are those of the blocks that start here. -/
structure Tiled (size bound : Nat) (used : Nat → Prop) (starts : List Nat) : Prop where
  aligned : ∀ start ∈ starts, start % size = 0
  inside : ∀ start ∈ starts, start + size ≤ bound
  once : starts.Nodup
  cells : ∀ cell < bound, used cell ↔ ∃ start ∈ starts, start ≤ cell ∧ cell < start + size

variable {size bound start cell : Nat} {used used' : Nat → Prop} {starts front rest : List Nat}

theorem block_of (aligned : start % size = 0) (low : start ≤ cell) (high : cell < start + size) : cell / size * size = start := by
  have split := Nat.div_add_mod start size
  rw [aligned, Nat.add_zero, Nat.mul_comm] at split
  have same : cell / size = start / size := by
    apply Nat.div_eq_of_lt_le
    · omega
    · rw [Nat.succ_mul]
      omega
  rw [same, split]

theorem block_low (cell size : Nat) : cell / size * size ≤ cell := Nat.div_mul_le_self cell size

theorem block_high (positive : 0 < size) (cell : Nat) : cell < cell / size * size + size := by
  have split := Nat.div_add_mod cell size
  have rest := Nat.mod_lt cell positive
  rw [Nat.mul_comm] at split
  omega

namespace Tiled

theorem used_iff (tiled : Tiled size bound used starts) (positive : 0 < size) (inside : cell < bound) :
    used cell ↔ cell / size * size ∈ starts := by
  rw [tiled.cells cell inside]
  constructor
  · rintro ⟨start, member, low, high⟩
    rw [block_of (tiled.aligned start member) low high]
    exact member
  · exact fun member => ⟨_, member, block_low cell size, block_high positive cell⟩

/-- A block is free exactly when it is none of those in use. -/
theorem room_iff (tiled : Tiled size bound used starts) (positive : 0 < size) (aligned : start % size = 0)
    (inside : start + size ≤ bound) : Room size bound used start ↔ start ∉ starts := by
  constructor
  · rintro ⟨_, free⟩ member
    exact free 0 positive ((tiled.cells _ (by omega)).mpr ⟨start, member, by omega, by omega⟩)
  · refine fun absent => ⟨inside, fun k small taken => absent ?_⟩
    have member := (tiled.used_iff positive (by omega)).mp taken
    rwa [block_of aligned (by omega) (by omega)] at member

theorem room_block (tiled : Tiled size bound used starts) (positive : 0 < size) (room : Room size bound used start) :
    Room size bound used (start / size * size) := by
  have low := block_low start size
  obtain ⟨inside, free⟩ := room
  refine (tiled.room_iff positive (Nat.mul_mod_left _ _) (by omega)).mpr fun member => ?_
  exact free 0 positive ((tiled.used_iff positive (by omega)).mpr member)

theorem least_aligned (tiled : Tiled size bound used starts) (positive : 0 < size) (room : Room size bound used start)
    (least : ∀ earlier < start, ¬ Room size bound used earlier) : start % size = 0 := by
  have low := block_low start size
  have block := tiled.room_block positive room
  have same : start / size * size = start := by
    by_contra differs
    exact least _ (by omega) block
  rw [← same]
  exact Nat.mul_mod_left _ _

private theorem blocks_subset (tiled : Tiled size bound used starts) (positive : 0 < size) :
    starts.toFinset ⊆ (Finset.range (bound / size)).image (· * size) := by
  intro start member
  rw [List.mem_toFinset] at member
  have split := Nat.div_add_mod start size
  rw [tiled.aligned start member, Nat.add_zero, Nat.mul_comm] at split
  refine Finset.mem_image.mpr ⟨start / size, Finset.mem_range.mpr ?_, split⟩
  apply (Nat.lt_div_iff_mul_lt positive).mpr
  have inside := tiled.inside start member
  omega

private theorem blocks_card (positive : 0 < size) : ((Finset.range (bound / size)).image (· * size)).card = bound / size := by
  rw [Finset.card_image_of_injective _ fun first second same => Nat.eq_of_mul_eq_mul_right positive same, Finset.card_range]

theorem few (tiled : Tiled size bound used starts) (positive : 0 < size) : starts.length ≤ bound / size := by
  rw [← List.toFinset_card_of_nodup tiled.once, ← blocks_card positive]
  exact Finset.card_le_card (tiled.blocks_subset positive)

theorem full_iff (tiled : Tiled size bound used starts) (positive : 0 < size) :
    (∀ start, ¬ Room size bound used start) ↔ starts.length = bound / size := by
  have subset := tiled.blocks_subset positive
  have count : starts.toFinset.card = starts.length := List.toFinset_card_of_nodup tiled.once
  constructor
  · intro full
    have all : (Finset.range (bound / size)).image (· * size) ⊆ starts.toFinset := by
      intro start member
      obtain ⟨block, small, rfl⟩ := Finset.mem_image.mp member
      have inside : block * size + size ≤ bound := by
        have fits := Nat.mul_le_of_le_div size (block + 1) bound (Finset.mem_range.mp small)
        rwa [Nat.succ_mul] at fits
      by_contra absent
      rw [List.mem_toFinset] at absent
      exact full _ ((tiled.room_iff positive (Nat.mul_mod_left _ _) inside).mpr absent)
    rw [← count, subset.antisymm all, blocks_card positive]
  · intro many start room
    have same := Finset.eq_of_subset_of_card_le subset (by rw [blocks_card positive, count, many])
    have block := tiled.room_block positive room
    have inside := block.1
    have taken : start / size * size ∈ starts := by
      rw [← List.mem_toFinset, same]
      refine Finset.mem_image.mpr ⟨start / size, Finset.mem_range.mpr ?_, rfl⟩
      apply (Nat.le_div_iff_mul_le positive).mpr
      rwa [Nat.succ_mul]
    exact (tiled.room_iff positive (Nat.mul_mod_left _ _) inside).mp block taken

theorem nil (free : ∀ cell < bound, ¬ used cell) : Tiled size bound used [] :=
  ⟨fun _ => nofun, fun _ => nofun, List.nodup_nil, fun cell inside => iff_of_false (free cell inside) nofun⟩

theorem put (tiled : Tiled size bound used starts) (positive : 0 < size) (aligned : start % size = 0) (room : Room size bound used start)
    (cells : ∀ cell < bound, used' cell ↔ used cell ∨ start ≤ cell ∧ cell < start + size) :
    Tiled size bound used' (start :: starts) := by
  refine ⟨?_, ?_, List.nodup_cons.mpr ⟨(tiled.room_iff positive aligned room.1).mp room, tiled.once⟩, fun cell inside => ?_⟩
  · exact List.forall_mem_cons.mpr ⟨aligned, tiled.aligned⟩
  · exact List.forall_mem_cons.mpr ⟨room.1, tiled.inside⟩
  · rw [cells cell inside, tiled.cells cell inside, List.exists_mem_cons_iff]
    exact or_comm

theorem drop (tiled : Tiled size bound used (front ++ start :: rest))
    (cells : ∀ cell < bound, used' cell ↔ used cell ∧ ¬ (start ≤ cell ∧ cell < start + size)) :
    Tiled size bound used' (front ++ rest) := by
  have fewer : List.Sublist (front ++ rest) (front ++ start :: rest) := (List.sublist_cons_self start rest).append_left front
  have gone : start ∉ front ++ rest := (List.nodup_cons.mp (List.nodup_middle.mp tiled.once)).1
  have aligned := tiled.aligned start List.mem_append_cons_self
  refine ⟨fun other member => tiled.aligned other (fewer.subset member), fun other member => tiled.inside other (fewer.subset member),
    tiled.once.sublist fewer, fun cell inside => ?_⟩
  rw [cells cell inside, tiled.cells cell inside]
  constructor
  · rintro ⟨⟨other, member, place⟩, outside⟩
    refine ⟨other, ?_, place⟩
    rcases List.mem_append.mp member with before | after
    · exact List.mem_append_left _ before
    · rcases List.mem_cons.mp after with rfl | after
      · exact absurd place outside
      · exact List.mem_append_right _ after
  · rintro ⟨other, member, low, high⟩
    refine ⟨⟨other, fewer.subset member, low, high⟩, fun place => gone ?_⟩
    rw [← block_of aligned place.1 place.2, block_of (tiled.aligned other (fewer.subset member)) low high]
    exact member

end Tiled

end Comp310.Lib
