import Comp310.Fs.Needed
import Comp310.Fs.Runs

/-! `inode_reserve` takes what the file lacks and no more: it succeeds exactly when
the format and the free sectors have room, and the new blocks are zeros. -/

namespace Comp310.Proofs.ReserveExact
open Comp310.Fs Comp310.Lib

/-- The data sectors and the index blocks of a file of so many sectors. -/
def need (numSectors : Nat) : Nat :=
  numSectors + (if 123 < numSectors then 1 else 0) + (if 251 < numSectors then 1 + divRoundUp (numSectors - 251) 128 else 0)

/-- The inode has the blocks of its first sectors, as many as these, and no others. -/
def HoldsExactly (fs : FileSystem) (data : InodeDisk) (numSectors : Nat) : Prop :=
  ∀ p : InodePos, blockAt fs.disk.view data p = 0 ↔ numSectors ≤ p.first

/-- The inode has grown from `m` to `n` sectors. -/
structure Extended (fs fs' : FileSystem) (data data' : InodeDisk) (m n : Nat) : Prop where
  count : freeCount fs' + (need n - need m) = freeCount fs
  kept : ∀ i < m, ∃ sector, indexToSector data i fs = some (sector, fs) ∧ indexToSector data' i fs' = some (sector, fs')
  added : ∃ sectors : Nat → Sector,
    (∀ i, m ≤ i → i < n → indexToSector data' i fs' = some (sectors i, fs') ∧ ¬ Used fs (sectors i) ∧ Used fs' (sectors i) ∧
      fs'.disk.view (sectors i) = zeros ∧ ¬ IndexSector fs'.disk.view data' (sectors i)) ∧
    ∀ i j, m ≤ i → i < n → m ≤ j → j < n → sectors i = sectors j → i = j

variable {own keep : Sector → Prop} {fs fs' : FileSystem} {data data' : InodeDisk} {m n : Nat} {length : Int}

private theorem need_eq (small : n ≤ 16635) : sectorsNeeded n = need n := sectorsNeeded_eq small

private theorem index_found (service : Service own keep fs) (held : Held own keep fs (blockAt fs.disk.view data)) {i : Nat}
    (inside : i < 16635) (present : blockAt fs.disk.view data (.data i) ≠ 0) :
    indexToSector data i fs = some (blockAt fs.disk.view data (.data i), fs) :=
  indexToSector_eq inside (fun p _ there => service.bounded (held.placed.used p there)) present

private theorem extended (service : Service own keep fs) (held : Held own keep fs (blockAt fs.disk.view data))
    (holds : HoldsExactly fs data m) (grows : m ≤ n) (limit : n ≤ 16635)
    (reserved : Reserved own keep InodePos.isData (fun p => p.first < n) (missingBlocks (blockAt fs.disk.view data) n)
      fs fs' (blockAt fs.disk.view data) (blockAt fs'.disk.view data') true) : Extended fs fs' data data' m n := by
  have held' := reserved.held service held
  have total := missingBlocks_add holds grows limit
  rw [need_eq limit, need_eq (by omega)] at total
  have there (i : Nat) (inside : i < n) : blockAt fs'.disk.view data' (.data i) ≠ 0 :=
    reserved.complete rfl _ (by rw [data_first (by omega)]; exact inside)
  refine ⟨?_, fun i old => ?_, fun i => blockAt fs'.disk.view data' (.data i), fun i new inside => ?_, fun i j _ inside _ inside' same => ?_⟩
  · have enough := reserved.outcome.mp rfl
    rw [reserved.count]
    omega
  · have present : blockAt fs.disk.view data (.data i) ≠ 0 := by
      rw [ne_eq, holds, data_first (by omega)]
      omega
    refine ⟨_, index_found service held (by omega) present, ?_⟩
    rw [index_found reserved.service held' (by omega) (there i (by omega)), reserved.grows.keep _ present]
  · have absent : blockAt fs.disk.view data (.data i) = 0 := by
      rw [holds, data_first (by omega)]
      exact new
    obtain ⟨free, taken⟩ := reserved.grows.fresh _ absent (there i inside)
    refine ⟨index_found reserved.service held' (by omega) (there i inside), free, taken,
      reserved.blank _ (data_isData i) absent (there i inside), ?_⟩
    rintro ⟨p, index, _, same⟩
    have place := held'.placed.distinct _ _ (there i inside) same
    rw [← place, data_isData] at index
    cases index
  · exact data_injective (by omega) (by omega) (held'.placed.distinct _ _ (there i inside) same)

/-- `inode_reserve` for an inode that holds the blocks of `m` sectors, those of its length or of any other, in whatever
state the free map is. -/
theorem reserve_exact (service : Service own keep fs) (held : Held own keep fs (blockAt fs.disk.view data))
    (holds : HoldsExactly fs data m) (nonneg : 0 ≤ length) (target : bytesToSectors length = n) (grows : m ≤ n) :
    ∃ success data' fs', inodeReserve (freeMapAllocate 1) data length fs = some ((success, data'), fs') ∧
      (success = true ↔ n ≤ 123 + 128 + 128 * 128 ∧ need n - need m ≤ freeCount fs) ∧
      (success = true → Extended fs fs' data data' m n) := by
  obtain ⟨⟨success, data'⟩, fs', ran, enough, result, reserved, _⟩ := inodeReserve_wp service held nonneg target
  refine ⟨success, data', fs', ran, ?_, fun succeeded => ?_⟩
  · rw [show success = _ from result, Bool.and_eq_true, decide_eq_true_iff, reserved.outcome]
    constructor
    · rintro ⟨room, limit⟩
      have total := missingBlocks_add holds grows limit
      rw [need_eq limit, need_eq (by omega)] at total
      exact ⟨limit, by omega⟩
    · rintro ⟨limit, room⟩
      have total := missingBlocks_add holds grows limit
      rw [need_eq limit, need_eq (by omega)] at total
      exact ⟨by omega, limit⟩
  · rw [show success = _ from result, Bool.and_eq_true, decide_eq_true_iff] at succeeded
    obtain ⟨rfl, limit⟩ := succeeded
    exact extended service held holds grows limit reserved

theorem reserve_exact_small : ∃ fs data' fs', filesysInit smallDevice smallDevice_size true = some fs ∧
    inodeReserve (freeMapAllocate 1) (blankInode false 0) 130000 fs = some ((true, data'), fs') ∧
    freeCount fs = 325 ∧ freeCount fs' = 68 ∧ Extended fs fs' (blankInode false 0) data' 0 254 := by
  obtain ⟨fs, ran, formatted, count⟩ := smallDevice_format
  have blocks := formatted.volume.objects.blocks
  have map : blockAt fs.disk.view (blankInode false 0) = fun _ => 0 := blockAt_blank _
  have held : Held (MapData fs) (MapIndex fs) fs (blockAt fs.disk.view (blankInode false 0)) := by
    rw [map]
    exact ⟨⟨fun _ present => absurd rfl present, fun _ _ present => absurd rfl present⟩, fun _ present => absurd rfl present⟩
  have holds : HoldsExactly fs (blankInode false 0) 0 := fun p => by simp [map]
  obtain ⟨success, data', fs', reserved, outcome, extends_⟩ := reserve_exact blocks.service held holds
    (show (0 : Int) ≤ 130000 by decide) (show bytesToSectors 130000 = 254 by decide) (Nat.zero_le _)
  obtain rfl := outcome.mpr ⟨by decide, by rw [count]; decide⟩
  have grown := extends_ rfl
  have left := grown.count
  rw [count, show need 254 - need 0 = 257 by decide] at left
  exact ⟨fs, data', fs', ran, reserved, count, by omega, grown⟩

end Comp310.Proofs.ReserveExact
