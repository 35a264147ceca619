import Comp310.Fs.DataSectors
import Comp310.Fs.Runs

/-! The two ways from an inode to its sectors, index by index and all in a row, meet. -/

namespace Comp310.Proofs.SectorWalk
open Comp310.Fs Comp310.Lib

/-- An inode built by `inode_reserve`, from nothing, with sectors asked for up to a number. In between the
rest of the file system may do what it likes, as long as it leaves the sectors of the inode in use and its index
blocks as they are. -/
inductive Built (own keep : Sector → Prop) : FileSystem → InodeDisk → Nat → Prop where
  | blank (service : Service own keep fs) (isDir : Bool) (length : Int) : Built own keep fs (blankInode isDir length) 0
  | reserve (built : Built own keep fs data m) (length : Int)
      (ran : inodeReserve (freeMapAllocate 1) data length fs = some ((success, data'), fs')) :
      Built own keep fs' data' (if success then max m (bytesToSectors length) else m)
  | elsewhere (built : Built own keep fs data m) (service : Service own keep fs')
      (used : ∀ p, blockAt fs.disk.view data p ≠ 0 → Used fs' (blockAt fs.disk.view data p))
      (index : ∀ p : InodePos, p.isData = false → blockAt fs.disk.view data p ≠ 0 →
        fs'.disk.view (blockAt fs.disk.view data p) = fs.disk.view (blockAt fs.disk.view data p)) :
      Built own keep fs' data m

private structure Whole (own keep : Sector → Prop) (fs : FileSystem) (data : InodeDisk) (m : Nat) : Prop where
  service : Service own keep fs
  held : Held own keep fs (blockAt fs.disk.view data)
  limit : m ≤ 16635
  mapped : ∀ p : InodePos, p.first < m → blockAt fs.disk.view data p ≠ 0

variable {own keep : Sector → Prop} {fs fs' : FileSystem} {data data' : InodeDisk} {success : Bool} {m : Nat}

private theorem Whole.blank (service : Service own keep fs) (isDir : Bool) (length : Int) :
    Whole own keep fs (blankInode isDir length) 0 := by
  refine ⟨service, ?_, by decide, fun _ inside => absurd inside (Nat.not_lt_zero _)⟩
  rw [blockAt_blank]
  exact ⟨⟨fun _ present => absurd rfl present, fun _ _ present => absurd rfl present⟩, fun _ present => absurd rfl present⟩

private theorem Whole.reserve (whole : Whole own keep fs data m) {length : Int}
    (ran : inodeReserve (freeMapAllocate 1) data length fs = some ((success, data'), fs')) :
    Whole own keep fs' data' (if success then max m (bytesToSectors length) else m) := by
  by_cases negative : length < 0
  · rw [inodeReserve, if_pos negative] at ran
    cases ran
    exact whole
  · obtain ⟨enough, result, reserved, _⟩ :=
      (inodeReserve_wp whole.service whole.held (by omega) rfl).result ran
    have kept (p : InodePos) (inside : p.first < m) : blockAt fs'.disk.view data' p ≠ 0 := by
      rw [reserved.grows.keep p (whole.mapped p inside)]
      exact whole.mapped p inside
    refine ⟨reserved.service, reserved.held whole.service whole.held, ?_, fun p inside => ?_⟩
    · have limit := whole.limit
      cases success with
      | false => exact limit
      | true =>
        obtain ⟨_, small⟩ := Bool.and_eq_true_iff.mp (Eq.symm result)
        exact Nat.max_le.mpr ⟨limit, of_decide_eq_true small⟩
    · cases success with
      | false => exact kept p inside
      | true =>
        obtain ⟨rfl, _⟩ := Bool.and_eq_true_iff.mp (Eq.symm result)
        have either : p.first < m ∨ p.first < bytesToSectors length := by
          have inside : p.first < max m (bytesToSectors length) := inside
          omega
        rcases either with old | new
        · exact kept p old
        · exact reserved.complete rfl p new

private theorem Whole.elsewhere (whole : Whole own keep fs data m) (service : Service own keep fs')
    (used : ∀ p, blockAt fs.disk.view data p ≠ 0 → Used fs' (blockAt fs.disk.view data p))
    (index : ∀ p : InodePos, p.isData = false → blockAt fs.disk.view data p ≠ 0 →
      fs'.disk.view (blockAt fs.disk.view data p) = fs.disk.view (blockAt fs.disk.view data p)) :
    Whole own keep fs' data m := by
  have same : blockAt fs'.disk.view data = blockAt fs.disk.view data := funext fun p => blockAt_congr p index
  refine ⟨service, ⟨⟨fun p present => ?_, ?_⟩, ?_⟩, whole.limit, ?_⟩ <;> rw [same] at *
  · exact used p present
  · exact whole.held.placed.distinct
  · exact whole.held.foreign
  · exact whole.mapped

private theorem Built.whole (built : Built own keep fs data m) : Whole own keep fs data m := by
  induction built with
  | blank service isDir length => exact .blank service isDir length
  | reserve _ _ ran ih => exact ih.reserve ran
  | elsewhere _ service used index ih => exact ih.elsewhere service used index

private theorem Whole.readable (whole : Whole own keep fs data m) {length : Int} (nonneg : 0 ≤ length)
    (high : length < 2147483648) (reserved : bytesToSectors length ≤ m) : Readable fs { data with length := length } := by
  have limit := whole.limit
  have small := (bytesToSectors_le nonneg high).mp (by omega)
  have sectors := bytesToSectors_eq nonneg (by omega)
  refine ⟨nonneg, small, fun p present => ?_, fun p inside => ?_⟩
  · exact whole.service.bounded (whole.held.placed.used p present)
  · exact whole.mapped p (by dsimp only at inside; omega)

/-- Both walkers name the same sectors, for every length that the sectors asked for make room for. -/
theorem walkers_agree (built : Built own keep fs data m) {length : Int} (nonneg : 0 ≤ length) (high : length < 2147483648)
    (reserved : bytesToSectors length ≤ m) :
    ∃ sectors, getInodeDataSectors { data with length := length } fs = some (some sectors, fs) ∧
      sectors.length = bytesToSectors length ∧
      ∀ i (inside : i < sectors.length), sectors[i] ≠ 0 ∧
        indexToSector { data with length := length } i fs = some (sectors[i], fs) := by
  have whole := built.whole
  have readable := whole.readable nonneg high reserved
  refine ⟨_, getInodeDataSectors_eq readable, sectorsFrom_length, fun i inside => ?_⟩
  have limit := whole.limit
  rw [sectorsFrom_length] at inside
  have before : i < 16635 := by dsimp only at inside; omega
  have present : blockAt fs.disk.view { data with length := length } (.data i) ≠ 0 :=
    whole.mapped (.data i) (by rw [data_first before]; dsimp only at inside; omega)
  rw [sectorsFrom_getElem, Nat.zero_add]
  exact ⟨present, indexToSector_eq before (fun p _ => readable.inRange p) present⟩

/-- A file of 254 sectors, three of them under the doubly indirect block. -/
theorem walkers_agree_small : ∃ fs data fs' sectors, filesysInit smallDevice smallDevice_size true = some fs ∧
    inodeReserve (freeMapAllocate 1) (blankInode false 0) 130000 fs = some ((true, data), fs') ∧
    getInodeDataSectors { data with length := 130000 } fs' = some (some sectors, fs') ∧ sectors.length = 254 ∧
    ∀ i (inside : i < sectors.length), sectors[i] ≠ 0 ∧
      indexToSector { data with length := 130000 } i fs' = some (sectors[i], fs') := by
  obtain ⟨fs, ran, formatted, count⟩ := smallDevice_format
  have service := formatted.volume.objects.blocks.service
  have blank := Whole.blank service false 0
  obtain ⟨⟨success, data⟩, fs', reserved, enough, result, grown, _⟩ :=
    inodeReserve_wp service blank.held (show (0 : Int) ≤ 130000 by decide) (show bytesToSectors 130000 = 254 by decide)
  have room : enough = true := by
    rw [grown.outcome, blockAt_blank, count]
    decide +kernel
  obtain rfl : success = true := by rw [show success = _ from result, room]; rfl
  obtain ⟨sectors, listed, total, agree⟩ := walkers_agree (.reserve (.blank service false 0) 130000 reserved)
    (show (0 : Int) ≤ 130000 by decide) (by decide) (by decide)
  exact ⟨fs, data, fs', sectors, ran, reserved, listed, total, agree⟩

end Comp310.Proofs.SectorWalk
