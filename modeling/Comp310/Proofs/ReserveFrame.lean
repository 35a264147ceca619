import Comp310.Fs.Runs

/-! What `inode_reserve` writes to. It stays with the sectors it allocates, the
index blocks of its inode and the free map's file, unless the disk fills up just
when an index block is due: then it clears sector 0. -/

namespace Comp310.Proofs.ReserveFrame
open Comp310.Fs Comp310.Lib

/-- The inode that blocks are reserved for: a file or directory, or one that is being made. -/
inductive InodeFor (fs : FileSystem) (sector : Sector) : InodeDisk → Prop where
  | live (member : Live fs sector) (nonzero : sector ≠ 0) : InodeFor fs sector (curData fs sector)
  | made (new : ¬ Live fs sector) (isDir : Bool) (length : Int) : InodeFor fs sector (blankInode isDir length)

/-- The sectors written on the way from one state to the other are allocated on that way, index blocks of the
inode or data of the free map's file, and none of them is part of anything else. -/
def Contained (fs fs' : FileSystem) (sector : Sector) (data : InodeDisk) : Prop :=
  ∃ added, fs'.disk.written = added ++ fs.disk.written ∧
    (∀ other ∈ added, MapData fs other ∨ (¬ Used fs other ∧ Used fs' other) ∨ IndexSector fs.disk.view data other) ∧
    0 ∉ added ∧ 1 ∉ added ∧
    ∀ role : Role, Live fs role.1 → role.1 ≠ sector → Filled fs role → claim fs role ∈ added → MapData fs (claim fs role)

/-- The free sectors run out exactly where an index block has to be allocated. -/
def IndexDue (fs : FileSystem) (data : InodeDisk) (length : Int) : Prop :=
  0 ≤ length ∧ (shortOf fs data length)[freeCount fs]? = some true

variable {fs fs' : FileSystem} {sector : Sector} {data : InodeDisk} {length : Int}

private theorem InodeFor.held (inode : InodeFor fs sector data) (blocks : Blocks (Live fs) fs) :
    Held (MapData fs) (MapIndex fs) fs (blockAt fs.disk.view data) := by
  cases inode with
  | live member nonzero => exact blocks.held member nonzero
  | made _ isDir size =>
    rw [blockAt_blank]
    exact ⟨⟨fun _ absurd' => absurd rfl absurd', fun _ _ absurd' => absurd rfl absurd'⟩, fun _ absurd' => absurd rfl absurd'⟩

private theorem InodeFor.apart (inode : InodeFor fs sector data) (blocks : Blocks (Live fs) fs) {role : Role}
    (member : Live fs role.1) (filled : Filled fs role) (p : InodePos) (other : role ≠ (sector, some p))
    (present : blockAt fs.disk.view data p ≠ 0) : claim fs role ≠ blockAt fs.disk.view data p := by
  intro same
  cases inode with
  | live member' _ => exact other (blocks.apart role (sector, some p) member member' filled (filled_place.mpr present) same)
  | made _ isDir size =>
    rw [blockAt_blank] at present
    exact present rfl

private theorem owned_untouched (inode : InodeFor fs sector data) (blocks : Blocks (Live fs) fs) {role : Role}
    (member : Live fs role.1) (filled : Filled fs role) (other : ∀ p, role ≠ (sector, some p))
    (written : MapData fs (claim fs role) ∨ (¬ Used fs (claim fs role) ∧ Used fs' (claim fs role)) ∨
      IndexSector fs.disk.view data (claim fs role)) : MapData fs (claim fs role) := by
  rcases written with mine | ⟨unused, _⟩ | ⟨p, _, present, same⟩
  · exact mine
  · exact absurd (blocks.used role member filled) unused
  · exact absurd same (inode.apart blocks member filled p (other p) present)

private theorem inode_untouched (inode : InodeFor fs sector data) (blocks : Blocks (Live fs) fs) {place : Sector}
    (member : Live fs place) (written : MapData fs place ∨ (¬ Used fs place ∧ Used fs' place) ∨ IndexSector fs.disk.view data place) :
    False :=
  blocks.not_mapData (place, none) member filled_inode (fun _ _ => nofun)
    (owned_untouched inode blocks member (filled_inode : Filled fs ((place, none) : Role)) (fun _ => nofun) written)

theorem contained_iff (blocks : Blocks (Live fs) fs) (inode : InodeFor fs sector data) (length : Int) :
    ∃ result fs', inodeReserve (freeMapAllocate 1) data length fs = some (result, fs') ∧
      (Contained fs fs' sector data ↔ ¬ IndexDue fs data length) := by
  by_cases negative : length < 0
  · refine ⟨_, fs, by rw [inodeReserve, if_pos negative]; rfl, ?_⟩
    refine iff_of_true ⟨[], rfl, by simp, List.not_mem_nil, List.not_mem_nil, by simp⟩ fun due => ?_
    exact absurd due.1 (by omega)
  · have nonneg : 0 ≤ length := by omega
    have held := inode.held blocks
    obtain ⟨result, fs', ran, enough, _, reserved, _⟩ := inodeReserve_wp blocks.service held nonneg rfl
    refine ⟨result, fs', ran, ?_⟩
    obtain ⟨_, added, sum, allowed, _⟩ := reserved.touches
    constructor
    · rintro ⟨added', sum', _, clear, _⟩ ⟨_, due⟩
      obtain rfl : added = added' := List.append_cancel_right (sum.symm.trans sum')
      have more := reserved.spoils due
      rw [sum, List.count_append, List.count_eq_zero.mpr clear, Nat.zero_add] at more
      exact Nat.lt_irrefl _ more
    · intro enough'
      have clean : ∀ other ∈ added, MapData fs other ∨ (¬ Used fs other ∧ Used fs' other) ∨
          IndexSector fs.disk.view data other := by
        intro other member
        rcases allowed other member with own | fresh | index | ⟨_, due⟩
        · exact .inl own
        · exact .inr (.inl fresh)
        · exact .inr (.inr index)
        · exact absurd ⟨nonneg, due⟩ enough'
      refine ⟨added, sum, clean, fun member => ?_, fun member => ?_, fun role there differs filled member => ?_⟩
      · exact inode_untouched inode blocks blocks.mapLive (clean _ member)
      · exact inode_untouched inode blocks Volume.root_live (clean _ member)
      · refine owned_untouched inode blocks there filled (fun p same => ?_) (clean _ member)
        exact differs (congrArg Prod.fst same)

section Example

private theorem allocate_inode {size : Nat} (formatted : Formatted fs size) (room : 0 < freeCount fs) :
    ∃ middle sector, freeMapAllocate 1 fs = some (some sector, middle) ∧ freeCount middle + 1 = freeCount fs ∧
      Blocks (Live middle) middle ∧ ¬ Live middle sector ∧ sector.toNat < middle.disk.size := by
  have objects := formatted.volume.objects
  obtain ⟨_, middle, first, sector, rfl, allocated⟩ := freeMapAllocate_wp objects.blocks.service room
  obtain ⟨objects', same, unclaimed⟩ := objects.allocated allocated
  have live : Live middle = Live fs := live_congr ((same 1 Volume.root_live).alike (by decide)).slots
  rw [← live] at objects' unclaimed
  have blocks := objects'.blocks
  exact ⟨middle, sector, first, allocated.count, blocks, unclaimed.not_live, blocks.service.bounded allocated.used⟩

/-- A block is reserved for the first 512 bytes. -/
theorem contained_iff_small : ∃ fs middle sector result fs', filesysInit smallDevice smallDevice_size true = some fs ∧
    freeMapAllocate 1 fs = some (some sector, middle) ∧ sector.toNat < middle.disk.size ∧
    inodeReserve (freeMapAllocate 1) (blankInode false 512) 512 middle = some (result, fs') ∧
    Contained middle fs' sector (blankInode false 512) := by
  obtain ⟨fs, ran, formatted, count⟩ := smallDevice_format
  obtain ⟨middle, sector, first, left, blocks, new, inside⟩ := allocate_inode formatted (by omega)
  obtain ⟨result, fs', reserved, contained⟩ := contained_iff blocks (.made new false 512) 512
  refine ⟨fs, middle, sector, result, fs', ran, first, inside, reserved, contained.mpr fun due => ?_⟩
  have there := due.2
  rw [show freeCount middle = 324 by omega, shortOf, blockAt_blank] at there
  exact absurd there (by decide)

private abbrev fullDevice : Array Block := Array.replicate 199 zeros

/-- A file of 124 sectors on a disk with 124 sectors left: one goes to the inode, 123 to the direct blocks, and
none is left for the index block. -/
theorem reserve_clears_map : ∃ fs middle sector result fs', filesysInit fullDevice (by simp) true = some fs ∧
    freeMapAllocate 1 fs = some (some sector, middle) ∧
    inodeReserve (freeMapAllocate 1) (blankInode false 63488) 63488 middle = some (result, fs') ∧
    ¬ Contained middle fs' sector (blankInode false 63488) := by
  obtain ⟨fs, ran, formatted⟩ := filesysInit_format (by simp : fullDevice.size < 2 ^ 32) (formattable_small (by simp) (by simp))
  have free : freeCount fs = 124 := by
    have count := formatted.count
    rw [Array.size_replicate, (mapBlocks_one (by decide) (by decide)).2, rootBlocks_eq] at count
    omega
  obtain ⟨middle, sector, first, left, blocks, new, _⟩ := allocate_inode formatted (by omega)
  obtain ⟨result, fs', reserved, contained⟩ := contained_iff blocks (.made new false 63488) 63488
  refine ⟨fs, middle, sector, result, fs', ran, first, reserved, fun holds => contained.mp holds ⟨by decide, ?_⟩⟩
  rw [show freeCount middle = 123 by omega, shortOf, blockAt_blank, show bytesToSectors 63488 = 124 by decide]
  decide +kernel

end Example

end Comp310.Proofs.ReserveFrame
