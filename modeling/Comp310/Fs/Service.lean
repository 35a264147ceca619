import Comp310.Fs.ReadWrite

/-! Allocating and releasing one sector. The free map keeps itself in a file,
so each of the two also rewrites the data sectors of that file. -/

namespace Comp310.Fs
open Comp310.Lib

/-- The free map can be written to its file: the data sectors of the file are
among `own` and its index blocks among `keep`, all of them in use. While the
file system is being formatted there is no such file yet. -/
structure Service (own keep : Sector → Prop) (fs : FileSystem) : Prop where
  size : fs.freeMap.length < fs.disk.size
  zero : Used fs 0
  used : ∀ sector, own sector ∨ keep sector → Used fs sector ∧ sector ≠ 0
  apart : ∀ sector, own sector → ¬ keep sector
  file : ∀ file, fs.freeMapFile = some file → ∃ inode, fs.inode? file.inode = some inode ∧
    inode.denyWriteCnt = 0 ∧ inode.data.length = byteCnt fs.freeMap.length ∧ Readable fs inode.data ∧
    Distinct (blockAt fs.disk.view inode.data) ∧ (∀ sector, DataSector fs.disk.view inode.data sector → own sector) ∧
    ∀ p, p.isData = false → blockAt fs.disk.view inode.data p ≠ 0 → keep (blockAt fs.disk.view inode.data p)

/-- Past the bits of the free map the last sector of its file is all zeros. -/
def Padded (fs : FileSystem) : Prop :=
  ∀ file inode, fs.freeMapFile = some file → fs.inode? file.inode = some inode →
    ∀ i, byteCnt fs.freeMap.length ≤ i → i / 512 * 512 < byteCnt fs.freeMap.length →
      fileByte fs.disk.view inode.data i = 0

/-- The free map file holds the bits of the free map, and nothing else. -/
structure Synced (fs : FileSystem) : Prop where
  padded : Padded fs
  bits : ∀ file inode, fs.freeMapFile = some file → fs.inode? file.inode = some inode →
    fileRange fs.disk.view inode.data 0 (byteCnt fs.freeMap.length) = bitmapBytes fs.freeMap

/-- The file of the free map follows the free map. -/
structure Follows (fs fs' : FileSystem) : Prop where
  padded : Padded fs → Padded fs'
  synced : Synced fs → Synced fs'

variable {own keep : Sector → Prop} {fs middle fs' : FileSystem} {sector : Sector}

theorem Follows.refl : Follows fs fs := ⟨id, id⟩

theorem Follows.trans (first : Follows fs middle) (second : Follows middle fs') : Follows fs fs' :=
  ⟨fun padded => second.padded (first.padded padded), fun synced => second.synced (first.synced synced)⟩

theorem Follows.of_written (written : Padded fs → Synced fs') : Follows fs fs' :=
  ⟨fun padded => (written padded).padded, fun synced => written synced.padded⟩

theorem offsetT_eq {value : Int} (low : -2147483648 ≤ value) (high : value < 2147483648) : offsetT value = value := by
  unfold offsetT
  rw [Int.bmod_def, Int.cast_ofNat_Int]
  omega

theorem bytesToSectors_eq {size : Int} (nonneg : 0 ≤ size) (high : size ≤ 2147483136) :
    bytesToSectors size = (size.toNat + 511) / 512 := by
  unfold bytesToSectors
  rw [offsetT_eq (by omega) (by omega), Int.tdiv_eq_ediv_of_nonneg (by omega)]
  omega

/-- Sizes that the format has no room for count as too many sectors, also where
the sum wraps. -/
theorem bytesToSectors_le {size : Int} (nonneg : 0 ≤ size) (high : size < 2147483648) :
    bytesToSectors size ≤ 16635 ↔ size ≤ 8517120 := by
  by_cases small : size ≤ 2147483136
  · rw [bytesToSectors_eq nonneg small]
    omega
  · have wraps : offsetT (size + 511) = -(4294967296 - size - 511) := by
      unfold offsetT
      rw [Int.bmod_def, Int.cast_ofNat_Int]
      omega
    unfold bytesToSectors
    rw [wraps, Int.neg_tdiv, Int.tdiv_eq_ediv_of_nonneg (by omega)]
    omega

/-- No sector of the device is mistaken for the `-1` of `byte_to_sector`. -/
theorem ne_noSector {disk : Disk} (inside : sector.toNat < disk.size) : sector ≠ noSector := by
  have bound := disk.size_lt
  rintro rfl
  rw [show noSector.toNat = 4294967295 from rfl] at inside
  omega

theorem getInode_eq {addr : Addr} {inode : Inode} (opened : fs.inode? addr = some inode) :
    getInode addr fs = some (inode, fs) := by
  simp [getInode, opened]

/-- A write that ends inside the file needs no space, whatever the allocator. -/
theorem inodeWriteAtWith_inside (allocate : M (Option Sector)) {addr : Addr} {inode : Inode} {buffer : List UInt8}
    {start : Nat} (opened : fs.inode? addr = some inode) (writable : inode.denyWriteCnt = 0)
    (readable : Readable fs inode.data) (distinct : Distinct (blockAt fs.disk.view inode.data))
    (positive : 0 < buffer.length) (inside : (start + buffer.length : Nat) ≤ inode.data.length) :
    Wp (inodeWriteAtWith allocate addr buffer start)
      (fun written fs' => written = buffer.length ∧ Wrote fs fs' inode.data start buffer) fs := by
  have limit := readable.limit
  have last : offsetT ((start : Int) + buffer.length - 1) = ((start + buffer.length - 1 : Nat) : Int) := by
    rw [offsetT_eq (by omega) (by omega)]
    omega
  obtain ⟨found, allocated⟩ := byteToSector_eq readable (show (start + buffer.length - 1 : Nat) < inode.data.length by omega)
  have present := ne_noSector (readable.inRange _ allocated)
  rw [inodeWriteAtWith, wp_bind]
  refine Wp.of_eq (getInode_eq opened) ?_
  dsimp only
  rw [if_neg (by simp [writable]), last, wp_bind]
  refine Wp.of_eq found ?_
  rw [if_neg present]
  exact writeLoop_wp buffer.length buffer start fs readable distinct (Nat.le_refl _) inside

theorem Service.congr (service : Service own keep fs) (heap : SameHeap fs fs') (size : fs'.disk.size = fs.disk.size)
    (length : fs'.freeMap.length = fs.freeMap.length) (used : ∀ sector, own sector ∨ keep sector ∨ sector = 0 → Used fs' sector)
    (view : ∀ sector, keep sector → fs'.disk.view sector = fs.disk.view sector) : Service own keep fs' := by
  refine ⟨by rw [size, length]; exact service.size, used 0 (.inr (.inr rfl)), ?_, service.apart, ?_⟩
  · exact fun sector member => ⟨used sector (member.imp id .inl), (service.used sector member).2⟩
  · intro file opened
    rw [heap.freeMapFile] at opened
    obtain ⟨inode, found, writable, bytes, readable, distinct, data, index⟩ := service.file file opened
    have map : blockAt fs'.disk.view inode.data = blockAt fs.disk.view inode.data := by
      funext p
      exact blockAt_congr p fun q inner present => view _ (index q inner present)
    refine ⟨inode, by rw [heap.inode?, found], writable, by rw [length, bytes], ⟨readable.nonneg, readable.limit, ?_, ?_⟩,
      by rwa [map], ?_, by rwa [map]⟩
    · rw [map, size]
      exact readable.inRange
    · rw [map]
      exact readable.mapped
    · intro sector member
      rw [DataSector, map] at member
      exact data sector member

theorem bitmapWrite_wp (service : Service own keep fs) {file : File} (opened : fs.freeMapFile = some file) :
    Wp (bitmapWrite file) (fun success fs' => success = true ∧ fs' = { fs with disk := fs'.disk } ∧
      Touches own fs fs' ∧ Service own keep fs' ∧ (Padded fs → Synced fs')) fs := by
  obtain ⟨inode, found, writable, bytes, readable, distinct, data, index⟩ := service.file file opened
  have filled := service.zero.inRange
  have size := byteCnt_bounds fs.freeMap.length
  rw [bitmapWrite, wp_bind, wp_get, wp_bind]
  refine Wp.mono (inodeWriteAtWith_inside fault found writable readable distinct ?_ ?_ :
    Wp (inodeWriteAtWith fault file.inode (bitmapBytes fs.freeMap) (0 : Nat)) _ fs) ?_
  · rw [bitmapBytes_length]
    omega
  · rw [bitmapBytes_length, bytes]
    omega
  · intro written fs' ⟨all, wrote⟩
    have heap : SameHeap fs fs' := by rw [wrote.only]; exact ⟨rfl, rfl, rfl, rfl, rfl, rfl, rfl⟩
    have touches := wrote.touches.mono data
    have limit := readable.limit
    have map : fs'.freeMap = fs.freeMap := by rw [wrote.only]
    have service' : Service own keep fs' := by
      refine service.congr heap touches.size (by rw [map]) ?_ fun sector member => touches.view fun mine =>
        service.apart sector mine member
      intro sector member
      rw [Used, map]
      rcases member with mine | kept | rfl
      · exact (service.used sector (.inl mine)).1
      · exact (service.used sector (.inr kept)).1
      · exact service.zero
    rw [wp_pure]
    refine ⟨by simp [all, bitmapFileSize], wrote.only, touches, service', fun padded => ⟨?_, ?_⟩⟩ <;>
      intro file' inode' opened' found' <;>
      rw [heap.freeMapFile, opened] at opened' <;>
      cases opened' <;>
      rw [heap.inode?, found] at found' <;>
      cases found'
    · intro i past bound
      rw [map] at past bound
      rw [wrote.bytes i (by omega), bitmapBytes_length, if_neg (by omega)]
      exact padded file inode opened found i past bound
    · apply List.ext_getElem
      · rw [fileRange_length, bitmapBytes_length]
      · intro i inside inside'
        rw [fileRange_length, map] at inside
        rw [bitmapBytes_length, map] at inside'
        simp only [fileRange, List.getElem_map, List.getElem_range, Nat.zero_add]
        rw [wrote.bytes i (by omega), bitmapBytes_length, if_pos (by omega)]
        simp only [map, Nat.sub_zero]
        rw [List.getD_eq_getElem?_getD, List.getElem?_eq_getElem (by rwa [bitmapBytes_length])]
        rfl

theorem freeMapAllocate_full (full : freeCount fs = 0) : freeMapAllocate 1 fs = some (none, fs) := by
  have missing : bitmapScanAndFlip fs.freeMap 0 1 false = none := by
    unfold bitmapScanAndFlip
    cases found : bitmapScan fs.freeMap 0 1 false with
    | none => rfl
    | some idx =>
      have clear := List.mem_of_getElem? (bitmapScan_some found)
      exact absurd full (Nat.pos_iff_ne_zero.mp (List.count_pos_iff.mpr clear))
  have start : (get : M FileSystem) fs = some (fs, fs) := rfl
  rw [freeMapAllocate, run_bind start, missing]
  rfl

structure Allocated (own keep : Sector → Prop) (fs fs' : FileSystem) (sector : Sector) : Prop where
  free : fs.freeMap[sector.toNat]? = some false
  map : fs'.freeMap = fs.freeMap.set sector.toNat true
  heap : SameHeap fs fs'
  touches : Touches own fs fs'
  service : Service own keep fs'
  synced : Padded fs → Synced fs'

theorem Used.set (used : Used fs sector) (idx : Nat) : (fs.freeMap.set idx true)[sector.toNat]? = some true := by
  have inside := used.inRange
  unfold Used at used
  rw [List.getElem?_set]
  split
  next same => subst same; simp [inside]
  next => exact used

theorem Service.all_used (service : Service own keep fs) :
    ∀ sector, own sector ∨ keep sector ∨ sector = 0 → Used fs sector := by
  intro sector member
  rcases member with mine | kept | rfl
  · exact (service.used sector (.inl mine)).1
  · exact (service.used sector (.inr kept)).1
  · exact service.zero

theorem freeMapAllocate_wp (service : Service own keep fs) (room : 0 < freeCount fs) :
    Wp (freeMapAllocate 1) (fun result fs' => ∃ sector, result = some sector ∧ Allocated own keep fs fs' sector) fs := by
  obtain ⟨idx, found⟩ := bitmapScan_isSome room
  have clear := bitmapScan_some found
  have bound := (List.getElem?_eq_some_iff.mp clear).1
  have size := service.size
  have limit := fs.disk.size_lt
  have number : (UInt32.ofNat idx).toNat = idx := UInt32.toNat_ofNat_of_lt' (by simp only [UInt32.size]; omega)
  have scan : bitmapScanAndFlip fs.freeMap 0 1 false = some (idx, fs.freeMap.set idx true) := by
    simp [bitmapScanAndFlip, found]
  have marked : Service own keep { fs with freeMap := fs.freeMap.set idx true } :=
    service.congr ⟨rfl, rfl, rfl, rfl, rfl, rfl, rfl⟩ rfl (by simp)
      (fun sector member => (service.all_used sector member).set idx) fun _ _ => rfl
  rw [freeMapAllocate, wp_bind, wp_get]
  simp only [scan, wp_bind, wp_set]
  generalize middle_eq : ({ fs with freeMap := fs.freeMap.set idx true } : FileSystem) = middle at marked ⊢
  have map : middle.freeMap = fs.freeMap.set idx true := by rw [← middle_eq]
  have heap : SameHeap fs middle := by rw [← middle_eq]; exact ⟨rfl, rfl, rfl, rfl, rfl, rfl, rfl⟩
  have disk : middle.disk = fs.disk := by rw [← middle_eq]
  have padded_marked (padded : Padded fs) : Padded middle := by
    rw [← middle_eq]
    simpa [Padded, FileSystem.inode?] using padded
  cases opened : fs.freeMapFile with
  | none =>
    refine (wp_pure _).mpr ⟨_, rfl, by rw [number, clear], by rw [map, number], heap, ?_, marked, ?_⟩
    · exact ⟨by rw [disk], [], by rw [disk]; rfl, by simp, fun _ _ => by rw [disk]⟩
    · have absent (file : File) : middle.freeMapFile ≠ some file := by simp [heap.freeMapFile, opened]
      exact fun _ => ⟨fun file _ opened' => absurd opened' (absent file), fun file _ opened' => absurd opened' (absent file)⟩
  | some file =>
    rw [wp_bind]
    refine (bitmapWrite_wp marked (heap.freeMapFile.trans opened)).mono
      fun success fs' outcome => ?_
    obtain ⟨done, only, touches, service', synced⟩ := outcome
    subst done
    simp only [if_true, wp_pure]
    refine ⟨_, rfl, by rw [number, clear], by rw [only, map, number], heap.trans ?_, ?_, service',
      fun padded => synced (padded_marked padded)⟩
    · rw [only]
      exact ⟨rfl, rfl, rfl, rfl, rfl, rfl, rfl⟩
    · exact ⟨by rw [← disk]; exact touches.size, by rw [← disk]; exact touches.writes⟩

structure Released (own keep : Sector → Prop) (fs fs' : FileSystem) (sector : Sector) : Prop where
  map : fs'.freeMap = fs.freeMap.set sector.toNat false
  heap : SameHeap fs fs'
  touches : Touches own fs fs'
  service : Service own keep fs'
  synced : Padded fs → Synced fs'

/-- A sector that the free map file does not use can be given back. -/
theorem freeMapRelease_wp (service : Service own keep fs) (opened : fs.freeMapFile ≠ none) (used : Used fs sector)
    (foreign : ¬ own sector ∧ ¬ keep sector ∧ sector ≠ 0) :
    Wp (freeMapRelease sector 1) (fun _ fs' => Released own keep fs fs' sector) fs := by
  obtain ⟨file, opened⟩ := Option.ne_none_iff_exists'.mp opened
  have inside := used.inRange
  have cleared : Service own keep { fs with freeMap := fs.freeMap.set sector.toNat false } := by
    refine service.congr ⟨rfl, rfl, rfl, rfl, rfl, rfl, rfl⟩ rfl (by simp) (fun other member => ?_) fun _ _ => rfl
    have used' := service.all_used other member
    have differs : sector.toNat ≠ other.toNat := by
      rw [ne_eq, UInt32.toNat_inj]
      rintro rfl
      rcases member with mine | kept | zero
      · exact foreign.1 mine
      · exact foreign.2.1 kept
      · exact foreign.2.2 zero
    rw [Used, List.getElem?_set_ne differs]
    exact used'
  rw [freeMapRelease, wp_bind, wp_get, if_pos (by omega), wp_bind, wp_set, bitmapSetMultiple_one, bitmapAll_one used,
    if_pos rfl]
  generalize middle_eq : ({ fs with freeMap := fs.freeMap.set sector.toNat false } : FileSystem) = middle at cleared ⊢
  have map : middle.freeMap = fs.freeMap.set sector.toNat false := by rw [← middle_eq]
  have heap : SameHeap fs middle := by rw [← middle_eq]; exact ⟨rfl, rfl, rfl, rfl, rfl, rfl, rfl⟩
  have disk : middle.disk = fs.disk := by rw [← middle_eq]
  have padded_cleared (padded : Padded fs) : Padded middle := by
    rw [← middle_eq]
    simpa [Padded, FileSystem.inode?] using padded
  simp only [opened, wp_bind]
  refine (bitmapWrite_wp cleared (heap.freeMapFile.trans opened)).mono
    fun _ fs' ⟨_, only, touches, service', synced⟩ => ?_
  rw [wp_pure]
  refine ⟨by rw [only, map], heap.trans ?_, ?_, service', fun padded => synced (padded_cleared padded)⟩
  · rw [only]
    exact ⟨rfl, rfl, rfl, rfl, rfl, rfl, rfl⟩
  · exact ⟨by rw [← disk]; exact touches.size, by rw [← disk]; exact touches.writes⟩

end Comp310.Fs
