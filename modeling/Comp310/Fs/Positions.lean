import Comp310.Fs.Extend

/-! Reads and writes at positions that no file has: before its start, where a
failed write leaves the position of a file, and past what an `offset_t` holds. -/

namespace Comp310.Fs
open Comp310.Lib

variable {live : Sector → Prop} {fs fs' : FileSystem} {data : InodeDisk} {addr : Addr} {inode : Inode}
  {buffer bytes : List UInt8} {start size written : Int}

theorem offsetT_range (value : Int) : -2147483648 ≤ offsetT value ∧ offsetT value < 2147483648 := by
  unfold offsetT
  rw [Int.bmod_def, Int.cast_ofNat_Int]
  omega

private theorem noSector_outside : fs.disk.size ≤ noSector.toNat := by
  have bound := fs.disk.size_lt
  rw [show noSector.toNat = 4294967295 from rfl]
  omega

private theorem bufferCacheRead_noSector : bufferCacheRead noSector fs = none := by
  change (fs.disk.read noSector).bind _ = none
  rw [fs.disk.read_outside noSector_outside]
  rfl

private theorem bufferCacheWrite_noSector (source : Block) : bufferCacheWrite noSector source fs = none := by
  change (fs.disk.write noSector source).bind _ = none
  rw [fs.disk.write_outside noSector_outside]
  rfl

private theorem chunk_positive {left room size : Int} (left_positive : 0 < left) (room_positive : 0 < room) (positive : 0 < size) :
    ¬ (if size < (if left < room then left else room) then size else if left < room then left else room) ≤ 0 := by
  split <;> split <;> omega

private theorem sectorLeft_positive : 0 < 512 - start.tmod 512 := by
  have bound := Int.tmod_lt_of_pos start (show (0 : Int) < 512 by decide)
  omega

theorem readLoop_negative (fuel : Nat) (negative : start < 0) (nonneg : 0 ≤ data.length) (positive : 0 < size) :
    readLoop data fuel size start fs = none := by
  cases fuel with
  | zero =>
    rw [readLoop, if_pos positive]
    rfl
  | succ fuel =>
    rw [readLoop, if_pos positive, run_bind (byteToSector_outside (.inl negative))]
    dsimp only
    rw [if_neg (chunk_positive (by omega) sectorLeft_positive positive)]
    exact run_bind_fault bufferCacheRead_noSector _

theorem writeLoop_negative (fuel : Nat) (negative : start < 0) (nonneg : 0 ≤ data.length) (positive : 0 < buffer.length) :
    writeLoop data fuel buffer start fs = none := by
  cases fuel with
  | zero =>
    rw [writeLoop, if_pos positive]
    rfl
  | succ fuel =>
    rw [writeLoop, if_pos positive]
    dsimp only
    rw [run_bind (byteToSector_outside (.inl negative)),
      if_neg (chunk_positive (show 0 < data.length - start by omega) sectorLeft_positive (by omega))]
    generalize 512 - start.tmod 512 = room
    generalize data.length - start = left
    generalize (if (buffer.length : Int) < if left < room then left else room then (buffer.length : Int)
      else if left < room then left else room) = chunk
    split
    next => exact run_bind_fault (bufferCacheWrite_noSector _) _
    next =>
      split
      next => exact run_bind_fault bufferCacheRead_noSector _
      next =>
        rw [run_bind (show (pure zeros : M Block) fs = some (zeros, fs) from rfl)]
        exact run_bind_fault (bufferCacheWrite_noSector _) _

variable (blocks : Blocks live fs) (opened : (addr, inode) ∈ fs.openInodes)
include blocks opened

/-- A read before the start of a file has no result, unless nothing is read. -/
theorem inodeReadAt_negative (negative : start < 0) (ran : inodeReadAt addr size start fs = some (bytes, fs')) :
    bytes = [] ∧ fs' = fs := by
  have was := blocks.handles.curData opened
  have nonneg := was ▸ (blocks.readable (blocks.opens _ opened)).nonneg
  rw [inodeReadAt, run_bind (getInode_eq (blocks.handles.inode? opened))] at ran
  by_cases positive : 0 < size
  · rw [readLoop_negative _ negative nonneg positive] at ran
    cases ran
  · rw [show size.toNat = 0 by omega, readLoop, if_neg positive] at ran
    cases ran
    exact ⟨rfl, rfl⟩

private theorem modifyInode_self (next : M Int) :
    (do
      modifyInode addr fun other => { other with data := inode.data }
      next) fs = next fs := by
  have same : modifyInode addr (fun other => { other with data := inode.data }) fs = some (⟨⟩, fs) := by
    change some (_, { fs with openInodes := setData fs addr inode.data }) = _
    rw [blocks.handles.setData_self opened]
  rw [run_bind same]

/-- What would end past the largest `offset_t` ends before the start, and is refused. -/
theorem inodeWriteAt_overrun (low : 0 ≤ start) (high : start < 2147483648) (short : buffer.length < 2147483648)
    (past : 2147483648 ≤ start + buffer.length) : inodeWriteAt addr buffer start fs = some (0, fs) := by
  have was := blocks.handles.curData opened
  have readable := was ▸ blocks.readable (blocks.opens _ opened)
  have limit := readable.limit
  have writable : inode.denyWriteCnt = 0 := (blocks.handles.plain _ opened).2.2
  have wraps : offsetT (start + buffer.length) < 0 := by
    unfold offsetT
    rw [Int.bmod_def, Int.cast_ofNat_Int]
    omega
  have outside : offsetT (start + buffer.length - 1) < 0 ∨ inode.data.length ≤ offsetT (start + buffer.length - 1) := by
    unfold offsetT
    rw [Int.bmod_def, Int.cast_ofNat_Int]
    omega
  have refused : inodeReserve (freeMapAllocate 1) inode.data (offsetT (start + buffer.length)) fs = some ((false, inode.data), fs) := by
    rw [inodeReserve, if_pos wraps]
    rfl
  rw [inodeWriteAt, inodeWriteAtWith, run_bind (getInode_eq (blocks.handles.inode? opened))]
  dsimp only
  rw [if_neg (by simp [writable]), run_bind (byteToSector_outside outside), if_pos rfl, run_bind refused]
  exact modifyInode_self blocks opened _

/-- A write before the start of a file that has a result has written nothing. It
may have reserved what a write of its part past the start would have reserved. -/
theorem inodeWriteAt_negative (negative : start < 0) (low : -2147483648 ≤ start) (positive : 0 < buffer.length)
    (short : buffer.length < 2147483648) (ran : inodeWriteAt addr buffer start fs = some (written, fs')) :
    written = 0 ∧ (start + buffer.length < 0 ∧ fs' = fs ∨ 0 < start + buffer.length ∧
      inodeWriteAt addr (buffer.take (start + buffer.length).toNat) 0 fs = some (0, fs')) := by
  have was := blocks.handles.curData opened
  have readable := was ▸ blocks.readable (blocks.opens _ opened)
  have nonneg := readable.nonneg
  have writable : inode.denyWriteCnt = 0 := (blocks.handles.plain _ opened).2.2
  have found := getInode_eq (blocks.handles.inode? opened)
  have total : offsetT (start + buffer.length) = start + buffer.length := offsetT_eq (by omega) (by omega)
  have last : offsetT (start + buffer.length - 1) = start + buffer.length - 1 := offsetT_eq (by omega) (by omega)
  have stuck (fs : FileSystem) (data : InodeDisk) (nonneg : 0 ≤ data.length) : writeLoop data buffer.length buffer start fs = none :=
    writeLoop_negative _ negative nonneg positive
  -- an extension that succeeds is followed by a write that does not
  have extended (data : InodeDisk) (after : FileSystem) (nonneg : 0 ≤ start + buffer.length) :
      (do
        modifyInode addr fun inode => { inode with data := { data with length := start + buffer.length } }
        bufferCacheWrite inode.sector (InodeDisk.toBlock { data with length := start + buffer.length })
        writeLoop { data with length := start + buffer.length } buffer.length buffer start) after = none := by
    have modified (change : Inode → Inode) : ∃ fs', modifyInode addr change after = some (⟨⟩, fs') := ⟨_, rfl⟩
    obtain ⟨fs₁, modified⟩ := modified fun inode => { inode with data := { data with length := start + buffer.length } }
    rw [run_bind modified]
    cases wrote : bufferCacheWrite inode.sector (InodeDisk.toBlock { data with length := start + buffer.length }) fs₁ with
    | none => exact run_bind_fault wrote _
    | some result =>
      rw [run_bind wrote]
      exact stuck _ _ nonneg
  rw [inodeWriteAt, inodeWriteAtWith, run_bind found] at ran
  dsimp only at ran
  rw [if_neg (by simp [writable]), last, total] at ran
  by_cases inside : 0 < start + buffer.length ∧ start + buffer.length ≤ inode.data.length
  · have place : start + buffer.length - 1 = ((start + buffer.length - 1).toNat : Int) := by omega
    obtain ⟨sector, allocated⟩ := byteToSector_eq readable
      (show ((start + buffer.length - 1).toNat : Int) < inode.data.length by omega)
    rw [place, run_bind sector, if_neg (ne_noSector (readable.inRange _ allocated)), stuck _ _ nonneg] at ran
    cases ran
  have outside : start + buffer.length - 1 < 0 ∨ inode.data.length ≤ start + buffer.length - 1 := by omega
  rw [run_bind (byteToSector_outside outside), if_pos rfl] at ran
  by_cases before : start + buffer.length < 0
  · have refused : inodeReserve (freeMapAllocate 1) inode.data (start + buffer.length) fs = some ((false, inode.data), fs) := by
      rw [inodeReserve, if_pos before]
      rfl
    rw [run_bind refused] at ran
    have same := modifyInode_self blocks opened (pure 0)
    cases same.symm.trans ran
    exact ⟨rfl, .inl ⟨before, rfl⟩⟩
  cases reserved : inodeReserve (freeMapAllocate 1) inode.data (start + buffer.length) fs with
  | none =>
    rw [run_bind_fault reserved] at ran
    cases ran
  | some result =>
    obtain ⟨⟨_ | _, data⟩, after⟩ := result
    · have kept := ran
      rw [run_bind reserved] at kept
      have none_written : written = 0 := by
        cases kept
        rfl
      refine ⟨none_written, .inr ⟨?_, ?_⟩⟩
      · by_cases empty : start + buffer.length = 0
        · rw [empty] at reserved
          cases reserved
        · omega
      · have count : (buffer.take (start + buffer.length).toNat).length = (start + buffer.length).toNat := by
          rw [List.length_take]
          omega
        have size : ((start + buffer.length).toNat : Int) = start + buffer.length := by omega
        rw [inodeWriteAt, inodeWriteAtWith, run_bind found]
        dsimp only
        rw [if_neg (by simp [writable]), count, size, Int.zero_add, last, total, run_bind (byteToSector_outside outside), if_pos rfl,
          run_bind reserved]
        rw [none_written] at kept
        exact kept
    · rw [run_bind reserved] at ran
      cases (extended data after (by omega)).symm.trans ran

end Comp310.Fs
