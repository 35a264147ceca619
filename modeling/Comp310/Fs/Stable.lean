import Comp310.Lib.Preserves
import Comp310.Fs.FreeMap

/-! Invariants that reading, writing, allocating and releasing keep whatever the
state of the disk, the free map and the open inodes: they depend neither on the
disk and the map nor on the blocks of an inode. -/

namespace Comp310.Fs
open Comp310.Lib

/-- The open inodes with the data of one of them changed. -/
def withData (fs : FileSystem) (addr : Addr) (data : InodeDisk) : FileSystem :=
  { fs with openInodes := fs.openInodes.map fun entry =>
      if entry.1 = addr then (addr, { entry.2 with data }) else entry }

/-- `long` is what the invariant says of the length of an open inode. -/
structure Stable (long : Int → Prop) (invariant : FileSystem → Prop) : Prop where
  disk : ∀ fs disk, invariant fs → invariant { fs with disk }
  freeMap : ∀ fs freeMap panics, invariant fs → invariant { fs with freeMap, panics }
  data : ∀ fs addr data, invariant fs → long data.length → invariant (withData fs addr data)
  opened : ∀ fs addr inode, invariant fs → fs.inode? addr = some inode → long inode.data.length
  wraps : ∀ value, long (offsetT value)

namespace Stable

variable {long : Int → Prop} {invariant : FileSystem → Prop} {allocate : M (Option Sector)} {release : Sector → M PUnit}

theorem and {other : FileSystem → Prop} (first : Stable long invariant) (second : Stable long other) :
    Stable long fun fs => invariant fs ∧ other fs where
  disk fs disk holds := ⟨first.disk fs disk holds.1, second.disk fs disk holds.2⟩
  freeMap fs freeMap panics holds := ⟨first.freeMap fs freeMap panics holds.1, second.freeMap fs freeMap panics holds.2⟩
  data fs addr data holds fits := ⟨first.data fs addr data holds.1 fits, second.data fs addr data holds.2 fits⟩
  opened fs addr inode holds found := first.opened fs addr inode holds.1 found
  wraps := first.wraps

theorem bufferCacheRead (stable : Stable long invariant) (sector : Sector) : Stays invariant (bufferCacheRead sector) := by
  intro fs block fs' holds ran
  obtain ⟨⟨block', disk⟩, _, done⟩ := Option.bind_eq_some_iff.mp ran
  cases done
  exact ⟨stable.disk fs disk holds, trivial⟩

theorem bufferCacheWrite (stable : Stable long invariant) (sector : Sector) (source : Block) :
    Stays invariant (bufferCacheWrite sector source) := by
  intro fs value fs' holds ran
  obtain ⟨disk, _, done⟩ := Option.bind_eq_some_iff.mp ran
  cases done
  exact ⟨stable.disk fs disk holds, trivial⟩

theorem getInode (stable : Stable long invariant) (addr : Addr) :
    Preserves invariant (getInode addr) fun inode => long inode.data.length := by
  intro fs inode fs' holds ran
  obtain ⟨inode', found, done⟩ := Option.map_eq_some_iff.mp ran
  cases done
  exact ⟨holds, stable.opened fs addr inode holds found⟩

theorem setInode (stable : Stable long invariant) (addr : Addr) {data : InodeDisk} (fits : long data.length) :
    Stays invariant (modifyInode addr fun inode => { inode with data }) := by
  apply Preserves.modify
  intro fs holds
  exact stable.data fs addr data holds fits

theorem indexToSector_of (reads : ∀ sector, Stays invariant (Fs.bufferCacheRead sector)) (data : InodeDisk) (index : Nat) :
    Stays invariant (Fs.indexToSector data index) := by
  unfold Fs.indexToSector
  split
  · exact .done
  · split
    · exact (reads _).next fun _ => .done
    · split
      · apply (reads _).next
        intro first
        exact (reads _).next fun _ => .done
      · exact .done

theorem byteToSector_of (reads : ∀ sector, Stays invariant (Fs.bufferCacheRead sector)) (data : InodeDisk) (pos : Int) :
    Stays invariant (Fs.byteToSector data pos) :=
  .ite (fun _ => indexToSector_of reads data _) fun _ => .done

theorem byteToSector (stable : Stable long invariant) (data : InodeDisk) (pos : Int) : Stays invariant (byteToSector data pos) :=
  byteToSector_of stable.bufferCacheRead data pos

theorem readLoop (stable : Stable long invariant) (data : InodeDisk) (fuel : Nat) (size offset : Int) :
    Stays invariant (readLoop data fuel size offset) := by
  induction fuel generalizing size offset with
  | zero => exact .ite (fun _ => .fault) fun _ => .done
  | succ fuel ih =>
    apply Preserves.ite (fun _ => ?_) fun _ => .done
    apply (stable.byteToSector data offset).next
    intro sector
    apply Preserves.ite (fun _ => .done) fun _ => ?_
    apply (stable.bufferCacheRead sector).next
    intro bounce
    exact (ih _ _).next fun _ => .done

theorem inodeReadAt (stable : Stable long invariant) (addr : Addr) (size offset : Int) :
    Stays invariant (inodeReadAt addr size offset) :=
  (stable.getInode addr).stays.next fun inode => stable.readLoop inode.data _ size offset

theorem writeLoop (stable : Stable long invariant) (data : InodeDisk) (fuel : Nat) (buffer : List UInt8) (offset : Int) :
    Stays invariant (writeLoop data fuel buffer offset) := by
  induction fuel generalizing buffer offset with
  | zero => exact .ite (fun _ => .fault) fun _ => .done
  | succ fuel ih =>
    apply Preserves.ite (fun _ => ?_) fun _ => .done
    apply (stable.byteToSector data offset).next
    intro sector
    apply Preserves.ite (fun _ => .done) fun _ => ?_
    apply Preserves.ite
    · intro _
      apply (stable.bufferCacheWrite _ _).next
      intro _
      exact (ih _ _).next fun _ => .done
    · intro _
      extract_lets write
      have writes (bounce : Block) : Stays invariant (write bounce) :=
        (stable.bufferCacheWrite _ _).next fun _ => (ih _ _).next fun _ => .done
      exact .ite (fun _ => (stable.bufferCacheRead _).next writes) fun _ => writes zeros

section Allocating

theorem reserveSector (stable : Stable long invariant) (allocates : Stays invariant allocate) (entry : Sector) :
    Stays invariant (reserveSector allocate entry) := by
  apply Preserves.ite (fun _ => ?_) fun _ => .done
  apply allocates.next
  intro found
  cases found with
  | none => exact .done
  | some sector => exact (stable.bufferCacheWrite _ _).next fun _ => .done

theorem reserveEntries {reserve : Sector → Nat → M (Bool × Sector)} (keeps : ∀ entry count, Stays invariant (reserve entry count))
    (unit : Nat) (blocks : Vector Sector n) (i left numSectors : Nat) :
    Stays invariant (reserveEntries reserve unit blocks i left numSectors) := by
  induction left generalizing blocks i numSectors with
  | zero => exact .done
  | succ left ih =>
    unfold Fs.reserveEntries
    split
    · apply (keeps _ _).next
      intro (success, entry)
      exact .ite (fun _ => ih _ _ _) fun _ => .done
    · exact .fault

theorem inodeReserveIndirect (stable : Stable long invariant) (allocates : Stays invariant allocate) (level : Nat)
    (entry : Sector) (numSectors : Nat) : Stays invariant (inodeReserveIndirect allocate level entry numSectors) := by
  induction level generalizing entry numSectors with
  | zero => exact stable.reserveSector allocates entry
  | succ level ih =>
    unfold Fs.inodeReserveIndirect
    extract_lets _ fill
    have fills (entry : Sector) : Stays invariant (fill entry) := by
      apply (stable.bufferCacheRead entry).next
      intro indirectBlock
      apply (reserveEntries ih _ _ _ _ _).next
      intro (success, blocks)
      apply Preserves.ite
      · intro _
        exact (stable.bufferCacheWrite _ _).next fun _ => .done
      · exact fun _ => .done
    apply Preserves.ite
    · intro _
      apply allocates.next
      intro found
      apply (stable.bufferCacheWrite _ _).next
      intro _
      exact Preserves.done.next fills
    · exact fun _ => Preserves.done.next fills

theorem inodeReserve (stable : Stable long invariant) (allocates : Stays invariant allocate) (data : InodeDisk) (length : Int) :
    Preserves invariant (inodeReserve allocate data length) fun result => result.2.length = data.length := by
  unfold Fs.inodeReserve
  split
  · exact .pure rfl
  · apply (reserveEntries (fun entry _ => stable.reserveSector allocates entry) _ _ _ _ _).next
    intro (success, directBlocks)
    apply Preserves.ite
    · exact fun _ => .pure rfl
    intro _
    apply Preserves.ite
    · exact fun _ => .pure rfl
    intro _
    apply (stable.inodeReserveIndirect allocates _ _ _).next
    intro (success, indirectBlock)
    apply Preserves.ite
    · exact fun _ => .pure rfl
    intro _
    apply Preserves.ite
    · exact fun _ => .pure rfl
    intro _
    apply (stable.inodeReserveIndirect allocates _ _ _).next
    intro (success, doublyIndirectBlock)
    apply Preserves.ite
    · exact fun _ => .pure rfl
    intro _
    apply Preserves.ite
    · exact fun _ => .pure rfl
    · exact fun _ => .pure rfl

theorem inodeWriteAtWith (stable : Stable long invariant) (allocates : Stays invariant allocate) (addr : Addr)
    (buffer : List UInt8) (offset : Int) : Stays invariant (inodeWriteAtWith allocate addr buffer offset) := by
  apply (stable.getInode addr).bind
  intro inode fits
  apply Preserves.ite (fun _ => .done) fun _ => ?_
  apply (stable.byteToSector _ _).next
  intro last
  apply Preserves.ite (fun _ => ?_) fun _ => stable.writeLoop _ _ _ _
  apply (stable.inodeReserve allocates _ _).bind
  intro (success, data) same
  apply Preserves.ite
  · intro _
    apply (stable.setInode addr (stable.wraps _)).next
    intro _
    apply (stable.bufferCacheWrite _ _).next
    intro _
    exact stable.writeLoop _ _ _ _
  · intro _
    exact (stable.setInode addr (same.symm ▸ fits)).next fun _ => .done

end Allocating

section Releasing

theorem deallocateEntries {deallocate : Sector → Nat → M PUnit} (keeps : ∀ entry count, Stays invariant (deallocate entry count))
    (unit : Nat) (blocks : Vector Sector n) (i left numSectors : Nat) :
    Stays invariant (deallocateEntries deallocate unit blocks i left numSectors) := by
  induction left generalizing i numSectors with
  | zero => exact .done
  | succ left ih =>
    unfold Fs.deallocateEntries
    split
    · exact (keeps _ _).next fun _ => ih _ _
    · exact .fault

theorem inodeDeallocateIndirect (stable : Stable long invariant) (releases : ∀ sector, Stays invariant (release sector))
    (level : Nat) (entry : Sector) (numSectors : Nat) :
    Stays invariant (inodeDeallocateIndirect release level entry numSectors) := by
  induction level generalizing entry numSectors with
  | zero => exact releases entry
  | succ level ih =>
    apply (stable.bufferCacheRead entry).next
    intro indirectBlock
    exact (deallocateEntries ih _ _ _ _ _).next fun _ => releases entry

theorem inodeDeallocate (stable : Stable long invariant) (releases : ∀ sector, Stays invariant (release sector))
    (data : InodeDisk) : Stays invariant (inodeDeallocate release data) := by
  have under (level : Nat) (entry : Sector) (count : Nat) :=
    stable.inodeDeallocateIndirect releases level entry count
  unfold Fs.inodeDeallocate
  split
  · exact .done
  · apply (deallocateEntries (fun entry _ => releases entry) _ _ _ _ _).next
    intro _
    extract_lets _ _ _ _ last double
    have doubles (value : PUnit) : Stays invariant (double value) := by
      apply Preserves.ite
      · exact fun _ => (under 2 _ _).next fun _ => .done
      · exact fun _ => .done
    apply Preserves.ite
    · exact fun _ => (under 1 _ _).next doubles
    · exact fun _ => doubles ⟨⟩

end Releasing

theorem bitmapWrite (stable : Stable long invariant) (file : File) : Stays invariant (bitmapWrite file) := by
  apply Preserves.get.stays.next
  intro fs
  exact (stable.inodeWriteAtWith .fault _ _ _).next fun _ => .done

theorem bitmapRead (stable : Stable long invariant) (file : File) : Stays invariant (bitmapRead file) := by
  apply Preserves.get.stays.next
  intro fs
  apply (stable.inodeReadAt _ _ _).next
  intro bytes
  apply Preserves.next
  · apply Preserves.modify
    intro fs holds
    exact stable.freeMap fs _ fs.panics holds
  · exact fun _ => .done

theorem freeMapAllocate (stable : Stable long invariant) (cnt : Nat) : Stays invariant (freeMapAllocate cnt) := by
  apply Preserves.get.bind
  intro fs holds
  split
  · exact .done
  · apply (Preserves.set (stable.freeMap fs _ fs.panics holds)).next
    intro _
    split
    · exact .done
    · apply (stable.bitmapWrite _).next
      intro success
      apply Preserves.ite (fun _ => .done) fun _ => ?_
      apply Preserves.next _ fun _ => .done
      apply Preserves.modify
      intro fs holds
      exact stable.freeMap fs _ fs.panics holds

theorem freeMapRelease (stable : Stable long invariant) (sector : Sector) (cnt : Nat) :
    Stays invariant (freeMapRelease sector cnt) := by
  apply Preserves.get.bind
  intro fs holds
  apply Preserves.ite (fun _ => ?_) fun _ => .fault
  apply (Preserves.set (stable.freeMap fs _ _ holds)).next
  intro _
  split
  · exact .fault
  · exact (stable.bitmapWrite _).next fun _ => .done

theorem inodeWriteAt (stable : Stable long invariant) (addr : Addr) (buffer : List UInt8) (offset : Int) :
    Stays invariant (inodeWriteAt addr buffer offset) :=
  stable.inodeWriteAtWith (stable.freeMapAllocate 1) addr buffer offset

theorem inodeCreate (stable : Stable long invariant) (sector : Sector) (length : Int) (isDir : Bool) :
    Stays invariant (inodeCreate sector length isDir) := by
  apply (stable.inodeReserve (stable.freeMapAllocate 1) _ _).stays.next
  intro (success, diskInode)
  apply Preserves.ite (fun _ => ?_) fun _ => .done
  exact (stable.bufferCacheWrite _ _).next fun _ => .done

end Stable

end Comp310.Fs
