import Comp310.Fs.BlockMap
import Comp310.Fs.FreeMap

/-! What the operations below the level of files leave alone: everything but
the sectors they write and the bits they set or clear. -/

namespace Comp310.Fs
open Comp310.Lib

/-- The sector is in range and marked used in the free map. -/
def Used (fs : FileSystem) (sector : Sector) : Prop := fs.freeMap[sector.toNat]? = some true

def freeCount (fs : FileSystem) : Nat := fs.freeMap.count false

/-- The states differ in the disk and the free map at most. -/
structure SameHeap (fs fs' : FileSystem) : Prop where
  freeMapFile : fs'.freeMapFile = fs.freeMapFile
  openInodes : fs'.openInodes = fs.openInodes
  dirs : fs'.dirs = fs.dirs
  cwd : fs'.cwd = fs.cwd
  fileTable : fs'.fileTable = fs.fileTable
  nextAddr : fs'.nextAddr = fs.nextAddr
  panics : fs'.panics = fs.panics

/-- Every write since then went to a permitted sector. -/
structure Touches (permitted : Sector → Prop) (fs fs' : FileSystem) : Prop where
  size : fs'.disk.size = fs.disk.size
  writes : ∃ added, fs'.disk.written = added ++ fs.disk.written ∧ (∀ sector ∈ added, permitted sector) ∧
    ∀ sector, sector ∉ added → fs'.disk.view sector = fs.disk.view sector

variable {fs middle fs' : FileSystem} {permitted other : Sector → Prop} {sector : Sector}

theorem SameHeap.refl : SameHeap fs fs := ⟨rfl, rfl, rfl, rfl, rfl, rfl, rfl⟩

theorem SameHeap.trans (first : SameHeap fs middle) (second : SameHeap middle fs') : SameHeap fs fs' :=
  ⟨second.freeMapFile.trans first.freeMapFile, second.openInodes.trans first.openInodes,
    second.dirs.trans first.dirs, second.cwd.trans first.cwd, second.fileTable.trans first.fileTable,
    second.nextAddr.trans first.nextAddr, second.panics.trans first.panics⟩

theorem SameHeap.inode? (same : SameHeap fs fs') (addr : Addr) : fs'.inode? addr = fs.inode? addr := by
  simp only [FileSystem.inode?, same.openInodes]

theorem Touches.refl : Touches permitted fs fs := ⟨rfl, [], rfl, by simp, fun _ _ => rfl⟩

theorem Touches.mono (touches : Touches permitted fs fs') (wider : ∀ sector, permitted sector → other sector) :
    Touches other fs fs' := by
  obtain ⟨size, added, written, allowed, view⟩ := touches
  exact ⟨size, added, written, fun sector member => wider sector (allowed sector member), view⟩

theorem Touches.trans (first : Touches permitted fs middle) (second : Touches permitted middle fs') :
    Touches permitted fs fs' := by
  obtain ⟨size, added, written, allowed, view⟩ := first
  obtain ⟨size', added', written', allowed', view'⟩ := second
  refine ⟨size'.trans size, added' ++ added, by rw [written', written, List.append_assoc], ?_, ?_⟩
  · intro sector member
    rcases List.mem_append.mp member with late | early
    · exact allowed' sector late
    · exact allowed sector early
  · intro sector untouched
    rw [List.mem_append, not_or] at untouched
    rw [view' sector untouched.1, view sector untouched.2]

theorem Touches.view (touches : Touches permitted fs fs') (outside : ¬ permitted sector) :
    fs'.disk.view sector = fs.disk.view sector := by
  obtain ⟨_, added, _, allowed, view⟩ := touches
  exact view sector fun member => outside (allowed sector member)

theorem Used.inRange (used : Used fs sector) : sector.toNat < fs.freeMap.length := by
  unfold Used at used
  exact (List.getElem?_eq_some_iff.mp used).1

/-- A write to the disk, as all that the layers above see of it. -/
theorem wp_bufferCacheWrite {source : Block} {post : PUnit → FileSystem → Prop} (inside : sector.toNat < fs.disk.size)
    (holds : ∀ disk : Disk, (∀ other, disk.view other = if other = sector then source else fs.disk.view other) →
      disk.size = fs.disk.size → disk.written = sector :: fs.disk.written → post ⟨⟩ { fs with disk }) :
    Wp (bufferCacheWrite sector source) post fs := by
  obtain ⟨disk, ran, view, size, written⟩ := fs.disk.write_inside inside source
  exact ⟨⟨⟩, { fs with disk }, by simp [bufferCacheWrite, ran], holds disk (congrFun view) size written⟩

theorem Touches.write {disk : Disk} {source : Block} (allowed : permitted sector) (size : disk.size = fs.disk.size)
    (written : disk.written = sector :: fs.disk.written)
    (view : ∀ other, disk.view other = if other = sector then source else fs.disk.view other) :
    Touches permitted fs { fs with disk } := by
  refine ⟨size, [sector], written, by simpa using allowed, fun other untouched => ?_⟩
  rw [view]
  exact if_neg (by simpa using untouched)

end Comp310.Fs
