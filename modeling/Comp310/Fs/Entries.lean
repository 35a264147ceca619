import Comp310.Fs.Directories
import Comp310.Fs.Filesys

/-! Finding, adding and clearing an entry of the root directory while it is open. -/

namespace Comp310.Fs
open Comp310.Lib

/-- The entry that a new name goes to. -/
def slotFor (fs : FileSystem) : Nat := freeFrom 0 (slots fs)

/-- The blocks that the root directory is short of for one more name. -/
def rootShort (fs : FileSystem) : List Bool := shortOf fs (curData fs 1) (36 * slotFor fs + 36 : Nat)

/-- There is space for one more name. -/
def RootFits (fs : FileSystem) : Prop := Fits fs (curData fs 1) (36 * slotFor fs + 36 : Nat)

variable {live : Sector → Prop} {fs fs' : FileSystem} {dir addr : Addr} {d : Dir} {name : CString} {sector : Sector}
  {state : Option (Addr × Dir)} {inode : Inode}

section Sessions

theorem SameHeap.session (heap : SameHeap fs fs') (session : Session fs state) : Session fs' state := by
  cases state with
  | none => exact ⟨heap.cwd.trans session.1, heap.dirs.trans session.2.1, fun addr => by rw [OpenAt, heap.openInodes]; exact session.2.2 addr⟩
  | some pair =>
    obtain ⟨cwd, dirs, count, inode, opened, home⟩ := session
    exact ⟨heap.cwd.trans cwd, heap.dirs.trans dirs, count, inode, heap.openInodes ▸ opened, home⟩

section Writes
variable {start : Nat} {buffer : List UInt8} {ok : Bool}

theorem WriteAt.session (wrote : WriteAt live fs fs' addr inode start buffer ok) (session : Session fs state) :
    Session fs' state := by
  refine wrote.heap.session ?_
  cases state with
  | none => exact ⟨session.1, session.2.1, fun addr opened => session.2.2 addr (openAt_of_setData opened)⟩
  | some pair =>
    obtain ⟨cwd, dirs, count, opened⟩ := session
    exact ⟨cwd, dirs, count, openAt_setData opened⟩

end Writes

theorem Session.dirAt (session : Session fs (some (dir, d))) : DirAt fs dir d 1 := by
  obtain ⟨_, dirs, _, opened⟩ := session
  exact ⟨by simp [dirs], opened⟩

theorem Session.getDir (session : Session fs (some (dir, d))) : getDir dir fs = some (d, fs) := session.dirAt.getDir

theorem Session.root (session : Session fs (some (dir, d))) (blocks : Blocks live fs) :
    ∃ inode, (d.inode, inode) ∈ fs.openInodes ∧ inode.sector = 1 ∧ inode.data = curData fs 1 ∧ Readable fs inode.data :=
  session.dirAt.inMemory blocks

end Sessions

section Entries
variable (blocks : Blocks live fs) (session : Session fs (some (dir, d)))
include blocks session

theorem entriesOf_eq : entriesOf d.inode fs = some ((slots fs).length + 1, fs) := session.dirAt.entriesOf_eq blocks

theorem lookup_eq : lookup dir name fs = some (findFrom name 1 ((slots fs).drop 1), fs) := session.dirAt.lookup_eq blocks

/-- A name is added when it fits an entry, is new and the directory can hold it. -/
theorem dirAdd_wp (root : Root fs) :
    Wp (dirAdd dir name sector) (fun added fs' =>
      (name = [] ∨ 30 < name.length ∨ (∃ other, Named fs name other) → added = false ∧ fs' = fs) ∧
      (¬ (name = [] ∨ 30 < name.length ∨ ∃ other, Named fs name other) → ∃ inode, (d.inode, inode) ∈ fs.openInodes ∧
        inode.sector = 1 ∧ inode.data = curData fs 1 ∧ (added = true ↔ RootFits fs) ∧
        WriteAt live fs fs' d.inode inode (36 * slotFor fs) (DirEntry.bytes ⟨sector, strncpy name, true⟩) added)) fs := by
  have named : (∃ other, Named fs name other) ↔ findFrom name 1 ((slots fs).drop 1) ≠ none := by
    constructor
    · rintro ⟨other, named⟩ missing
      obtain ⟨_, _, found, _⟩ := (findFrom_named root other).mp named
      cases missing.symm.trans found
    · intro present
      obtain ⟨⟨e, ofs⟩, found⟩ := Option.ne_none_iff_exists'.mp present
      obtain ⟨j, low, there, _, used, same⟩ := findFrom_drop found
      exact ⟨e.inodeSector, j, e, low, there, used, same, rfl⟩
  rw [named]
  exact session.dirAt.dirAdd_wp blocks (by decide)

end Entries

end Comp310.Fs
