import Comp310.Fs.Paths
import Comp310.Fs.Runs

/-! What a path names to the commands that create, open and remove. -/

namespace Comp310.Proofs.PathNames
open Comp310.Fs Comp310.Lib

/-- The path was opened, and is now the last entry of the table. -/
structure Listed (fs fs' : FileSystem) (path : CString) (sector : Sector) (file : File) : Prop where
  volume : Volume fs'
  session : Session fs' none
  slots : slots fs' = slots fs
  opened : OpenAt fs' file.inode sector
  table : fs'.fileTable = fs.fileTable ++ [(path, file)]
  writable : file.denyWrite = false

variable {fs middle fs' : FileSystem} {path name first : CString} {rest : List CString} {sector : Sector} {file : File}
  {isize : Nat}

theorem getFileByFname_eq (fname : CString) : getFileByFname fname fs = some (fs.fileTable.lookup fname, fs) := rfl

section Sizes
variable (volume : Volume fs) (session : Session fs none) (unlisted : fs.fileTable.lookup path = none)
  (last : (splitPathFilename path).2 = name) (plain : PlainName name)
include volume session unlisted last plain

end Sizes

theorem Listed.removeFromFileTable (listed : Listed fs fs' path sector file) (unlisted : fs.fileTable.lookup path = none)
    (named : Named fs name sector) : ∃ after, removeFromFileTable path fs' = some (true, after) ∧ Volume after ∧
      Session after none ∧ Fs.slots after = Fs.slots fs ∧ after.fileTable = fs.fileTable := by
  have named' : Named fs' name sector := named_congr listed.slots ▸ named
  have notRoot := (listed.volume.root.plain name sector named').2.2.2
  obtain ⟨_, closed, ran, done⟩ := closeFile_wp listed.volume named' listed.opened
  have found : fs'.fileTable.lookup path = some file := by
    rw [listed.table, lookup_add unlisted, if_pos rfl]
  have closing : fileClose file fs' = some (⟨⟩, closed) := by
    rw [fileClose, fileAllowWrite, listed.writable, if_neg (by decide)]
    exact ran
  refine ⟨{ closed with fileTable := closed.fileTable.eraseP fun entry => entry.1 == path }, ?_, done.volume.withTable _,
    (done.session notRoot listed.session).withTable _, done.slots.trans listed.slots, ?_⟩
  · rw [Fs.removeFromFileTable, run_bind (getFileByFname_eq path), found]
    dsimp only
    rw [run_bind closing]
    rfl
  · dsimp only
    rw [done.fileTable, listed.table, List.eraseP_append_right]
    · simp
    · intro entry member
      have other := lookup_none.mp unlisted entry member
      simpa using other

/-- After an open file is closed the rest of `fsutil_rm` is done with the path. -/
theorem Listed.fsutilRm (listed : Listed fs fs' path sector file) (unlisted : fs.fileTable.lookup path = none)
    (named : Named fs name sector) : ∃ middle, Volume middle ∧ Session middle none ∧ Fs.slots middle = Fs.slots fs ∧
      middle.fileTable = fs.fileTable ∧ Fs.fsutilRm path fs' = (do
        let removed ← filesysRemove path
        pure (if removed then 1 else 0)) middle := by
  obtain ⟨middle, ran, volume, session, slots, table⟩ := listed.removeFromFileTable unlisted named
  refine ⟨middle, volume, session, slots, table, ?_⟩
  rw [Fs.fsutilRm, run_bind ran]

section Example

end Example

end Comp310.Proofs.PathNames
