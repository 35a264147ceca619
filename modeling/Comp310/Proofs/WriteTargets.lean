import Comp310.Fs.Paths
import Comp310.Fs.Shell
import Comp310.Proofs.ByteArray

/-! What a write through a path can change. Nothing between the name and the inode looks at what was opened: a path with
no last component is the root directory itself. -/

namespace Comp310.Proofs.WriteTargets
open Comp310.Fs Comp310.Lib Comp310.Proofs.ByteArray

/-- The same directory, and every file has its bytes but the one of this name. -/
structure Spares (fs fs' : FileSystem) (name : CString) : Prop where
  entries : slots fs' = slots fs
  files : ∀ other sector, Named fs other sector → other ≠ name → contentOf fs' sector = contentOf fs sector

/-- The path leads to no freed inode, and a write through it spares all but the file of its last component. -/
def Contained (path : CString) (buffer : List UInt8) (fs : FileSystem) : Prop :=
  (∃ found fs', openByFname path fs = some (found, fs')) ∧
    ∀ written fs', fsutilWrite path buffer fs = some (written, fs') → Spares fs fs' (splitPathFilename path).2

variable {fs middle fs' : FileSystem} {path name : CString} {sector : Sector} {file : File} {buffer : List UInt8}
  {device : Array Block} {bounded : device.size < 2 ^ 32}

theorem Spares.trans (first : Spares fs middle name) (second : Spares middle fs' name) : Spares fs fs' name :=
  ⟨second.entries.trans first.entries, fun other sector named differs =>
    (second.files other sector (named_congr first.entries ▸ named) differs).trans (first.files other sector named differs)⟩

private theorem unlisted (running : Running fs none) (other : ¬ PlainName (splitPathFilename path).2) : fs.fileTable.lookup path = none := by
  cases found : fs.fileTable.lookup path with
  | none => rfl
  | some file =>
    obtain ⟨_, _, _, sector, named, _⟩ := running.table.entry path file found
    have plain := (running.volume.root.plain path sector named).1
    rw [plain.split] at other
    exact absurd plain other

section Files

end Files

section Directory

end Directory

end Comp310.Proofs.WriteTargets
