import Comp310.Fs.Shell

/-! What a failed `fsutil_create` or `fsutil_write` leaves behind: never a change
of a file or of the directory, but blocks that no file will give back. -/

namespace Comp310.Proofs.FailedCommands
open Comp310.Fs Comp310.Lib

/-- Should the command fail, it does so before it has allocated a block: a create
with nothing but the inode's own sector, a write with nothing at all. -/
def Clean (fs : FileSystem) : Command → Prop
  | .create name isize => name.length < 255 →
      (¬ FileFits fs (offsetT isize) → wanted (offsetT isize) = 0 ∨ freeCount fs ≤ 1) ∧
      (FileFits fs (offsetT isize) → wanted (offsetT isize) = 0 ∧ (BadName fs name ∨ rootShort fs = [] ∨ freeCount fs ≤ 1))
  | .write name buffer => ∀ sector, Named fs name sector → 0 < posOf fs name + buffer.length →
      posOf fs name + buffer.length < 2147483648 →
      shortOf fs (curData fs sector) (posOf fs name + buffer.length) = [] ∨ freeCount fs = 0
  | _ => True

variable {fs fs' : FileSystem} {device : Array Block} {bounded : device.size < 2 ^ 32} {name : CString} {buffer : List UInt8}

private theorem Keeps.contentOf (keeps : Keeps (fun _ => False) fs fs') (running : Running fs none) (named : Named fs name sector) :
    contentOf fs' sector = contentOf fs sector := by
  obtain ⟨_, _, nonzero, notRoot⟩ := running.volume.root.plain name sector named
  exact (keeps.files sector named.live nonzero notRoot id).contentOf

end Comp310.Proofs.FailedCommands
