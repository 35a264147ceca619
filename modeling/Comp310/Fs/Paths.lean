import Comp310.Fs.Access
import Comp310.Lib.Fields

/-! Paths of any number of components. `filesys_create` and `filesys_open` look at
the last one alone and take it for a name in the root directory; only
`filesys_remove` walks along the others. -/

namespace Comp310.Fs
open Comp310.Lib

variable {fs fs' : FileSystem} {path name token : CString} {sector : Sector}

section Tokens

theorem tokens_slash (before after : CString) : tokens (before ++ 47 :: after) = tokens before ++ tokens after := by
  unfold tokens
  rw [List.splitOn_append_cons_self, List.filter_append]

theorem tokens_single (nonempty : token ≠ []) (noSlash : 47 ∉ token) : tokens token = [token] := by
  unfold tokens
  rw [List.splitOn_eq_singleton noSlash]
  exact List.filter_eq_self.mpr fun t member => by
    rw [List.mem_singleton.mp member]
    exact decide_eq_true nonempty

/-- A token has no slash, and what it has is of the path. -/
theorem tokens_parts (member : token ∈ tokens path) : token ≠ [] ∧ 47 ∉ token ∧ ∀ x ∈ token, x ∈ path := by
  obtain ⟨part, nonempty⟩ := List.mem_filter.mp member
  exact ⟨of_decide_eq_true nonempty, splitOn_parts 47 path token part⟩

theorem tokens_directory (path : CString) : tokens (splitPathFilename path).1 = (tokens path).dropLast := by
  have join (parts : List CString) (plain : ∀ token ∈ parts, token ≠ [] ∧ 47 ∉ token) :
      tokens (parts.flatMap (· ++ [47])) = parts := by
    induction parts with
    | nil => rfl
    | cons token rest ih =>
      obtain ⟨nonempty, noSlash⟩ := plain token List.mem_cons_self
      rw [List.flatMap_cons, List.append_assoc, List.singleton_append, tokens_slash, tokens_single nonempty noSlash,
        ih fun later member => plain later (List.mem_cons_of_mem _ member)]
      rfl
  have joined := join (tokens path).dropLast fun token member =>
    ⟨(tokens_parts (List.dropLast_subset _ member)).1, (tokens_parts (List.dropLast_subset _ member)).2.1⟩
  unfold splitPathFilename
  dsimp only
  split
  · exact (tokens_slash [] _).trans joined
  · exact joined

end Tokens

section Walks

/-- What `dir_open_path` does with the directory that it has come to. -/
def unlessRemoved : Option Addr → M (Option Addr)
  | none => pure none
  | some curr => do
    let d ← getDir curr
    let inode ← getInode d.inode
    if inode.removed then do
      dirClose curr
      pure none
    else pure (some curr)

end Walks

section Lost
variable {dir : Addr} {d : Dir} {rest : List CString}

/-- The directory was freed, or its inode was. -/
def Lost (fs : FileSystem) (dir : Addr) : Prop := ∀ d, fs.dir? dir = some d → d.openCnt = 1 ∧ fs.inode? d.inode = none

theorem getInode_lost {addr : Addr} (lost : fs.inode? addr = none) : getInode addr fs = none := by
  rw [getInode, lost]
  rfl

theorem getDir_found (found : fs.dir? dir = some d) : getDir dir fs = some (d, fs) := by
  rw [getDir, found]
  rfl

theorem Lost.dirClose (lost : Lost fs dir) : dirClose dir fs = none := by
  cases found : fs.dir? dir with
  | none => exact run_bind_fault (show getDir dir fs = none by rw [getDir, found]; rfl) _
  | some d =>
    obtain ⟨one, gone⟩ := lost d found
    rw [Fs.dirClose, run_bind (getDir_found found), if_pos (by omega)]
    exact run_bind_fault (run_bind_fault (getInode_lost gone) _) _

theorem walkPath_nil (dir : Addr) : walkPath dir [] fs = some (some dir, fs) := rfl

theorem Lost.dirOpen (lost : Lost fs dir) (found : fs.dir? dir = some d) :
    Lost { fs with nextAddr := fs.nextAddr + 1, dirs := (fs.nextAddr, ⟨d.inode, 36, 1⟩) :: fs.dirs } dir := by
  intro other there
  change List.lookup dir ((fs.nextAddr, ⟨d.inode, 36, 1⟩) :: fs.dirs) = some other at there
  rw [List.lookup_cons] at there
  split at there
  · cases there
    exact ⟨rfl, (lost d found).2⟩
  · exact lost other there

theorem Lost.walk (lost : Lost fs dir) (rest : List CString) : (do
    let found ← walkPath dir rest
    unlessRemoved found) fs = none := by
  cases found : fs.dir? dir with
  | none =>
    have fault : getDir dir fs = none := by
      rw [getDir, found]
      rfl
    cases rest with
    | nil => exact (run_bind (walkPath_nil dir) _).trans (run_bind_fault fault _)
    | cons token rest => exact run_bind_fault (run_bind_fault (run_bind_fault fault _) _) _
  | some d =>
    have gone := getInode_lost (lost d found).2
    cases rest with
    | nil =>
      rw [run_bind (walkPath_nil dir), unlessRemoved, run_bind (getDir_found found)]
      exact run_bind_fault gone _
    | cons token rest =>
      apply run_bind_fault
      rw [walkPath]
      by_cases dot : token = [46]
      · have looked : dirLookup dir token fs = some (some d.inode, fs) := by
          rw [dirLookup, run_bind (getDir_found found), if_pos dot]
          rfl
        rw [run_bind looked]
        dsimp only
        rw [run_bind (show Fs.dirOpen d.inode fs = some (fs.nextAddr,
          { fs with nextAddr := fs.nextAddr + 1, dirs := (fs.nextAddr, ⟨d.inode, 36, 1⟩) :: fs.dirs }) from rfl)]
        exact run_bind_fault (lost.dirOpen found).dirClose _
      · apply run_bind_fault
        rw [dirLookup, run_bind (getDir_found found), if_neg dot]
        split
        · exact run_bind_fault (run_bind_fault gone _) _
        · apply run_bind_fault
          rw [lookup, run_bind (getDir_found found)]
          exact run_bind_fault (run_bind_fault gone _) _

end Lost

section Dots
variable {live : Sector → Prop} {dir : Addr} {d : Dir} {size : Int}

end Dots

end Comp310.Fs
