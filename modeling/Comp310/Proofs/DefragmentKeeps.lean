import Comp310.Fs.Shell

/-! `defragment` puts a NUL over the last byte of every file that it writes
again. The last byte of a file is a NUL to begin with: that of a new file is,
and a write puts one at the end of what it writes. -/

namespace Comp310.Proofs.DefragmentKeeps
open Comp310.Fs Comp310.Lib

/-- The write within `copy_in` is successful. -/
def CopyWritten (fs fs' : FileSystem) (name : CString) (source : List UInt8) : Prop :=
  ∃ middle reply, (copyInCreate fs name source).run fs = some ((1, []), middle) ∧
    (copyInWrite fs name source).run middle = some (reply, fs') ∧ (copyInWrite fs name source).Succeeds reply

/-- The states that successful commands and copies of host files that are not empty lead to. -/
inductive Reached (device : Array Block) (bounded : device.size < 2 ^ 32) : FileSystem → Prop where
  | formatted (ran : filesysInit device bounded true = some fs) : Reached device bounded fs
  | step (before : Reached device bounded fs) {command : Command} (valid : command.Valid) (forward : command.Forward)
      (ran : command.run fs = some (reply, fs')) (success : command.Succeeds reply) : Reached device bounded fs'
  | copied (before : Reached device bounded fs) (plain : PlainName name) (nonempty : source ≠ [])
      (ran : copyIn name (some source) fs = some (0, fs')) (inner : CopyWritten fs fs' name source) : Reached device bounded fs'

variable {fs fs' : FileSystem} {name : CString} {sector : Sector} {content bytes : List UInt8} {device : Array Block}
  {bounded : device.size < 2 ^ 32}

section Bytes

private theorem terminated_self : terminated content = content ↔ content.getD (content.length - 1) 0 = 0 := by
  rw [terminated]
  by_cases empty : content = []
  · subst empty
    exact iff_of_true rfl rfl
  · have positive := List.length_pos_iff.mpr empty
    rw [List.getD_eq_getElem?_getD, List.getElem?_eq_getElem (by omega), Option.getD_some]
    constructor
    · intro same
      have last : (content.set (content.length - 1) 0)[content.length - 1]? = some 0 := by
        rw [List.getElem?_set_self (by omega)]
      rw [same, List.getElem?_eq_getElem (by omega)] at last
      exact Option.some.inj last
    · intro last
      exact last ▸ List.set_getElem_self (by omega)

private theorem terminated_twice : terminated (terminated bytes) = terminated bytes := by
  rw [terminated, terminated_length, terminated, List.set_set]

private theorem terminated_overwrite {pos : Nat} (positive : 0 < bytes.length) (before : terminated content = content)
    (written : terminated bytes = bytes) : terminated (overwrite content pos bytes) = overwrite content pos bytes := by
  rw [terminated_self] at before written ⊢
  rw [overwrite_getD, overwrite_length positive]
  rcases Nat.lt_or_ge (pos + bytes.length) content.length with inner | last
  · rw [if_neg (by omega), Nat.max_eq_left (Nat.le_of_lt inner)]
    exact before
  · rw [if_pos (by omega), Nat.max_eq_right last, show pos + bytes.length - 1 - pos = bytes.length - 1 by omega]
    exact written

end Bytes

/-- Every file ends in a NUL, or is empty. -/
private def Ended (fs : FileSystem) : Prop := ∀ name sector, Named fs name sector → terminated (contentOf fs sector) = contentOf fs sector

private theorem CreateDone.ended {size : Int} (done : CreateDone fs fs' name size sector) (nonneg : 0 ≤ size) :
    terminated (contentOf fs' sector) = contentOf fs' sector := by
  obtain ⟨bytes, rfl⟩ := Int.eq_ofNat_of_zero_le nonneg
  rw [terminated_self, done.fresh.contentOf]
  rw [List.getD_eq_getElem?_getD, List.getElem?_replicate]
  split <;> rfl

private theorem Ended.step {command : Command} (ended : Ended fs) (running : Running fs none) (valid : command.Valid)
    (effect : Effect fs fs' command) : Ended fs' := by
  have kept {name : CString} {sector : Sector} (named : Named fs name sector) (alike : Alike fs fs' sector) :
      terminated (contentOf fs' sector) = contentOf fs' sector := by
    rw [alike.contentOf]
    exact ended name sector named
  intro other there named'
  cases effect with
  | created ran done =>
    rcases (done.named other there).mp named' with named | ⟨_, rfl⟩
    · obtain ⟨_, _, nonzero, notRoot⟩ := running.volume.root.plain other there named
      exact kept named (ran.keeps.files there named.live nonzero notRoot id)
    · exact CreateDone.ended done (ran.outcome.mp rfl).1.1
  | @written name buffer sector start done fits =>
    have named : Named fs other there := named_congr done.slots ▸ named'
    obtain ⟨_, _, nonzero, notRoot⟩ := running.volume.root.plain other there named
    by_cases mine : there = sector
    · subst mine
      have positive : 0 < (terminated buffer).length := by
        rw [terminated_length]
        exact (valid.buffer name buffer rfl).1
      rw [done.contentOf running positive]
      exact terminated_overwrite positive (ended other there named) terminated_twice
    · exact kept named (done.files there named.live nonzero notRoot mine)
  | looked looked =>
    have named : Named fs other there := looked.named ▸ named'
    exact kept named (looked.alike (running.volume.root.plain other there named).2.2.2)
  | removed done =>
    obtain ⟨named, differs⟩ := (done.names other there).mp named'
    obtain ⟨_, _, nonzero, notRoot⟩ := running.volume.root.plain other there named
    refine kept named (done.files there named.live nonzero notRoot fun same => differs ?_)
    exact running.volume.root.injective named (same ▸ done.named)

/-- `copy_in` is a create and a write, and both succeed. -/
private theorem Ended.copied {source : List UInt8} (ended : Ended fs) (running : Running fs none) (plain : PlainName name)
    (ran : copyIn name (some source) fs = some (0, fs')) (inner : CopyWritten fs fs' name source) : Running fs' none ∧ Ended fs' := by
  obtain ⟨middle, reply, create, write, success⟩ := inner
  have valid : (copyInCreate fs name source).Valid := copyInCreate_valid plain
  have running₁ := valid.running running create
  have ended₁ := ended.step running valid (valid.effect running create rfl)
  rcases copyIn_commands running plain ran with rfl | ⟨_, _, _, same, create', rest⟩
  · exact ⟨running, ended⟩
  · cases same
    cases create.symm.trans create'
    rcases rest with rfl | ⟨_, written, fine, _⟩
    · exact ⟨running₁, ended₁⟩
    · exact ⟨fine.running running₁ write, ended₁.step running₁ fine (fine.effect running₁ write success)⟩

private theorem Reached.ended (reached : Reached device bounded fs) : Running fs none ∧ Ended fs := by
  induction reached with
  | formatted ran =>
    have formatted := filesysInit_formatted bounded ran
    exact ⟨formatted.running, fun name sector named => absurd named (formatted.unnamed name sector)⟩
  | step _ valid _ ran success ih => exact ⟨valid.running ih.1 ran, ih.2.step ih.1 valid (valid.effect ih.1 ran success)⟩
  | copied _ plain _ ran inner ih => exact ih.2.copied ih.1 plain ran inner

/-- The same names, with the same bytes, in the same number of sectors. -/
structure Kept (fs fs' : FileSystem) : Prop where
  names : ∀ name, (∃ sector, Named fs' name sector) ↔ ∃ sector, Named fs name sector
  files : ∀ name sector sector', Named fs name sector → Named fs' name sector' →
    (curData fs' sector').length = (curData fs sector).length ∧ contentOf fs' sector' = contentOf fs sector
  free : numFreeSectors fs' = numFreeSectors fs

theorem defragment_keeps (reached : Reached device bounded fs) : ∃ fs', defragment fs = some (0, fs') ∧ Kept fs fs' := by
  obtain ⟨running, ended⟩ := reached.ended
  obtain ⟨_, fs', ran, rfl, done⟩ := defragment_wp running
  refine ⟨fs', ran, done.names, fun name sector sector' named named' => ?_, ?_⟩
  · have content : contentOf fs' sector' = contentOf fs sector :=
      (done.content name sector sector' named named').trans (ended name sector named)
    have length := (contentOf_length running named.live).1
    have length' := (contentOf_length done.running named'.live).1
    rw [content] at length'
    exact ⟨length'.symm.trans length, content⟩
  · rw [numFreeSectors, numFreeSectors, bitmapCount_all, bitmapCount_all]
    exact done.count

theorem defragment_keeps_file : ∃ fs fs' fs'', filesysInit smallDevice smallDevice_size true = some fs ∧
    fsutilCreate [97] 5 fs = some (1, fs') ∧ defragment fs' = some (0, fs'') ∧ Kept fs' fs'' := by
  have needed : wanted (5 : Nat) < 325 := by
    rw [wanted_eq (by decide), sectorsNeeded_eq (by decide)]
    decide
  obtain ⟨fs, fs', _, ran, _, _, created, _⟩ := smallDevice_create (show 5 ≤ 8517120 by decide) needed
  have run : (Command.create [97] 5).run fs = some ((1, []), fs') := run_bind created _
  have valid : (Command.create [97] 5).Valid := ⟨plain_a, nofun, nofun⟩
  obtain ⟨fs'', defragmented, kept⟩ := defragment_keeps ((Reached.formatted ran).step valid ⟨nofun, nofun⟩ run rfl)
  exact ⟨fs, fs', fs'', ran, created, defragmented, kept⟩

end Comp310.Proofs.DefragmentKeeps
