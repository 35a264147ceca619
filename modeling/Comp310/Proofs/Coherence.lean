import Comp310.Fs.Shell

/-! Whether the inodes in memory are those of the disk. A failed extension gives
an inode pointers that are not written, and an index block for which there is no
sector is written over the inode of the free map. -/

namespace Comp310.Proofs.Coherence
open Comp310.Fs Comp310.Lib

/-- What is in memory of an open inode is what a read of its sector would bring. -/
def Coherent (fs : FileSystem) : Prop :=
  ∀ entry ∈ fs.openInodes, ∃ block, bufferCacheRead entry.2.sector fs = some (block, fs) ∧ entry.2.data = .ofBlock block

/-- With so many sectors free, a file of these blocks gets the size, or its inode is not touched in memory and the last
free sector does not go where an index block comes next. -/
def Spares (free : Nat) (map : InodePos → Sector) (size : Int) : Prop :=
  (size ≤ 8517120 ∧ (missingBlocks map (bytesToSectors size)).length ≤ free) ∨
    ¬ PointsAnew free map (bytesToSectors size) ∧ (missingBlocks map (bytesToSectors size))[free]? ≠ some true

def CommandSpares (fs : FileSystem) : Command → Prop
  | .create name isize => name.length < 255 → Unspoiled fs name (offsetT isize)
  | .write name buffer => ∀ sector, Named fs name sector → 0 < posOf fs name + buffer.length →
      posOf fs name + buffer.length < 2147483648 →
      Spares (freeCount fs) (blockAt fs.disk.view (curData fs sector)) (posOf fs name + buffer.length)
  | _ => True

/-- There is room for a file of this name and size, and for its entry. -/
def Creatable (fs : FileSystem) (name : CString) (size : Int) : Prop :=
  FileFits fs size ∧ ¬ BadName fs name ∧ (36 * slotFor fs + 36 : Nat) ≤ 8517120 ∧
    wanted size + 1 + (rootShort fs).length ≤ freeCount fs

/-- The blocks of a file that has just been made. -/
def exactly (numSectors : Nat) (p : InodePos) : Sector := if numSectors ≤ p.first then 0 else 1

/-- The file that `copy_in` makes is extended by one byte at most. -/
def CopySpares (fs : FileSystem) (name : CString) (source : List UInt8) : Prop :=
  let size := copyInSize (numFreeSectors fs) (offsetT source.length)
  CommandSpares fs (copyInCreate fs name source) ∧
    (Creatable fs name size → Spares (freeCount fs - (wanted size + 1 + (rootShort fs).length)) (exactly (bytesToSectors size))
      (hostBuffer source size.toNat ++ [0]).length)

def ShellSpares (fs : FileSystem) : Shell → Prop
  | .file command => CommandSpares fs command
  | .copyIn name (some source) => CopySpares fs name source
  | _ => True

/-- Besides, the names are plain and `recover` does not make inodes of what lies in free sectors. -/
def Careful (fs : FileSystem) (shell : Shell) : Prop := shell.Allowed fs ∧ ShellSpares fs shell

/-- The inodes of all objects but the root directory, which is closed between two commands. -/
private def Current (fs : FileSystem) : Prop := ∀ sector, Live fs sector → sector ≠ 1 → UpToDate fs sector

variable {fs fs' : FileSystem} {name : CString} {sector : Sector} {device : Array Block} {bounded : device.size < 2 ^ 32}

private theorem Current.coherent (current : Current fs) (running : Running fs none) : Coherent fs := by
  rintro ⟨addr, inode⟩ member
  have blocks := running.volume.objects.blocks
  have live := blocks.opens _ member
  have inside := blocks.service.bounded (blocks.used (inode.sector, none) live filled_inode)
  refine ⟨_, bufferCacheRead_eq inside, ?_⟩
  have notRoot : inode.sector ≠ 1 := fun root => running.session.2.2 addr ⟨inode, member, root⟩
  rw [← blocks.handles.curData member]
  exact (current inode.sector live notRoot).symm

private theorem Current.step (current : Current fs) (map : curData fs' 0 = curData fs 0) (view : fs'.disk.view 0 = fs.disk.view 0)
    (files : ∀ name sector, Named fs' name sector → UpToDate fs' sector) : Current fs' := by
  rintro sector (rfl | root | ⟨name, named⟩) notRoot
  · rw [UpToDate, map, view]
    exact current 0 (.inl rfl) (by decide)
  · exact absurd root notRoot
  · exact files name sector named

private theorem Current.named (current : Current fs) (running : Running fs none) (named : Named fs name sector) :
    UpToDate fs sector ∧ Live fs sector ∧ sector ≠ 0 ∧ sector ≠ 1 := by
  obtain ⟨_, _, nonzero, notRoot⟩ := running.volume.root.plain name sector named
  exact ⟨current sector named.live notRoot, named.live, nonzero, notRoot⟩

private theorem Current.browsed (current : Current fs) (running : Running fs none) (browsed : Browsed fs fs' none) : Current fs' := by
  refine current.step (browsed.data 0 (by decide)) (by rw [browsed.store.disk]) fun name sector named => ?_
  obtain ⟨stored, _, nonzero, notRoot⟩ := current.named running (browsed.named ▸ named)
  exact (browsed.store.same (browsed.data sector notRoot)).upToDate nonzero stored

private theorem Current.create (current : Current fs) (running : Running fs none) {size : Int} {success : Bool}
    (ran : CreateRan fs fs' none name size success) (unspoiled : success = true ∨ Unspoiled fs name size) : Current fs' := by
  have kept (other : CString) (sector : Sector) (named : Named fs other sector) : UpToDate fs' sector := by
    obtain ⟨stored, live, nonzero, notRoot⟩ := current.named running named
    exact ran.keeps.upToDate sector live nonzero notRoot id stored
  cases success with
  | true =>
    obtain ⟨sector, done⟩ := ran.done rfl
    refine current.step ran.keeps.map done.mapInode fun other there named => ?_
    rcases (done.named other there).mp named with before | ⟨_, rfl⟩
    · exact kept other there before
    · exact done.fresh.upToDate
  | false =>
    refine current.step ran.keeps.map (ran.unspoiled (unspoiled.resolve_left (by decide))) fun other there named => ?_
    exact kept other there (named_congr (ran.failed rfl).slots ▸ named)

private theorem Current.written (current : Current fs) (running : Running fs none) {start : Nat} {buffer : List UInt8} {ok : Bool}
    (written : Written fs fs' none name sector start buffer ok)
    (old : ok = true ∨ ¬ PointsAnew (freeCount fs) (blockAt fs.disk.view (curData fs sector)) (bytesToSectors (start + buffer.length : Nat)))
    (view : fs'.disk.view 0 = fs.disk.view 0) : Current fs' := by
  refine current.step written.map view fun other there named => ?_
  obtain ⟨stored, live, nonzero, notRoot⟩ := current.named running (named_congr written.slots ▸ named)
  by_cases mine : there = sector
  · exact mine ▸ (written.mine (mine ▸ stored)).mpr old
  · exact written.upToDate there live nonzero notRoot mine stored

private theorem Current.command {command : Command} (current : Current fs) (running : Running fs none) (valid : command.Valid)
    (spares : CommandSpares fs command) (ran : command.run fs = some (reply, fs')) : Current fs' := by
  have plain : PlainName command.name := valid.plain
  cases command with
  | create name isize =>
    dsimp only [Command.name] at plain
    obtain ⟨ran, _⟩ := run_pure ran
    by_cases long : 255 ≤ name.length
    · have refused := Option.some.inj ((fsutilCreate_refused long).symm.trans ran)
      exact (Prod.mk.inj refused).2 ▸ current
    · obtain ⟨_, success, _, created⟩ := (fsutilCreate_wp running plain isize (by omega)).result ran
      exact current.create running created (.inr (spares (by omega)))
  | write name buffer =>
    dsimp only [Command.name] at plain
    obtain ⟨ran, _⟩ := run_pure ran
    obtain ⟨positive, short⟩ := valid.buffer name buffer rfl
    rcases fsutilWrite_result running plain positive short ran with
      ⟨_, _, _, looked⟩ | ⟨_, _, sector, _, written⟩ | ⟨_, sector, named, ⟨low, high, short, start, buffer', total, written⟩ | ⟨_, looked⟩⟩
    · exact current.browsed running looked.browsed
    · exact current.written running written (.inl rfl) (written.mapInode rfl)
    · obtain ⟨old, due⟩ := (spares sector named low high).resolve_left short
      rw [← total] at old due
      exact current.written running written (.inr old) (written.unspoiled due)
    · exact current.browsed running looked.browsed
  | read name count =>
    dsimp only [Command.name] at plain
    have looked := (fsutilRead_unless running plain count).result ran
    exact current.browsed running looked.browsed
  | seek name offset =>
    obtain ⟨ran, _⟩ := run_pure ran
    obtain ⟨low, high⟩ := valid.offset name offset rfl
    exact current.browsed running ((fsutilSeek_wp running plain low high).result ran).1.browsed
  | size name =>
    obtain ⟨ran, _⟩ := run_pure ran
    exact current.browsed running ((fsutilSize_wp running plain).result ran).1.browsed
  | rm name =>
    obtain ⟨ran, _⟩ := run_pure ran
    rcases (fsutilRm_wp running plain).result ran with ⟨_, _, looked⟩ | ⟨_, sector, unlinked⟩
    · exact current.browsed running looked.browsed
    · refine current.step unlinked.map unlinked.mapInode fun other there named => ?_
      obtain ⟨before, differs⟩ := (unlinked.names other there).mp named
      obtain ⟨stored, live, nonzero, notRoot⟩ := current.named running before
      refine unlinked.upToDate there live nonzero notRoot (fun same => differs ?_) stored
      exact running.volume.root.injective before (same ▸ unlinked.named)

private theorem CreateDone.spares {size : Int} {bytes : Nat} (done : CreateDone fs fs' name size sector)
    (spares : Spares (freeCount fs - (wanted size + 1 + (rootShort fs).length)) (exactly (bytesToSectors size)) bytes) :
    Spares (freeCount fs') (blockAt fs'.disk.view (curData fs' sector)) bytes := by
  have same (p : InodePos) : exactly (bytesToSectors size) p = 0 ↔ blockAt fs'.disk.view (curData fs' sector) p = 0 := by
    rw [done.fresh.exact p, done.fresh.length, exactly]
    split <;> simp [*]
  have count := done.count
  rw [Spares, missingBlocks_congr same, PointsAnew.congr same] at spares
  rwa [show freeCount fs - (wanted size + 1 + (rootShort fs).length) = freeCount fs' by omega] at spares

private theorem copyInWrite_spares (running : Running fs none) (plain : PlainName name) {source : List UInt8}
    (spares : let size := copyInSize (numFreeSectors fs) (offsetT source.length)
      Creatable fs name size → Spares (freeCount fs - (wanted size + 1 + (rootShort fs).length)) (exactly (bytesToSectors size))
        (hostBuffer source size.toNat ++ [0]).length)
    (create : (copyInCreate fs name source).run fs = some ((1, []), fs')) : CommandSpares fs' (copyInWrite fs name source) := by
  intro sector named _ _
  dsimp only at spares
  obtain ⟨ran, _⟩ := run_pure create
  have short : name.length < 255 := by
    rcases Nat.lt_or_ge name.length 255 with short | long
    · exact short
    · cases (fsutilCreate_refused long).symm.trans ran
  obtain ⟨running', success, returned, created⟩ := (fsutilCreate_wp running plain _ short).result ran
  rw [copyInSize_offsetT] at created
  cases success with
  | false => cases returned
  | true =>
    obtain ⟨there, done⟩ := created.done rfl
    have able : Creatable fs name _ := created.outcome.mp rfl
    have absent (other : Sector) : ¬ Named fs name other := fun before => able.2.1 (.inr (.inr ⟨other, before⟩))
    obtain rfl := running'.volume.root.functional named ((done.named name there).mpr (.inr ⟨rfl, rfl⟩))
    have start : posOf fs' name = 0 := by
      rw [posOf, created.keeps.fileTable]
      exact running.posOf_missing absent
    rw [start, Int.zero_add]
    exact CreateDone.spares done (spares able)

private theorem Current.shell {shell : Shell} (current : Current fs) (running : Running fs none) (careful : Careful fs shell)
    (ran : shell.run fs = some (⟨⟩, fs')) : Current fs' := by
  obtain ⟨⟨valid, full⟩, spares⟩ := careful
  cases shell with
  | file command =>
    obtain ⟨_, ran⟩ := run_unit ran
    exact current.command running valid spares ran
  | ls =>
    obtain ⟨_, ran⟩ := run_unit ran
    exact current.browsed running ((fsutilLs_wp running).result ran).2
  | copyIn name source =>
    obtain ⟨_, ran⟩ := run_unit ran
    rcases copyIn_commands running valid ran with rfl | ⟨source, created, middle, rfl, create, rest⟩
    · exact current
    obtain ⟨creates, writes⟩ := spares
    have valid₁ : (copyInCreate fs name source).Valid := copyInCreate_valid valid
    have current₁ := current.command running valid₁ creates create
    have running₁ := valid₁.running running create
    rcases rest with rfl | ⟨rfl, written, fine, write⟩
    · exact current₁
    · exact current₁.command running₁ fine (copyInWrite_spares running valid writes create) write
  | copyOut name writable =>
    obtain ⟨_, ran⟩ := run_unit ran
    exact current.browsed running ((copyOut_unless running valid writable).result ran)
  | findFile pattern =>
    obtain ⟨_, ran⟩ := run_unit ran
    exact current.browsed running ((findFile_unless running pattern).result ran)
  | fragmentationDegree =>
    obtain ⟨_, ran⟩ := run_unit ran
    exact current.browsed running ((fragmentationDegree_unless running).result ran)
  | defragment =>
    obtain ⟨_, ran⟩ := run_unit ran
    obtain ⟨_, done⟩ := (defragment_wp running).result ran
    exact current.step done.map done.mapInode done.upToDate
  | recover flag =>
    obtain ⟨_, ran⟩ := run_unit ran
    exact current.browsed running ((recover_unless running fun zero => full (zero ▸ rfl)).result ran)

/-- In every run of careful commands the inodes in memory are those of the disk, in every state. -/
theorem inodes_coherent (reached : ShellReached Careful device bounded fs) : Coherent fs := by
  suffices kept : Running fs none ∧ Current fs from kept.2.coherent kept.1
  induction reached with
  | formatted ran =>
    have formatted := filesysInit_formatted bounded ran
    refine ⟨formatted.running, fun sector live notRoot => ?_⟩
    rcases live with rfl | root | ⟨name, named⟩
    · exact formatted.stored
    · exact absurd root notRoot
    · exact absurd named (formatted.unnamed name sector)
  | step _ may ran ih => exact ⟨may.1.running ih.1 ran, ih.2.shell ih.1 may ran⟩

theorem inodes_coherent_formatted : ∃ fs fs', filesysInit smallDevice smallDevice_size true = some fs ∧
    (Shell.file (.create [97] 0)).run fs = some (⟨⟩, fs') ∧ Coherent fs' := by
  obtain ⟨fs, fs', sector, ran, formatted, count, created, done, _⟩ :=
    smallDevice_create (show 0 ≤ 8517120 by decide) (by rw [wanted_eq (by decide)]; decide)
  have run : (Shell.file (.create [97] 0)).run fs = some (⟨⟩, fs') := run_bind (run_bind created _) _
  have size : offsetT (0 : Nat) = 0 := rfl
  have careful : Careful fs (.file (.create [97] 0)) := by
    refine ⟨⟨⟨plain_a, nofun, nofun⟩, nofun⟩, fun _ => ⟨fun _ _ => ?_, fun _ _ => ?_⟩⟩
    · have nothing : missingBlocks (fun _ => 0) (bytesToSectors (offsetT (0 : Nat))) = [] := by decide
      rw [nothing]
      nofun
    · rw [formatted.rootShort.1]
      nofun
  exact ⟨fs, fs', ran, run, inodes_coherent ((ShellReached.formatted ran).step careful run)⟩

/-- An extension for which the free sectors do not suffice leaves its blocks in memory only. -/
theorem failed_write_incoherent : ∃ fs fs₁ fs₂, filesysInit smallDevice smallDevice_size true = some fs ∧
    (Shell.file (.create [97] 0)).run fs = some (⟨⟩, fs₁) ∧
    (Shell.file (.write [97] (List.replicate 204800 65))).run fs₁ = some (⟨⟩, fs₂) ∧ ¬ Coherent fs₂ := by
  obtain ⟨fs, fs₁, sector, ran, formatted, count, created, done, running, table⟩ :=
    smallDevice_create (show 0 ≤ 8517120 by decide) (by rw [wanted_eq (by decide)]; decide)
  have run : (Shell.file (.create [97] 0)).run fs = some (⟨⟩, fs₁) := run_bind (run_bind created _) _
  generalize buffer_eq : List.replicate 204800 (65 : UInt8) = buffer
  have length : buffer.length = 204800 := by rw [← buffer_eq, List.length_replicate]
  have named : Named fs₁ [97] sector := (done.named [97] sector).mpr (.inr ⟨rfl, rfl⟩)
  have start : posOf fs₁ [97] = 0 := by
    rw [posOf, table]
    rfl
  obtain ⟨written, fs₂, wrote, ⟨_, missing, _⟩ | ⟨there, ok, fits, _, done', _⟩⟩ :=
    fsutilWrite_wp running plain_a (show 0 < buffer.length by omega) (by omega) (by omega)
  · exact absurd named (missing sector)
  obtain rfl := running.volume.root.functional named done'.named
  have free : freeCount fs₁ = 324 := by
    have before := done.count
    rw [formatted.rootShort.1, show wanted (0 : Nat) = 0 from wanted_eq (by decide), List.length_nil] at before
    omega
  have empty (p : InodePos) : blockAt fs₁.disk.view (curData fs₁ sector) p = 0 := by
    rw [done.fresh.exact p, done.fresh.length]
    exact Nat.zero_le _
  have sectors : bytesToSectors (204800 : Nat) = 400 := bytesToSectors_eq (by decide) (by decide)
  obtain rfl : ok = false := by
    cases ok with
    | false => rfl
    | true =>
      have short := (fits.mp rfl).2
      rw [start, length, shortOf, show ((0 : Int) + (204800 : Nat)) = (204800 : Nat) by rfl, sectors,
        missingBlocks_congr fun p => iff_of_true (empty p) (show (0 : Sector) = 0 from rfl)] at short
      have needed : (missingBlocks (fun _ => 0) 400).length = 404 := sectorsNeeded_eq (by decide)
      omega
  have stale : ¬ UpToDate fs₂ sector := by
    rw [done'.mine done.fresh.upToDate, start, terminated_length, length]
    rintro (all | old)
    · cases all
    · exact old (.inl ⟨by omega, .inl ⟨0, by decide, empty _⟩⟩)
  refine ⟨fs, fs₁, fs₂, ran, run, run_bind (run_bind wrote _) _, fun coherent => stale ?_⟩
  rcases open_or_closed fs₂ sector with ⟨⟨addr, inode⟩, member, rfl⟩ | closed
  · obtain ⟨block, read, same⟩ := coherent _ member
    have blocks := done'.running.volume.objects.blocks
    have inside := blocks.service.bounded (blocks.used (inode.sector, none) (blocks.opens _ member) filled_inode)
    cases (bufferCacheRead_eq inside).symm.trans read
    rw [UpToDate, blocks.handles.curData member]
    exact same.symm
  · rw [UpToDate, curData_closed closed]

end Comp310.Proofs.Coherence
