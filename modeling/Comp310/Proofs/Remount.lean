import Comp310.Fs.Runs
import Comp310.Fs.Mount

/-! `filesys_done` and a mount of the same device: the free map, the names and
the files come back as they were. -/

namespace Comp310.Proofs.Remount
open Comp310.Fs Comp310.Lib

variable {fs fs' : FileSystem} {device : Array Block} {bounded : device.size < 2 ^ 32} {name : CString} {sector : Sector}

/-- The free map's file is the one that was opened, and its inode is on the disk. -/
private structure Bootable (fs : FileSystem) : Prop where
  running : Running fs none
  stored : UpToDate fs 0
  mapFile : ∃ addr, fs.freeMapFile = some (fileOpen addr)

private theorem Bootable.step {command : Command} (bootable : Bootable fs) (effect : Effect fs fs' command)
    (running : Running fs' none) : Bootable fs' := by
  obtain ⟨_, stored, addr, home⟩ := bootable
  have still (view : fs'.disk.view 0 = fs.disk.view 0) (map : curData fs' 0 = curData fs 0) : UpToDate fs' 0 := by
    rw [UpToDate, view, map]
    exact stored
  cases effect with
  | created ran done => exact ⟨running, still done.mapInode ran.keeps.map, addr, ran.keeps.freeMapFile.trans home⟩
  | written done => exact ⟨running, still (done.mapInode rfl) done.map, addr, done.freeMapFile.trans home⟩
  | looked looked =>
    exact ⟨running, still (by rw [looked.store.disk]) (looked.data 0 (by decide)), addr, looked.store.freeMapFile.trans home⟩
  | removed done => exact ⟨running, still done.mapInode done.map, addr, done.freeMapFile.trans home⟩

private theorem bootable (succeeding : Succeeding device bounded fs) : Bootable fs := by
  induction succeeding with
  | formatted ran =>
    have formatted := filesysInit_formatted bounded ran
    exact ⟨formatted.running, formatted.stored, formatted.mapFile⟩
  | step _ valid _ ran success ih => exact ih.step (valid.effect ih.running ran success) (valid.running ih.running ran)

/-- The files of the table are open, each at an address of its own. -/
private structure Closable (entries : List (CString × File)) (fs : FileSystem) : Prop where
  handles : Handles fs
  apart : (entries.map (·.2.inode)).Nodup
  opened : ∀ entry ∈ entries, entry.2.denyWrite = false ∧ ∃ inode, (entry.2.inode, inode) ∈ fs.openInodes

private theorem freeFileTable_wp (entries : List (CString × File)) (closable : Closable entries fs) :
    Wp (freeFileTable entries) (fun _ fs' => fs'.disk = fs.disk) fs := by
  induction entries generalizing fs with
  | nil => exact wp_modify.mpr rfl
  | cons entry rest ih =>
    obtain ⟨name, file⟩ := entry
    obtain ⟨writable, inode, member⟩ := closable.opened (name, file) List.mem_cons_self
    have apart := closable.apart
    rw [List.map_cons, List.nodup_cons] at apart
    obtain ⟨addr, pos, denyWrite⟩ := file
    dsimp only at writable
    subst writable
    rw [freeFileTable, wp_bind]
    refine Wp.of_eq (fileClose_eq closable.handles member pos) ?_
    refine (ih ⟨closable.handles.dropInode, apart.2, fun entry there => ?_⟩).mono fun _ _ same => same
    obtain ⟨writable, inode', member'⟩ := closable.opened entry (List.mem_cons_of_mem _ there)
    refine ⟨writable, inode', mem_dropInode.mpr ⟨member', fun same => apart.1 ?_⟩⟩
    exact List.mem_map.mpr ⟨entry, there, same⟩

private theorem Bootable.closable (bootable : Bootable fs) {addr : Addr} (home : fs.freeMapFile = some (fileOpen addr)) :
    Closable fs.fileTable (dropInode fs addr) := by
  have running := bootable.running
  have blocks := running.volume.objects.blocks
  obtain ⟨file, inode, home', mapFile, zero, _⟩ := blocks.mapOpen
  cases home.symm.trans home'
  have opened (entry : CString × File) (there : entry ∈ fs.fileTable) : entry.2.denyWrite = false ∧
      ∃ sector, Named fs entry.1 sector ∧ OpenAt fs entry.2.inode sector := by
    obtain ⟨writable, _, _, home⟩ := running.table.entry entry.1 entry.2 (lookup_of_mem running.table.keys there)
    exact ⟨writable, home⟩
  refine ⟨blocks.handles.dropInode, ?_, fun entry there => ?_⟩
  · rw [List.Nodup, List.pairwise_map]
    have keys := List.pairwise_map.mp running.table.keys
    refine keys.imp_of_mem fun {first second} there there' apart same => apart ?_
    obtain ⟨_, sector, named, inode, member, rfl⟩ := opened first there
    obtain ⟨_, sector', named', inode', member', rfl⟩ := opened second there'
    have equal : (first.2.inode, inode) = (second.2.inode, inode') := blocks.handles.same_addr member member' same
    rw [(Prod.mk.inj equal).2] at named
    exact running.volume.root.injective named named'
  · obtain ⟨writable, sector, named, inode', member, rfl⟩ := opened entry there
    refine ⟨writable, inode', mem_dropInode.mpr ⟨member, fun same => ?_⟩⟩
    have equal : (entry.2.inode, inode') = (addr, inode) := blocks.handles.same_addr member mapFile same
    rw [(Prod.mk.inj equal).2] at named
    exact (running.volume.root.plain _ _ named).2.2.1 zero

/-- What a mount of the device brings back. -/
structure Restored (fs fs' : FileSystem) : Prop where
  freeMap : fs'.freeMap = fs.freeMap
  names : ∀ name, (∃ sector, Named fs' name sector) ↔ ∃ sector, Named fs name sector
  files : ∀ name sector sector', Named fs name sector → Named fs' name sector' →
    (curData fs' sector').length = (curData fs sector).length ∧ contentOf fs' sector' = contentOf fs sector

private theorem Bootable.remount (bootable : Bootable fs) : ∃ device after, ∃ bounded : device.size < 2 ^ 32, ∃ fs',
    filesysDone fs = some (device, after) ∧ filesysInit device bounded false = some fs' ∧ Restored fs fs' := by
  obtain ⟨addr, home⟩ := bootable.mapFile
  have objects := bootable.running.volume.objects
  have blocks := objects.blocks
  obtain ⟨file, inode, home', member, zero, _⟩ := blocks.mapOpen
  cases home.symm.trans home'
  have size := blocks.size
  have small := fs.disk.size_lt
  generalize device_eq : (Array.ofFn fun index : Fin fs.disk.size => fs.disk.view (UInt32.ofNat index)) = device
  have device_size : device.size = fs.disk.size := by rw [← device_eq, Array.size_ofFn]
  have bounded : device.size < 2 ^ 32 := by omega
  have closed : (dropInode fs addr).disk.close = some device := device_eq ▸ fs.disk.close_eq
  have done : Wp filesysDone (fun result _ => device = result) fs := by
    rw [filesysDone, wp_bind]
    refine Wp.of_eq (freeMapClose_eq blocks.handles home member) ?_
    rw [wp_bind, wp_get, closed]
    dsimp only
    rw [wp_bind]
    exact (freeFileTable_wp _ (bootable.closable home)).mono fun _ _ _ => (wp_pure _).mpr rfl
  obtain ⟨_, after, ran, rfl⟩ := done
  have view (other : Sector) (inside : other.toNat < fs.disk.size) :
      (blankFileSystem device bounded).disk.view other = fs.disk.view other := by
    change (Disk.mount device bounded).view other = _
    rw [Disk.mount_view]
    dsimp only
    rw [Array.getD_eq_getD_getElem?, Array.getElem?_eq_getElem (device_size ▸ inside), Option.getD_some]
    subst device_eq
    simp
  have length : (blankFileSystem device bounded).freeMap.length = fs.freeMap.length := by
    rw [show (blankFileSystem device bounded).freeMap = freeMapInit device.size from rfl, freeMapInit_length, device_size]
    omega
  have mounted : Wp freeMapOpen (fun _ fs' => Remounted (Live fs) fs (blankFileSystem device bounded) fs')
      (blankFileSystem device bounded) :=
    objects.freeMapOpen_wp rfl device_size view length rfl bootable.stored
  obtain ⟨_, fs', opened, remounted⟩ := mounted
  refine ⟨device, after, bounded, { fs' with fileTable := [] }, ran, ?_, ?_⟩
  · have enough : ¬ device.size < 2 := by
      have used := Used.inRange (blocks.used (1, none) Volume.root_live filled_inode)
      have one : claim fs (1, none) = 1 := rfl
      rw [one] at used
      have index : (1 : Sector).toNat = 1 := rfl
      omega
    rw [filesysInit, if_neg enough]
    have mounted : (do
        pure PUnit.unit
        freeMapOpen
        modify fun fs => { fs with fileTable := [] } : M PUnit) (blankFileSystem device bounded) =
        some (PUnit.unit, { fs' with fileTable := [] }) := by
      rw [run_bind opened]
      rfl
    simp only [Bool.false_eq_true, if_false]
    rw [mounted]
    rfl
  · have slots := (remounted.alike 1 Volume.root_live).slots
    have names : Named fs' = Named fs := named_congr slots
    refine ⟨remounted.freeMap, fun name => ?_, fun name sector sector' named named' => ?_⟩
    · exact Iff.of_eq (congrArg (fun named => ∃ sector, named name sector) names)
    · have named' : Named fs' name sector' := named'
      rw [names] at named'
      obtain rfl := bootable.running.volume.root.functional named named'
      have alike := remounted.alike _ named.live
      exact ⟨alike.length, alike.contentOf⟩

/-- After any successful commands, shutting down and mounting the device again loses nothing. -/
theorem remount_restores (succeeding : Succeeding device bounded fs) : ∃ device after, ∃ bounded : device.size < 2 ^ 32, ∃ fs',
    filesysDone fs = some (device, after) ∧ filesysInit device bounded false = some fs' ∧ Restored fs fs' :=
  (bootable succeeding).remount

/-- A file is there again after a shutdown and a mount. -/
theorem remount_restores_file : ∃ fs sector, Named fs [97] sector ∧ (curData fs sector).length = 5 ∧
    ∃ device after, ∃ bounded : device.size < 2 ^ 32, ∃ fs',
      filesysDone fs = some (device, after) ∧ filesysInit device bounded false = some fs' ∧ Restored fs fs' := by
  obtain ⟨fs, ran, formatted⟩ := filesysInit_format (by simp : (Array.replicate 400 zeros).size < 2 ^ 32)
    (formattable_small (by simp) (by simp))
  have plain : PlainName [97] := ⟨by decide, by decide, by decide, by decide, by decide⟩
  have needed : wanted (5 : Nat) = 1 := by
    rw [wanted_eq (by decide)]
    exact sectorsNeeded_eq (by decide)
  have count := formatted.count
  rw [Array.size_replicate, (mapBlocks_one (by decide) (by decide)).2, rootBlocks_eq] at count
  obtain ⟨_, fs', created, rfl, done⟩ := formatted.filesysCreate_wp plain (by decide)
    (show FileFits fs (5 : Nat) from ⟨by decide, by decide, by rw [needed]; omega⟩)
  obtain ⟨sector, done⟩ := done.done rfl
  have named : Named fs' [97] sector := (done.named [97] sector).mpr (.inr ⟨rfl, rfl⟩)
  have create : (Command.create [97] 5).run fs = some ((1, []), fs') := by
    have returned : fsutilCreate [97] 5 fs = some (1, fs') := by
      rw [fsutilCreate, if_neg (by decide)]
      exact run_bind created _
    exact run_bind returned _
  have valid : (Command.create [97] 5).Valid := ⟨plain, by simp, by simp⟩
  have forward : (Command.create [97] 5).Forward := ⟨by simp, by simp⟩
  exact ⟨fs', sector, named, by rw [done.fresh.length]; rfl,
    remount_restores ((Succeeding.formatted ran).step valid forward create rfl)⟩

end Comp310.Proofs.Remount
