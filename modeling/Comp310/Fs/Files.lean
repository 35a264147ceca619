import Comp310.Fs.Access
import Comp310.Fs.Positions

/-! Writing and closing the inode of a file that has a name. -/

namespace Comp310.Fs
open Comp310.Lib

/-- What a write of `buffer` at `start` leaves of the file in `sector` and of everything else. -/
structure FileWritten (fs fs' : FileSystem) (sector : Sector) (start : Nat) (buffer : List UInt8) (ok : Bool) : Prop where
  volume : Volume fs'
  keeps : Keeps (· = sector) fs fs'
  opens : ∀ addr other, OpenAt fs' addr other ↔ OpenAt fs addr other
  dirs : fs'.dirs = fs.dirs
  cwd : fs'.cwd = fs.cwd
  slots : slots fs' = slots fs
  root : curData fs' 1 = curData fs 1
  rootMap : blockAt fs'.disk.view (curData fs' 1) = blockAt fs.disk.view (curData fs 1)
  length : (curData fs' sector).length =
    if ok then max (curData fs sector).length ((start + buffer.length : Nat) : Int) else (curData fs sector).length
  bytes : ∀ i < 8517120, fileByte fs'.disk.view (curData fs' sector) i =
    if ok = true ∧ start ≤ i ∧ i < start + buffer.length then buffer.getD (i - start) 0
    else fileByte fs.disk.view (curData fs sector) i
  mono : ∀ other, Used fs other → Used fs' other
  size : fs'.freeMap.length = fs.freeMap.length
  count : freeCount fs' = freeCount fs - (shortOf fs (curData fs sector) (start + buffer.length : Nat)).length
  mapInode : ok = true → fs'.disk.view 0 = fs.disk.view 0
  unspoiled : (shortOf fs (curData fs sector) (start + buffer.length : Nat))[freeCount fs]? ≠ some true →
    fs'.disk.view 0 = fs.disk.view 0
  grows : Grows 0 (Used fs) (Used fs') (blockAt fs.disk.view (curData fs sector)) (blockAt fs'.disk.view (curData fs' sector))
  tight : ok = true → ∀ p, ¬ p.first < bytesToSectors (start + buffer.length : Nat) →
    blockAt fs.disk.view (curData fs sector) p = 0 → blockAt fs'.disk.view (curData fs' sector) p = 0
  upToDate : UpToDate fs sector → (UpToDate fs' sector ↔ ok = true ∨
    ¬ PointsAnew (freeCount fs) (blockAt fs.disk.view (curData fs sector)) (bytesToSectors (start + buffer.length : Nat)))

/-- What closing the inode of a file leaves. -/
structure FileClosed (fs fs' : FileSystem) (sector : Sector) : Prop where
  volume : Volume fs'
  store : SameStore fs fs'
  fileTable : fs'.fileTable = fs.fileTable
  dirs : fs'.dirs = fs.dirs
  cwd : fs'.cwd = fs.cwd
  slots : slots fs' = slots fs
  root : curData fs' 1 = curData fs 1
  files : ∀ other, Live fs other → Alike fs fs' other
  opens : ∀ addr other, OpenAt fs' addr other ↔ OpenAt fs addr other ∧ other ≠ sector
  data : ∀ other, other ≠ sector → curData fs' other = curData fs other
  upToDate : UpToDate fs' sector
  claims : ∀ other place, Filled fs' (other, place) → Filled fs (other, place) ∧ claim fs' (other, place) = claim fs (other, place)

variable {fs fs' : FileSystem} {name : CString} {sector : Sector} {addr : Addr} {start : Nat} {buffer : List UInt8} {ok : Bool}
  {state : Option (Addr × Dir)} {pos written : Int}

theorem session_congr (dirs : fs'.dirs = fs.dirs) (cwd : fs'.cwd = fs.cwd)
    (opens : ∀ addr, OpenAt fs' addr 1 ↔ OpenAt fs addr 1) (session : Session fs state) : Session fs' state := by
  cases state with
  | none => exact ⟨cwd.trans session.1, dirs.trans session.2.1, fun addr opened => session.2.2 addr ((opens addr).mp opened)⟩
  | some pair =>
    obtain ⟨current, only, count, opened⟩ := session
    exact ⟨cwd.trans current, dirs.trans only, count, (opens _).mpr opened⟩

theorem FileWritten.session (wrote : FileWritten fs fs' sector start buffer ok) (session : Session fs state) : Session fs' state :=
  session_congr wrote.dirs wrote.cwd (fun addr => wrote.opens addr 1) session

theorem FileWritten.named (wrote : FileWritten fs fs' sector start buffer ok) : Named fs' = Named fs := named_congr wrote.slots

theorem FileWritten.live (wrote : FileWritten fs fs' sector start buffer ok) : Live fs' = Live fs := live_congr wrote.slots

/-- A write that fails changes no file, but may have reserved blocks for it. -/
theorem FileWritten.alike (wrote : FileWritten fs fs' sector start buffer false) (volume : Volume fs) (named : Named fs name sector) :
    Alike fs fs' sector := by
  have limit := (volume.objects.blocks.sound sector named.live).limit
  have notRoot := volume.root.plain name sector named
  have regular := volume.root.regular name sector named
  have regular' := wrote.volume.root.regular name sector (wrote.named ▸ named)
  refine ⟨by rw [wrote.length]; rfl, regular'.trans regular.symm, fun i inside => ?_⟩
  rw [wrote.bytes i (by omega), if_neg (by simp)]

private theorem file_of_write (volume : Volume fs) (named : Named fs name sector) {inode : Inode} (opened : (addr, inode) ∈ fs.openInodes)
    (home : inode.sector = sector) (wrote : WriteAt (Live fs) fs fs' addr inode start buffer ok) :
    FileWritten fs fs' sector start buffer ok := by
  subst home
  have was := volume.objects.blocks.handles.curData opened
  obtain ⟨_, _, nonzero, notRoot⟩ := volume.root.plain name _ named
  have objects := wrote.objects volume.objects opened
  have others (other : Sector) (there : Live fs other) (differs : other ≠ inode.sector) := wrote.others other there differs
  have root := others 1 Volume.root_live (Ne.symm notRoot)
  have slots := (root.alike (by decide)).slots
  have isDir : (curData fs' inode.sector).isDir = (curData fs inode.sector).isDir := by rw [wrote.isDir, was]
  refine ⟨⟨by rw [live_congr slots]; exact objects, volume.root.congr slots (root.alike (by decide)).length fun other there named' => ?_⟩,
    ⟨wrote.heap.freeMapFile, wrote.heap.fileTable, fun other there zero _ differs => (others other there differs).alike zero,
      fun _ _ _ _ => wrote.openAt, (others 0 (.inl rfl) (Ne.symm nonzero)).data,
      fun other there zero _ differs => (others other there differs).upToDate zero⟩, fun _ _ => wrote.openAt_iff, wrote.heap.dirs, wrote.heap.cwd, slots, root.data, root.blockAt,
    by rw [was]; exact wrote.length, by rw [was]; exact wrote.bytes, wrote.grows.mono, wrote.size, by rw [was]; exact wrote.count,
    wrote.mapInode, by rw [was]; exact wrote.unspoiled, by rw [was]; exact wrote.grows, by rw [was]; exact wrote.tight,
    by rw [was]; exact wrote.upToDate⟩
  by_cases mine : there = inode.sector
  · rw [mine]
    exact isDir
  · rw [(others there named'.live mine).data]

theorem writeFile_wp (volume : Volume fs) (named : Named fs name sector) (opened : OpenAt fs addr sector)
    (positive : 0 < buffer.length) (bound : start + buffer.length < 2147483648) :
    Wp (inodeWriteAt addr buffer start) (fun written fs' => ∃ ok : Bool,
      (ok = true ↔ Fits fs (curData fs sector) (start + buffer.length : Nat)) ∧ written = (if ok then (buffer.length : Int) else 0) ∧
      FileWritten fs fs' sector start buffer ok) fs := by
  obtain ⟨inode, member, home⟩ := opened
  have was := volume.objects.blocks.handles.curData member
  have nonzero := (volume.root.plain name sector named).2.2.1
  refine (inodeWriteAt_wp volume.objects.blocks member (by rw [home]; exact nonzero) positive bound).mono
    fun written fs' ⟨ok, fits, all, wrote⟩ => ⟨ok, ?_, all, file_of_write volume named member home wrote⟩
  rw [fits, ← home, was]

theorem writeFile_nothing (volume : Volume fs) (named : Named fs name sector) (opened : OpenAt fs addr sector)
    (empty : (curData fs sector).length = 0) :
    Wp (inodeWriteAt addr [] 0) (fun written fs' => written = 0 ∧ FileWritten fs fs' sector 0 [] true) fs := by
  obtain ⟨inode, member, home⟩ := opened
  have was := volume.objects.blocks.handles.curData member
  have nonzero := (volume.root.plain name sector named).2.2.1
  refine (inodeWriteAt_nothing volume.objects.blocks member (by rw [home]; exact nonzero) (by rw [← was, home]; exact empty)).mono
    fun written fs' ⟨nothing, wrote⟩ => ⟨nothing, file_of_write volume named member home wrote⟩

/-- Every write that returns, at whatever position: in full, or not at all. -/
theorem writeFile_result (volume : Volume fs) (named : Named fs name sector) (opened : OpenAt fs addr sector)
    (positive : 0 < buffer.length) (short : buffer.length < 2147483648) (low : -2147483648 ≤ pos) (high : pos < 2147483648)
    (ran : inodeWriteAt addr buffer pos fs = some (written, fs')) :
    (written = buffer.length ∧ 0 ≤ pos ∧ Fits fs (curData fs sector) (pos + buffer.length) ∧
      FileWritten fs fs' sector pos.toNat buffer true) ∨
    (written = 0 ∧ (0 < pos + buffer.length ∧ pos + buffer.length < 2147483648 ∧
        ¬ Fits fs (curData fs sector) (pos + buffer.length) ∧
        (∃ start' buffer', (start' + buffer'.length : Nat) = pos + buffer.length ∧ FileWritten fs fs' sector start' buffer' false) ∨
      (pos + buffer.length < 0 ∨ 2147483648 ≤ pos + buffer.length) ∧ fs' = fs)) := by
  obtain ⟨inode, member, home⟩ := id opened
  by_cases negative : pos < 0
  · obtain ⟨none_written, before | ⟨after, ran'⟩⟩ :=
      inodeWriteAt_negative volume.objects.blocks member negative low positive short ran
    · exact .inr ⟨none_written, .inr ⟨.inl before.1, before.2⟩⟩
    · have count : (buffer.take (pos + buffer.length).toNat).length = (pos + buffer.length).toNat := by
        rw [List.length_take]
        omega
      have low : 0 < (buffer.take (pos + buffer.length).toNat).length := by omega
      have runs := writeFile_wp volume named opened low (show 0 + _ < _ by omega)
      obtain ⟨ok, fits, all, wrote⟩ := runs.result ran'
      cases ok with
      | false =>
        rw [show ((0 + (buffer.take (pos + buffer.length).toNat).length : Nat) : Int) = pos + buffer.length by omega] at fits
        exact .inr ⟨none_written, .inl ⟨after, by omega, fun enough => absurd (fits.mpr enough) (by decide), 0, _, by omega, wrote⟩⟩
      | true =>
        simp only [if_true] at all
        omega
  · by_cases past : 2147483648 ≤ pos + buffer.length
    · have refused := inodeWriteAt_overrun volume.objects.blocks member (by omega) high short past
      cases refused.symm.trans ran
      exact .inr ⟨rfl, .inr ⟨.inr past, rfl⟩⟩
    · have start : pos = (pos.toNat : Int) := by omega
      have total : ((pos.toNat + buffer.length : Nat) : Int) = pos + buffer.length := by omega
      rw [start] at ran
      obtain ⟨ok, fits, all, wrote⟩ := (writeFile_wp volume named opened positive (by omega)).result ran
      rw [total] at fits
      cases ok with
      | false =>
        exact .inr ⟨all, .inl ⟨by omega, by omega, fun enough => absurd (fits.mpr enough) (by decide), _, _, total, wrote⟩⟩
      | true => exact .inl ⟨all, by omega, fits.mp rfl, wrote⟩

theorem closeFile_wp (volume : Volume fs) (named : Named fs name sector) (opened : OpenAt fs addr sector) :
    Wp (inodeClose addr) (fun _ fs' => FileClosed fs fs' sector) fs := by
  obtain ⟨inode, member, rfl⟩ := opened
  obtain ⟨_, _, nonzero, notRoot⟩ := volume.root.plain name _ named
  have handles := volume.objects.blocks.handles
  obtain ⟨objects, alike⟩ := volume.objects.dropInode member nonzero
  obtain ⟨mine, others⟩ := handles.curData_dropInode member
  have slots := (alike 1 Volume.root_live).slots
  have claims (other : Sector) (place : Option InodePos) (filled : Filled (dropInode fs addr) (other, place)) :
      Filled fs (other, place) ∧ claim (dropInode fs addr) (other, place) = claim fs (other, place) := by
    by_cases same : other = inode.sector
    · subst same
      cases place with
      | none => exact ⟨filled_inode, rfl⟩
      | some p =>
        have saved := volume.objects.saved _ named.live nonzero
        have disk : (dropInode fs addr).disk = fs.disk := rfl
        rw [filled_place, mine, disk] at filled
        have kept := (saved.blockAt p).resolve_right filled
        rw [filled_place, claim, claim, mine, disk]
        exact ⟨kept ▸ filled, kept⟩
    · have same := dropInode_store.same (others other same)
      exact ⟨same.filled.mp filled, same.claim⟩
  refine Wp.of_eq (inodeClose_eq handles member) ⟨⟨by rw [live_congr slots]; exact objects,
    volume.root.congr slots (alike 1 Volume.root_live).length fun other there named' => (alike there named'.live).isDir⟩, dropInode_store,
    rfl, rfl, rfl, slots, others 1 (Ne.symm notRoot), alike, fun key other => ⟨?_, ?_⟩, others, mine.symm, claims⟩
  · rintro ⟨inode', there, rfl⟩
    obtain ⟨there, away⟩ := mem_dropInode.mp there
    refine ⟨⟨inode', there, rfl⟩, fun same => away ?_⟩
    exact congrArg Prod.fst (handles.same_sector there member same)
  · rintro ⟨⟨inode', there, rfl⟩, differs⟩
    refine ⟨inode', mem_dropInode.mpr ⟨there, fun same => differs ?_⟩, rfl⟩
    have same : (key, inode') = (addr, inode) := handles.same_addr there member same
    rw [(Prod.mk.inj same).2]

theorem FileClosed.session (closed : FileClosed fs fs' sector) (notRoot : sector ≠ 1) (session : Session fs state) : Session fs' state :=
  session_congr closed.dirs closed.cwd (fun addr => (closed.opens addr 1).trans ⟨And.left, fun opened => ⟨opened, Ne.symm notRoot⟩⟩) session

end Comp310.Fs
