import Comp310.Fs.ElemBits
import Comp310.Fs.Reports

/-! What `recover(0)` does, round after round: a free sector that looks like an inode is taken for one, a run of sectors
from it on is marked, and its name goes to the root directory. -/

namespace Comp310.Fs
open Comp310.Lib

/-- The check that `recover` makes of what it takes for an inode. -/
def Recoverable (data : InodeDisk) (sector : Sector) : Prop := 0 < data.length ∧ wordByte data.isDir 0 ≠ 1 ∧ 0 < sector

instance {data : InodeDisk} {sector : Sector} : Decidable (Recoverable data sector) := inferInstanceAs (Decidable (_ ∧ _ ∧ _))

/-- The sector is one of those that are marked for the inode at `start`: as many as its file has data sectors. -/
def InRun (fs : FileSystem) (start sector : Nat) : Prop :=
  start ≤ sector ∧ sector < start + ((curData fs (UInt32.ofNat start)).length.toNat + 511) / 512

instance {fs : FileSystem} {start sector : Nat} : Decidable (InRun fs start sector) := inferInstanceAs (Decidable (_ ∧ _))

/-- The sectors before `i` that are taken for inodes: free ones that pass the check and are in the run of none before. -/
def takenUp (fs : FileSystem) : Nat → List Nat
  | 0 => []
  | i + 1 =>
    if bitmapTest fs.freeMap i = false ∧ Recoverable (curData fs (UInt32.ofNat i)) (UInt32.ofNat i) ∧
      ∀ start ∈ takenUp fs i, ¬ InRun fs start i then takenUp fs i ++ [i] else takenUp fs i

def recoveredName (i : Nat) : CString := cstring "recovered0-" ++ decimal i

/-- Those of them that get a name; a name that is there already is not added. -/
def addedAgain (fs : FileSystem) (i : Nat) : List Nat := (takenUp fs i).filter fun start => decide (recoveredName start ∉ names fs)

/-- Name and run have their place in memory. -/
def FitsBuffers (fs : FileSystem) (start : Nat) : Prop :=
  start < 1000 ∧ start + ((curData fs (UInt32.ofNat start)).length.toNat + 511) / 512 ≤ 8 * bitmapFileSize fs.freeMap

/-- The entries of the root directory that a name can go to. -/
def unusedSlots (fs : FileSystem) : Nat := (slots fs).countP fun e => !e.inUse

/-- The inodes in memory have addresses and sectors of their own, and what is taken for the root directory is that. -/
structure Handled (fs : FileSystem) : Prop where
  addrs : (fs.openInodes.map (·.1)).Nodup
  sectors : (fs.openInodes.map (·.2.sector)).Nodup
  below : ∀ entry ∈ fs.openInodes, entry.1 < fs.nextAddr
  writable : ∀ entry ∈ fs.openInodes, entry.2.sector = 1 → entry.2.denyWriteCnt = 0
  cwd : fs.cwd = none ∨ ∃ dir d, fs.cwd = some dir ∧ DirAt fs dir d 1

/-- The root directory can be read and written. -/
structure Usable (fs : FileSystem) : Prop where
  handled : Handled fs
  size : fs.freeMap.length ≤ fs.disk.size
  home : 1 < fs.disk.size
  readable : Readable fs (curData fs 1)
  distinct : Distinct (blockAt fs.disk.view (curData fs 1))
  parent : ∃ e, (slots fs)[0]? = some e ∧ e.inUse = true

/-- Sectors have been taken for inodes: their runs are marked, and names were added for some. -/
structure Recovering (fs fs' : FileSystem) (taken added : List Nat) : Prop where
  usable : Usable fs'
  fits : ∀ start ∈ taken, FitsBuffers fs start
  length : fs'.freeMap.length = fs.freeMap.length
  marked : ∀ k, bitmapTest fs'.freeMap k = true ↔ bitmapTest fs.freeMap k = true ∨ k < fs.freeMap.length ∧ ∃ start ∈ taken, InRun fs start k
  touches : Touches (DataSector fs.disk.view (curData fs 1)) fs fs'
  home : curData fs' 1 = curData fs 1
  data : ∀ sector, ¬ DataSector fs.disk.view (curData fs 1) sector → curData fs' sector = curData fs sector
  map : blockAt fs'.disk.view (curData fs 1) = blockAt fs.disk.view (curData fs 1)
  named : ∀ name sector, Named fs' name sector ↔ Named fs name sector ∨
    ∃ start ∈ added, name = recoveredName start ∧ sector = UInt32.ofNat start
  unused : unusedSlots fs' + added.length = unusedSlots fs

/-- Inodes may have been opened, and the root directory. -/
structure Untouched (fs fs' : FileSystem) : Prop where
  handled : Handled fs'
  disk : fs'.disk = fs.disk
  freeMap : fs'.freeMap = fs.freeMap
  data : ∀ sector, curData fs' sector = curData fs sector

variable {fs middle fs' : FileSystem} {excused : Prop} {sector : Sector} {addr dir : Addr} {d : Dir} {inode : Inode} {name : CString}
  {i start : Nat}

section Memory

theorem Handled.inode? (handled : Handled fs) (member : (addr, inode) ∈ fs.openInodes) : fs.inode? addr = some inode :=
  lookup_of_mem handled.addrs member

theorem Handled.find (handled : Handled fs) (member : (addr, inode) ∈ fs.openInodes) :
    fs.openInodes.find? (fun entry => entry.2.sector == inode.sector) = some (addr, inode) := by
  cases found : fs.openInodes.find? fun entry => entry.2.sector == inode.sector with
  | none => exact absurd (List.find?_eq_none.mp found _ member) (by simp)
  | some entry =>
    have home := List.find?_some found
    have same : entry = (addr, inode) := unique_key handled.sectors (List.mem_of_find?_eq_some found) member (eq_of_beq home)
    rw [same]

theorem Handled.curData (handled : Handled fs) (member : (addr, inode) ∈ fs.openInodes) : Fs.curData fs inode.sector = inode.data := by
  rw [Fs.curData, handled.find member]

theorem Untouched.trans (first : Untouched fs middle) (second : Untouched middle fs') : Untouched fs fs' :=
  ⟨second.handled, second.disk.trans first.disk, second.freeMap.trans first.freeMap, fun sector => (second.data sector).trans (first.data sector)⟩

theorem Handled.untouched (handled : Handled fs) : Untouched fs fs := ⟨handled, rfl, rfl, fun _ => rfl⟩

theorem Untouched.slots (untouched : Untouched fs fs') : slots fs' = slots fs := by
  rw [Fs.slots, Fs.slots, untouched.disk, untouched.data 1]

theorem Handled.congr (handled : Handled fs) (openInodes : fs'.openInodes = fs.openInodes) (next : fs.nextAddr ≤ fs'.nextAddr)
    (cwd : fs'.cwd = none ∨ ∃ dir d, fs'.cwd = some dir ∧ fs'.dirs.lookup dir = some d ∧ OpenAt fs d.inode 1) : Handled fs' := by
  refine ⟨openInodes ▸ handled.addrs, openInodes ▸ handled.sectors, fun entry member => ?_, openInodes ▸ handled.writable, ?_⟩
  · exact Nat.lt_of_lt_of_le (handled.below entry (openInodes ▸ member)) next
  · obtain none | ⟨dir, d, some, found, inode, member, home⟩ := cwd
    · exact .inl none
    · exact .inr ⟨dir, d, some, found, inode, openInodes ▸ member, home⟩

theorem Handled.same (handled : Handled fs) (openInodes : fs'.openInodes = fs.openInodes) (next : fs'.nextAddr = fs.nextAddr)
    (cwd : fs'.cwd = fs.cwd) (dirs : fs'.dirs = fs.dirs) : Handled fs' := by
  refine handled.congr openInodes (Nat.le_of_eq next.symm) ?_
  obtain none | ⟨dir, d, some, found, opened⟩ := handled.cwd
  · exact .inl (cwd.trans none)
  · exact .inr ⟨dir, d, cwd.trans some, dirs ▸ found, opened⟩

theorem Untouched.memory (disk : fs'.disk = fs.disk) (freeMap : fs'.freeMap = fs.freeMap) (openInodes : fs'.openInodes = fs.openInodes)
    (handled : Handled fs') : Untouched fs fs' :=
  ⟨handled, disk, freeMap, fun sector => by rw [Fs.curData, openInodes, disk, Fs.curData]⟩

/-- The root directory is as usable with another free map and other inodes in memory. -/
theorem Usable.congr (usable : Usable fs) (handled : Handled fs') (disk : fs'.disk = fs.disk) (length : fs'.freeMap.length = fs.freeMap.length)
    (data : curData fs' 1 = curData fs 1) : Usable fs' := by
  obtain ⟨_, size, home, readable, distinct, parent⟩ := usable
  have readable' : Readable fs' (curData fs 1) := by
    obtain ⟨nonneg, limit, inRange, mapped⟩ := readable
    exact ⟨nonneg, limit, disk ▸ inRange, disk ▸ mapped⟩
  refine ⟨handled, by rw [length, disk]; exact size, by rw [disk]; exact home, data ▸ readable', by rw [disk, data]; exact distinct, ?_⟩
  rwa [slots, disk, data]

theorem Usable.untouched (usable : Usable fs) (untouched : Untouched fs fs') : Usable fs' :=
  usable.congr untouched.handled untouched.disk (congrArg List.length untouched.freeMap) (untouched.data 1)

theorem Handled.inodeOpen (handled : Handled fs) (inside : sector.toNat < fs.disk.size) :
    Wp (inodeOpen sector) (fun addr fs' => Untouched fs fs' ∧ OpenAt fs' addr sector) fs := by
  rcases open_or_closed fs sector with ⟨⟨addr, inode⟩, member, rfl⟩ | closed
  · have ran : Fs.inodeOpen inode.sector fs = some (addr, fs) := by
      rw [Fs.inodeOpen, run_bind (show (get : M FileSystem) fs = some (fs, fs) from rfl), handled.find member]
      rfl
    exact Wp.of_eq ran ⟨handled.untouched, inode, member, rfl⟩
  · refine Wp.of_eq (inodeOpen_closed closed inside) ⟨⟨⟨?_, ?_, fun entry member => ?_, fun entry member home => ?_, ?_⟩, rfl, rfl,
      curData_readIn closed⟩, _, List.mem_cons_self, rfl⟩
    · exact List.nodup_cons.mpr ⟨fun there => by
        obtain ⟨entry, member, same⟩ := List.mem_map.mp there
        exact Nat.ne_of_lt (handled.below entry member) same, handled.addrs⟩
    · exact List.nodup_cons.mpr ⟨fun there => by
        obtain ⟨entry, member, same⟩ := List.mem_map.mp there
        exact closed entry member same, handled.sectors⟩
    · rcases List.mem_cons.mp member with rfl | member
      · exact Nat.lt_succ_self _
      · exact Nat.lt_succ_of_lt (handled.below entry member)
    · rcases List.mem_cons.mp member with rfl | member
      · rfl
      · exact handled.writable entry member home
    · obtain cwd | ⟨dir, d, cwd, found, root, member, home⟩ := handled.cwd
      · exact .inl cwd
      · exact .inr ⟨dir, d, cwd, found, root, List.mem_cons_of_mem _ member, home⟩

theorem Handled.restore (handled : Handled fs) (addr : Addr) :
    Wp (modifyInode addr fun node => { node with removed := false }) (fun _ fs' => Untouched fs fs') fs := by
  rw [modifyInode, wp_modify]
  generalize back_eq : (fun entry : Addr × Inode => if entry.1 = addr then (addr, { entry.2 with removed := false }) else entry) = back
  have node (entry : Addr × Inode) : (back entry).1 = entry.1 ∧ (back entry).2.sector = entry.2.sector ∧
      (back entry).2.data = entry.2.data ∧ (back entry).2.denyWriteCnt = entry.2.denyWriteCnt := by
    rw [← back_eq]
    dsimp only
    split
    next same => exact ⟨same.symm, rfl, rfl, rfl⟩
    next => exact ⟨rfl, rfl, rfl, rfl⟩
  have sectors : (fs.openInodes.map back).map (·.2.sector) = fs.openInodes.map (·.2.sector) := by
    rw [List.map_map]
    exact List.map_congr_left fun entry _ => (node entry).2.1
  have addrs : (fs.openInodes.map back).map (·.1) = fs.openInodes.map (·.1) := by
    rw [List.map_map]
    exact List.map_congr_left fun entry _ => (node entry).1
  refine ⟨⟨addrs ▸ handled.addrs, sectors ▸ handled.sectors, fun entry there => ?_, fun entry there home => ?_, ?_⟩, rfl, rfl, fun sector => ?_⟩
  · obtain ⟨entry, member, rfl⟩ := List.mem_map.mp there
    exact (node entry).1.symm ▸ handled.below entry member
  · obtain ⟨entry, member, rfl⟩ := List.mem_map.mp there
    obtain ⟨_, same, _, denied⟩ := node entry
    exact denied.trans (handled.writable entry member (same.symm.trans home))
  · obtain cwd | ⟨dir, d, cwd, found, root, member, home⟩ := handled.cwd
    · exact .inl cwd
    · obtain ⟨key, same, _⟩ := node (d.inode, root)
      have there : (d.inode, (back (d.inode, root)).2) ∈ fs.openInodes.map back := List.mem_map.mpr ⟨_, member, Prod.ext key rfl⟩
      exact .inr ⟨dir, d, cwd, found, _, there, same.trans home⟩
  · have test : ((fun entry : Addr × Inode => entry.2.sector == sector) ∘ back) = fun entry => entry.2.sector == sector :=
      funext fun entry => congrArg (· == sector) (node entry).2.1
    rw [Fs.curData, Fs.curData, List.find?_map, test]
    cases fs.openInodes.find? fun entry => entry.2.sector == sector with
    | none => rfl
    | some entry => exact (node entry).2.2.1

theorem Handled.addToFileTable (handled : Handled fs) (file : File) (name : CString) :
    Wp (addToFileTable file name) (fun _ fs' => Untouched fs fs') fs := by
  have search : getFileByFname name fs = some (fs.fileTable.lookup name, fs) := rfl
  rw [Fs.addToFileTable, wp_bind]
  refine Wp.of_eq search ?_
  split
  next => exact (wp_pure _).mpr handled.untouched
  next =>
    rw [wp_modify]
    exact .memory rfl rfl rfl (handled.same rfl rfl rfl rfl)

theorem Handled.dirOpenRoot (handled : Handled fs) (home : 1 < fs.disk.size) :
    Wp dirOpenRoot (fun dir fs' => Untouched fs fs' ∧ ∃ d, DirAt fs' dir d 1) fs := by
  rw [Fs.dirOpenRoot, wp_bind, wp_get]
  obtain cwd | ⟨dir, d, cwd, there⟩ := handled.cwd
  · rw [cwd]
    dsimp only
    rw [wp_bind]
    refine (handled.inodeOpen (show rootDirSector.toNat < fs.disk.size from home)).mono ?_
    rintro addr fs₁ ⟨untouched, opened⟩
    simp only [dirOpen, newAddr, wp_bind, wp_get, wp_set, wp_modify, wp_pure]
    have handled₁ := untouched.handled
    refine ⟨untouched.trans (.memory rfl rfl rfl (handled₁.congr rfl (Nat.le_succ _) (.inr ⟨_, _, rfl, List.lookup_cons_self, opened⟩))),
      ⟨addr, 36, 1⟩, List.lookup_cons_self, opened⟩
  · rw [cwd]
    dsimp only
    rw [wp_bind]
    refine Wp.of_eq there.getDir ?_
    simp only [modifyDir, wp_bind, wp_modify, wp_pure]
    have found := (@lookup_change Addr Dir fs.dirs dir _ _ _ fun d => { d with openCnt := d.openCnt + 1 }).trans (congrArg (Option.map _) there.found)
    exact ⟨.memory rfl rfl rfl (handled.congr rfl (Nat.le_refl _) (.inr ⟨dir, _, cwd, found, there.opened⟩)), _, found, there.opened⟩

end Memory

section Marks

private theorem bitmapTest_mark (b : Bitmap) (idx k : Nat) :
    bitmapTest (b.set idx true) k = true ↔ bitmapTest b k = true ∨ k < b.length ∧ k = idx := by
  rw [bitmapTest_eq, bitmapTest_eq, List.getElem?_set]
  by_cases same : idx = k
  · subst same
    rw [if_pos rfl]
    by_cases inside : idx < b.length
    · simp [inside]
    · simp [inside]
  · rw [if_neg same]
    exact ⟨.inl, fun marked => marked.resolve_right fun other => same other.2.symm⟩

theorem bitmapTest_marks (b : Bitmap) (start cnt k : Nat) :
    bitmapTest (bitmapSetMultiple b start cnt true) k = true ↔ bitmapTest b k = true ∨ k < b.length ∧ start ≤ k ∧ k < start + cnt := by
  induction cnt with
  | zero => exact ⟨.inl, fun marked => marked.resolve_right fun none => by omega⟩
  | succ cnt ih =>
    rw [bitmapSetMultiple, bitmapTest_mark, ih, ElemBitmap.setMultiple_length, or_assoc]
    refine or_congr_right ⟨?_, fun within => ?_⟩
    · rintro (⟨inside, low, high⟩ | ⟨inside, rfl⟩)
      · exact ⟨inside, low, by omega⟩
      · exact ⟨inside, by omega⟩
    · by_cases last : k = start + cnt
      · exact .inr ⟨within.1, last⟩
      · exact .inl ⟨within.1, within.2.1, by omega⟩

private theorem markSectors_run {stop : Nat} (room : stop ≤ 8 * bitmapFileSize fs.freeMap) :
    markSectors i stop fs = some (⟨⟩, { fs with freeMap := bitmapSetMultiple fs.freeMap i (stop - i) true }) := by
  rw [markSectors, run_bind (show (get : M FileSystem) fs = some (fs, fs) from rfl), if_neg (Nat.not_lt.mpr room)]
  rfl

private theorem markSectors_fault {stop : Nat} (beyond : 8 * bitmapFileSize fs.freeMap < stop) : markSectors i stop fs = none := by
  rw [markSectors, run_bind (show (get : M FileSystem) fs = some (fs, fs) from rfl), if_pos beyond]
  rfl

theorem stop_eq {length : Int} (positive : 0 < length) :
    (if length.tmod 512 ≠ 0 then (i : Int) + (length.tdiv 512 + 1) else i + length.tdiv 512).toNat = i + (length.toNat + 511) / 512 := by
  obtain ⟨n, rfl⟩ := Int.eq_ofNat_of_zero_le (Int.le_of_lt positive)
  have rest : (n : Int).tmod 512 = ((n % 512 : Nat) : Int) := rfl
  have whole : (n : Int).tdiv 512 = ((n / 512 : Nat) : Int) := rfl
  rw [rest, whole]
  split <;> omega

theorem findFrom_names : findFrom name 1 ((slots fs).drop 1) = none ↔ name ∉ names fs := by
  rw [findFrom_none, names, namesIn, List.mem_map]
  constructor
  · rintro other ⟨e, member, same⟩
    obtain ⟨member, used⟩ := List.mem_filter.mp member
    exact other e member used same
  · intro missing e member used same
    exact missing ⟨e, List.mem_filter.mpr ⟨member, used⟩, same⟩

/-- A name is added when it is new and there is an entry for it, over what the entry held. -/
theorem Usable.dirAdd (usable : Usable fs) (there : DirAt fs dir d 1) (filled : name ≠ []) (short : name.length ≤ 30)
    (room : name ∉ names fs → 0 < unusedSlots fs) : Wp (dirAdd dir name sector) (fun _ fs' =>
      (name ∈ names fs → fs' = fs) ∧ (name ∉ names fs → slotFor fs < (slots fs).length ∧
        Wrote fs fs' (curData fs 1) (36 * slotFor fs) (DirEntry.bytes ⟨sector, strncpy name, true⟩))) fs := by
  obtain ⟨inode, member, home⟩ := there.opened
  have opened := usable.handled.inode? member
  have data : curData fs 1 = inode.data := home ▸ usable.handled.curData member
  have readable : Readable fs inode.data := data ▸ usable.readable
  have distinct : Distinct (blockAt fs.disk.view inode.data) := data ▸ usable.distinct
  have entries : slots fs = slotsOf fs.disk.view inode.data := by rw [slots, data]
  have length : (slots fs).length = inode.data.length.toNat / 36 := by rw [entries, slotsOf_length]
  have fuel : entriesOf d.inode fs = some ((slots fs).length + 1, fs) := by
    rw [entriesOf, run_bind (getInode_eq opened), length]
    rfl
  have search : lookup dir name fs = some (findFrom name 1 ((slots fs).drop 1), fs) := by
    have loop : lookupLoop d.inode name ((slots fs).length + 1) ((36 * 1 : Nat) : Int) fs = _ :=
      lookupLoop_eq opened readable ((slots fs).length + 1) 1 (by rw [← entries]; omega)
    rw [lookup, run_bind there.getDir, run_bind fuel, entries]
    rw [entries] at loop
    exact loop
  rw [Fs.dirAdd, wp_bind]
  refine Wp.of_eq there.getDir ?_
  rw [if_neg (not_or.mpr ⟨filled, Nat.not_lt.mpr short⟩), wp_bind]
  refine Wp.of_eq search ?_
  cases found : findFrom name 1 ((slots fs).drop 1) with
  | some pair =>
    have present : name ∈ names fs := Classical.byContradiction fun missing => by
      rw [findFrom_names.mpr missing] at found
      cases found
    exact (wp_pure _).mpr ⟨fun _ => rfl, fun missing => absurd present missing⟩
  | none =>
    have missing := findFrom_names.mp found
    obtain ⟨e, unused, free⟩ := List.countP_pos_iff.mp (room missing)
    obtain ⟨j, inside, here⟩ := List.mem_iff_getElem.mp unused
    have slot : slotFor fs < (slots fs).length := by
      have first := freeFrom_le (i := 0) (List.getElem?_eq_some_iff.mpr ⟨inside, here⟩) (by simpa using free)
      exact Nat.lt_of_le_of_lt first (by omega)
    have loop : freeSlotLoop d.inode ((slots fs).length + 1) 0 fs = some (((36 * slotFor fs : Nat) : Int), fs) := by
      have loop := freeSlotLoop_eq opened readable ((slots fs).length + 1) 0 (by rw [← entries]; omega)
      rw [List.drop_zero, ← entries] at loop
      exact loop
    dsimp only
    rw [wp_bind]
    refine Wp.of_eq fuel ?_
    rw [wp_bind]
    refine Wp.of_eq loop ?_
    rw [wp_bind, data]
    refine (inodeWriteAtWith_inside (freeMapAllocate 1) opened (usable.handled.writable _ member home) readable distinct
      (by rw [DirEntry.bytes_length]; decide) (by rw [DirEntry.bytes_length]; omega) :
      Wp (inodeWriteAt d.inode (DirEntry.bytes ⟨sector, strncpy name, true⟩) ((36 * slotFor fs : Nat) : Int)) _ fs).mono
      fun written fs' wrote => (wp_pure _).mpr ⟨fun present => absurd present missing, fun _ => ⟨slot, wrote.2⟩⟩

end Marks

section Names

theorem recoveredName_fits : (recoveredName i).length < 15 ↔ i < 1000 := by
  have digits : (decimal i).length ≤ 3 ↔ i < 1000 := by
    rw [decimal, List.length_map]
    exact Nat.length_toDigits_le_iff (by decide) (by decide)
  rw [recoveredName, List.length_append, show (cstring "recovered0-").length = 11 from rfl, ← digits]
  omega

theorem recoveredName_inj {j : Nat} (same : recoveredName i = recoveredName j) : i = j := decimal_inj (List.append_cancel_left same)

theorem recoveredName_entry (small : i < 1000) (sector : Sector) :
    DirEntry.fname ⟨sector, strncpy (recoveredName i), true⟩ = recoveredName i := by
  have short := recoveredName_fits.mpr small
  refine fname_strncpy sector true (fun zero => ?_) (by omega)
  rcases List.mem_append.mp zero with zero | zero
  · exact absurd zero (by decide)
  · obtain ⟨c, member, same⟩ := List.mem_map.mp zero
    have bounds := Char.isDigit_iff_toNat.mp (Nat.isDigit_of_mem_toDigits (by decide) (by decide) member)
    rw [show '0'.toNat = 48 from rfl, show '9'.toNat = 57 from rfl] at bounds
    have byte : c.toNat < 256 := by omega
    have value := congrArg UInt8.toNat same
    rw [UInt8.toNat_ofNat_of_lt' byte, show (0 : UInt8).toNat = 0 from rfl] at value
    omega

end Names

section Rounds

theorem Wrote.slotsOf {data : InodeDisk} {e : DirEntry} {j : Nat} (wrote : Wrote fs fs' data (36 * j) e.bytes) (limit : data.length ≤ 8517120)
    (inside : j < (Fs.slotsOf fs.disk.view data).length) : Fs.slotsOf fs'.disk.view data = (Fs.slotsOf fs.disk.view data).set j e := by
  have bytes := wrote.bytes
  rw [slotsOf_length] at inside
  rw [DirEntry.bytes_length] at bytes
  refine List.ext_getElem (by rw [List.length_set, slotsOf_length, slotsOf_length]) fun k below below' => ?_
  rw [slotsOf_length] at below
  simp only [List.getElem_set, Fs.slotsOf, List.getElem_map, List.getElem_range]
  by_cases same : j = k
  · subst same
    have written : fileRange fs'.disk.view data (36 * j) 36 = e.bytes := by
      refine bytes_ext ((fileRange_length _ _).trans e.bytes_length.symm) fun i below => ?_
      rw [fileRange_length] at below
      rw [fileRange_getD below, bytes _ (by omega), if_pos (by omega), Nat.add_sub_cancel_left]
    rw [if_pos rfl, slotAt, written, DirEntry.ofBytes_bytes]
  · rw [if_neg same, slotAt, slotAt, fileRange_congr]
    intro i low high
    rw [bytes i (by omega), if_neg (by omega)]

theorem Usable.put {e : DirEntry} (usable : Usable fs) (there : DirAt fs dir d 1) (slot : slotFor fs < (slots fs).length)
    (wrote : Wrote fs fs' (curData fs 1) (36 * slotFor fs) e.bytes) (used : e.inUse = true) :
    Usable fs' ∧ curData fs' 1 = curData fs 1 ∧ (∀ name sector, Named fs' name sector ↔ Named fs name sector ∨ name = e.fname ∧ sector = e.inodeSector) ∧
      unusedSlots fs' + 1 = unusedSlots fs := by
  obtain ⟨handled, size, home, readable, distinct, parent⟩ := usable
  obtain ⟨inode, member, root⟩ := there.opened
  have data : curData fs' 1 = curData fs 1 := by
    have found := handled.find member
    rw [root] at found
    rw [wrote.only, curData, curData, found]
  have entries : slots fs' = (slots fs).set (slotFor fs) e := by
    rw [slots, data]
    exact wrote.slotsOf readable.limit slot
  obtain ⟨first, there', used'⟩ := parent
  have free : ∀ e, (slots fs)[slotFor fs]? = some e → e.inUse = false := by
    have spec : _ ∧ _ ∧ ∀ e, (slots fs)[freeFrom 0 (slots fs) - 0]? = some e → e.inUse = false := freeFrom_spec
    exact spec.2.2
  have late : 1 ≤ slotFor fs := by
    refine Nat.one_le_iff_ne_zero.mpr fun zero => ?_
    have unused := free first (zero ▸ there')
    exact Bool.false_ne_true (unused.symm.trans used')
  refine ⟨⟨?_, ?_, ?_, ?_, ?_, ?_⟩, data, named_put (entries.trans (if_pos slot).symm) (Nat.le_of_lt slot) late free used, ?_⟩
  · rw [wrote.only]
    exact handled.same rfl rfl rfl rfl
  · rw [wrote.touches.size, wrote.only]
    exact size
  · rw [wrote.touches.size]
    exact home
  · rw [data]
    exact wrote.readable readable
  · rw [data, wrote.map]
    exact distinct
  · rw [entries]
    exact ⟨first, (List.getElem?_set_ne (by omega)).trans there', used'⟩
  · have here := free _ (List.getElem?_eq_getElem slot)
    have counted := @List.countP_set _ (fun e : DirEntry => !e.inUse) (slots fs) (slotFor fs) e slot
    have some : 0 < unusedSlots fs := List.countP_pos_iff.mpr ⟨_, List.getElem_mem slot, by rw [here]; rfl⟩
    rw [used, here] at counted
    rw [unusedSlots, entries, counted]
    exact Nat.sub_add_cancel some

theorem Wrote.curData {data : InodeDisk} {buffer : List UInt8} (wrote : Wrote fs fs' data start buffer) {sector : Sector}
    (aside : ¬ DataSector fs.disk.view data sector) : Fs.curData fs' sector = Fs.curData fs sector := by
  rw [Fs.curData, wrote.touches.view aside, wrote.only]
  rfl

private theorem Usable.takesUp {marked : FileSystem} (usable : Usable fs) (fits : FitsBuffers fs i) (untouched : Untouched middle marked)
    (disk : middle.disk = fs.disk) (data : ∀ sector, Fs.curData middle sector = Fs.curData fs sector)
    (length : middle.freeMap.length = fs.freeMap.length)
    (bits : ∀ k, bitmapTest middle.freeMap k = true ↔ bitmapTest fs.freeMap k = true ∨ k < fs.freeMap.length ∧ InRun fs i k)
    (room : recoveredName i ∉ names fs → 0 < unusedSlots fs) (there : DirAt marked dir d 1) :
    Wp (Fs.dirAdd dir (recoveredName i) (UInt32.ofNat i))
      (fun _ fs' => Recovering fs fs' [i] (if recoveredName i ∈ names fs then [] else [i])) marked := by
  have disk : marked.disk = fs.disk := untouched.disk.trans disk
  have data (sector : Sector) : Fs.curData marked sector = Fs.curData fs sector := (untouched.data sector).trans (data sector)
  have length : marked.freeMap.length = fs.freeMap.length := (congrArg List.length untouched.freeMap).trans length
  have bits (k : Nat) : bitmapTest marked.freeMap k = true ↔
      bitmapTest fs.freeMap k = true ∨ k < fs.freeMap.length ∧ ∃ start ∈ [i], InRun fs start k := by
    rw [untouched.freeMap, bits]
    simp only [List.mem_singleton, exists_eq_left]
  have usable' : Usable marked := usable.congr untouched.handled disk length (data 1)
  have entries : slots marked = slots fs := by rw [slots, slots, disk, data]
  have listed : names marked = names fs := by rw [names, names, entries]
  have free : unusedSlots marked = unusedSlots fs := by rw [unusedSlots, unusedSlots, entries]
  have named : Named marked = Named fs := named_congr entries
  have short := recoveredName_fits.mpr fits.1
  have filled : recoveredName i ≠ [] := List.append_ne_nil_of_left_ne_nil (by decide) _
  have fits : ∀ start ∈ [i], FitsBuffers fs start := List.forall_mem_singleton.mpr fits
  refine (usable'.dirAdd there filled (by omega) (by rwa [listed, free])).mono ?_
  rintro _ fs' ⟨known, new⟩
  rw [listed] at known new
  by_cases present : recoveredName i ∈ names fs
  · rw [known present, if_pos present]
    refine ⟨usable', fits, length, bits, ⟨congrArg Disk.size disk, [], congrArg Disk.written disk, by simp, fun _ _ => by rw [disk]⟩,
      data 1, fun sector _ => data sector, by rw [disk], fun name sector => ?_, free⟩
    rw [named]
    simp
  · obtain ⟨slot, wrote⟩ := new present
    obtain ⟨usable'', root, named', unused⟩ := usable'.put there slot wrote rfl
    have map : fs'.freeMap = marked.freeMap := by rw [wrote.only]
    have touches := wrote.touches
    have places := wrote.map
    have aside (sector : Sector) := @Wrote.curData marked fs' _ (Fs.curData marked 1) _ wrote sector
    rw [data 1, disk] at touches places aside
    obtain ⟨size, added, written, allowed, view⟩ := touches
    rw [if_neg present]
    refine ⟨usable'', fits, (congrArg List.length map).trans length, map ▸ bits, ⟨size.trans (congrArg Disk.size disk), added, disk ▸ written,
      allowed, disk ▸ view⟩, root.trans (data 1), fun sector other => (aside sector other).trans (data sector), places, fun name sector => ?_,
      unused.trans free⟩
    rw [named', named, recoveredName_entry (fits i List.mem_cons_self).1]
    simp only [List.mem_singleton, exists_eq_left]

/-- A sector that looks like an inode is taken for one, unless its run or its name goes past a buffer. -/
theorem Usable.recoverInode (usable : Usable fs) (inside : i < fs.freeMap.length)
    (looks : Recoverable (Fs.curData fs (UInt32.ofNat i)) (UInt32.ofNat i)) (room : recoveredName i ∉ names fs → 0 < unusedSlots fs) :
    WpUnless (¬ FitsBuffers fs i) (recoverInode i)
      (fun _ fs' => Recovering fs fs' [i] (if recoveredName i ∈ names fs then [] else [i])) fs := by
  have size := usable.size
  have number : (UInt32.ofNat i).toNat = i := UInt32.toNat_ofNat_of_lt' (Nat.lt_trans (show i < fs.disk.size by omega) fs.disk.size_lt)
  rw [Fs.recoverInode]
  refine (usable.handled.inodeOpen (show (UInt32.ofNat i).toNat < fs.disk.size by omega)).unless.bind ?_
  rintro addr fs₁ ⟨opened, inode, member, home⟩
  have data : inode.data = Fs.curData fs (UInt32.ofNat i) := by rw [← opened.data, ← home, opened.handled.curData member]
  refine .after (getInode_eq (opened.handled.inode? member)) ?_
  rw [Recoverable] at looks
  dsimp only
  rw [data, home, if_pos looks, stop_eq looks.1, number]
  refine (opened.handled.restore addr).unless.bind fun _ fs₂ restored => ?_
  have before := opened.trans restored
  have positive := looks.1
  have bytes := (byteCnt_bounds fs.freeMap.length).1
  have first : markSectors i (i + 1) fs₂ = some (⟨⟩, { fs₂ with freeMap := fs.freeMap.set i true }) := by
    rw [markSectors_run (by rw [before.freeMap, bitmapFileSize]; omega), before.freeMap, Nat.add_sub_cancel_left, bitmapSetMultiple_one]
  have fileSize : bitmapFileSize (fs.freeMap.set i true) = bitmapFileSize fs.freeMap := by
    rw [bitmapFileSize, List.length_set, bitmapFileSize]
  refine .after first ?_
  rcases Nat.lt_or_ge (8 * bitmapFileSize fs.freeMap) (i + ((Fs.curData fs (UInt32.ofNat i)).length.toNat + 511) / 512) with beyond | within
  · exact .inr ⟨fun fits => Nat.not_lt.mpr fits.2 beyond, run_bind_fault (markSectors_fault (by rw [fileSize]; exact beyond)) _⟩
  refine .after (markSectors_run (by rw [fileSize]; exact within)) ?_
  rw [Nat.add_sub_cancel_left]
  by_cases small : i < 1000
  · let fs₃ : FileSystem := { fs₂ with freeMap := bitmapSetMultiple (fs.freeMap.set i true) i (((Fs.curData fs (UInt32.ofNat i)).length.toNat + 511) / 512) true }
    have handled : Handled fs₃ := before.handled.same rfl rfl rfl rfl
    have printed : sprintf 15 (cstring "recovered0-" ++ decimal i) fs₃ = some (recoveredName i, fs₃) := by
      rw [sprintf]
      exact congrFun (if_pos (recoveredName_fits.mpr small)) fs₃
    refine .after printed ?_
    refine (handled.addToFileTable _ _).unless.bind fun _ fs₄ listed => ?_
    have home : 1 < fs₄.disk.size := by rw [listed.disk]; exact before.disk ▸ usable.home
    refine (listed.handled.dirOpenRoot home).unless.bind ?_
    rintro dir fs₅ ⟨root, d, there⟩
    have length : fs₃.freeMap.length = fs.freeMap.length := by rw [ElemBitmap.setMultiple_length, List.length_set]
    have bits (k : Nat) : bitmapTest fs₃.freeMap k = true ↔ bitmapTest fs.freeMap k = true ∨ k < fs.freeMap.length ∧ InRun fs i k := by
      rw [bitmapTest_marks, bitmapTest_mark, List.length_set, or_assoc, InRun]
      exact or_congr_right ⟨fun either => either.elim (fun here => ⟨here.1, by omega⟩) id, .inr⟩
    have done := usable.takesUp ⟨small, within⟩ (listed.trans root) before.disk before.data length bits room there
    exact done.unless.bind fun _ fs' taken => .inl ((wp_pure _).mpr taken)
  · refine .inr ⟨fun fits => small fits.1, run_bind_fault ?_ _⟩
    rw [sprintf]
    exact congrFun (if_neg fun short => small (recoveredName_fits.mp short)) _

theorem Usable.recoverInode_passes (usable : Usable fs) (inside : i < fs.freeMap.length)
    (other : ¬ Recoverable (Fs.curData fs (UInt32.ofNat i)) (UInt32.ofNat i)) :
    Wp (Fs.recoverInode i) (fun _ fs' => Untouched fs fs') fs := by
  have size := usable.size
  have number : (UInt32.ofNat i).toNat = i := UInt32.toNat_ofNat_of_lt' (Nat.lt_trans (show i < fs.disk.size by omega) fs.disk.size_lt)
  rw [Fs.recoverInode, wp_bind]
  refine (usable.handled.inodeOpen (show (UInt32.ofNat i).toNat < fs.disk.size by omega)).mono ?_
  rintro addr fs₁ ⟨opened, inode, member, home⟩
  have data : inode.data = Fs.curData fs (UInt32.ofNat i) := by rw [← opened.data, ← home, opened.handled.curData member]
  rw [wp_bind]
  refine Wp.of_eq (getInode_eq (opened.handled.inode? member)) ?_
  rw [Recoverable] at other
  dsimp only
  rw [data, home, if_neg other]
  exact (wp_pure _).mpr opened

theorem Usable.none (usable : Usable fs) : Recovering fs fs [] [] :=
  ⟨usable, by simp, rfl, fun k => by simp, .refl, rfl, fun _ _ => rfl, rfl, fun name sector => by simp, rfl⟩

theorem Recovering.untouched {taken added : List Nat} (first : Recovering fs middle taken added) (untouched : Untouched middle fs') :
    Recovering fs fs' taken added := by
  have entries := untouched.slots
  refine ⟨first.usable.untouched untouched, first.fits, (congrArg List.length untouched.freeMap).trans first.length, fun k => ?_, ?_,
    (untouched.data 1).trans first.home, fun sector aside => (untouched.data sector).trans (first.data sector aside), ?_, fun name sector => ?_, ?_⟩
  · rw [untouched.freeMap]
    exact first.marked k
  · obtain ⟨size, added, written, allowed, view⟩ := first.touches
    exact ⟨untouched.disk ▸ size, added, untouched.disk ▸ written, allowed, untouched.disk ▸ view⟩
  · rw [untouched.disk]
    exact first.map
  · rw [named_congr entries]
    exact first.named name sector
  · rw [unusedSlots, entries]
    exact first.unused

/-- One round after others; the sectors it takes are none of the root directory's. -/
theorem Recovering.trans {taken added taken' added' : List Nat} (first : Recovering fs middle taken added)
    (second : Recovering middle fs' taken' added')
    (apart : ∀ start ∈ taken', ¬ DataSector fs.disk.view (Fs.curData fs 1) (UInt32.ofNat start)) :
    Recovering fs fs' (taken ++ taken') (added ++ added') := by
  have places : DataSector middle.disk.view (Fs.curData middle 1) = DataSector fs.disk.view (Fs.curData fs 1) := by
    rw [first.home]
    unfold DataSector
    rw [first.map]
  have runs (start : Nat) (member : start ∈ taken') (k : Nat) : InRun middle start k ↔ InRun fs start k := by
    rw [InRun, InRun, first.data _ (apart start member)]
  refine ⟨second.usable, fun start member => ?_, second.length.trans first.length, fun k => ?_, first.touches.trans (places ▸ second.touches),
    second.home.trans first.home, fun sector aside => ?_, ?_, fun name sector => ?_, ?_⟩
  · rcases List.mem_append.mp member with early | late
    · exact first.fits start early
    · have fits := second.fits start late
      rwa [FitsBuffers, bitmapFileSize, first.length, first.data _ (apart start late)] at fits
  · rw [second.marked, first.marked, first.length, or_assoc, ← and_or_left]
    refine or_congr_right (and_congr_right fun _ => ⟨?_, ?_⟩)
    · rintro (⟨start, member, run⟩ | ⟨start, member, run⟩)
      · exact ⟨start, List.mem_append_left _ member, run⟩
      · exact ⟨start, List.mem_append_right _ member, (runs start member k).mp run⟩
    · rintro ⟨start, member, run⟩
      rcases List.mem_append.mp member with early | late
      · exact .inl ⟨start, early, run⟩
      · exact .inr ⟨start, late, (runs start late k).mpr run⟩
  · exact (second.data sector (places ▸ aside)).trans (first.data sector aside)
  · have map := second.map
    rw [first.home] at map
    exact map.trans first.map
  · rw [second.named, first.named, or_assoc]
    simp only [List.mem_append, or_and_right, exists_or]
  · rw [List.length_append, ← first.unused, ← second.unused]
    omega

end Rounds

section Run

theorem takenUp_before (low : start ≤ i) : takenUp fs start <+: takenUp fs i := by
  induction i with
  | zero =>
    obtain rfl := Nat.le_zero.mp low
    exact List.prefix_rfl
  | succ i ih =>
    rcases Nat.lt_or_eq_of_le low with below | rfl
    · refine (ih (Nat.le_of_lt_succ below)).trans ?_
      rw [takenUp]
      split
      · exact List.prefix_append _ _
      · exact List.prefix_rfl
    · exact List.prefix_rfl

theorem takenUp_spec (member : start ∈ takenUp fs i) : start < i ∧ bitmapTest fs.freeMap start = false ∧
    Recoverable (curData fs (UInt32.ofNat start)) (UInt32.ofNat start) := by
  induction i with
  | zero => cases member
  | succ i ih =>
    rw [takenUp] at member
    split at member
    next takes =>
      rcases List.mem_append.mp member with early | last
      · obtain ⟨below, rest⟩ := ih early
        exact ⟨Nat.lt_succ_of_lt below, rest⟩
      · obtain rfl := List.mem_singleton.mp last
        exact ⟨Nat.lt_succ_self start, takes.1, takes.2.1⟩
    next =>
      obtain ⟨below, rest⟩ := ih member
      exact ⟨Nat.lt_succ_of_lt below, rest⟩

theorem mem_addedAgain : start ∈ addedAgain fs i ↔ start ∈ takenUp fs i ∧ recoveredName start ∉ names fs := by
  rw [addedAgain, List.mem_filter, decide_eq_true_iff]

theorem addedAgain_taken (takes : takenUp fs (i + 1) = takenUp fs i ++ [i]) :
    addedAgain fs (i + 1) = addedAgain fs i ++ if recoveredName i ∈ names fs then [] else [i] := by
  rw [addedAgain, addedAgain, takes, List.filter_append, List.filter_cons, List.filter_nil]
  by_cases present : recoveredName i ∈ names fs
  · rw [if_pos present, if_neg (by simp [present])]
  · rw [if_neg present, if_pos (by simp [present])]

theorem Recovering.rounds (rootMarked : ∀ sector, DataSector fs.disk.view (curData fs 1) sector → bitmapTest fs.freeMap sector.toNat = true)
    (room : (addedAgain fs fs.freeMap.length).length ≤ unusedSlots fs) (left i : Nat) (all : i + left = fs.freeMap.length)
    (before : Recovering fs middle (takenUp fs i) (addedAgain fs i)) :
    WpUnless (∃ start ∈ takenUp fs fs.freeMap.length, ¬ FitsBuffers fs start) (recoverInodes i left)
      (fun _ fs' => Recovering fs fs' (takenUp fs fs.freeMap.length) (addedAgain fs fs.freeMap.length)) middle := by
  induction left generalizing i middle with
  | zero =>
    obtain rfl : i = fs.freeMap.length := all
    exact .inl ((wp_pure _).mpr before)
  | succ left ih =>
    have later {after : FileSystem} (kept : takenUp fs (i + 1) = takenUp fs i) (same : Recovering fs after (takenUp fs i) (addedAgain fs i)) :=
      ih (i + 1) (by omega) (show Recovering fs after _ (addedAgain fs (i + 1)) by rw [addedAgain, kept]; exact same)
    rw [recoverInodes]
    refine .after (show (get : M FileSystem) middle = some (middle, middle) from rfl) ?_
    dsimp only
    have bit := before.marked i
    split
    next marked =>
      refine later ?_ before
      rw [takenUp, if_neg]
      rintro ⟨free, _, outside⟩
      rcases bit.mp marked with used | ⟨_, start, member, run⟩
      · exact absurd (used.symm.trans free) (by decide)
      · exact outside start member run
    next clear =>
      have free : bitmapTest fs.freeMap i = false := Bool.eq_false_iff.mpr fun used => clear (bit.mpr (.inl used))
      have outside : ∀ start ∈ takenUp fs i, ¬ InRun fs start i := fun start member run => clear (bit.mpr (.inr ⟨by omega, start, member, run⟩))
      have size := before.usable.size
      have number : (UInt32.ofNat i).toNat = i := by
        rw [before.length, before.touches.size] at size
        exact UInt32.toNat_ofNat_of_lt' (Nat.lt_trans (show i < fs.disk.size by omega) fs.disk.size_lt)
      have apart : ¬ DataSector fs.disk.view (curData fs 1) (UInt32.ofNat i) := fun root => by
        have used := rootMarked _ root
        rw [number, free] at used
        cases used
      have data := before.data _ apart
      have inside : i < middle.freeMap.length := by rw [before.length]; omega
      by_cases looks : Recoverable (curData fs (UInt32.ofNat i)) (UInt32.ofNat i)
      · have takes : takenUp fs (i + 1) = takenUp fs i ++ [i] := by rw [takenUp, if_pos ⟨free, looks, outside⟩]
        have added := addedAgain_taken takes
        have known : recoveredName i ∈ names middle ↔ recoveredName i ∈ names fs := by
          rw [mem_names, mem_names]
          refine exists_congr fun sector => (before.named _ _).trans (or_iff_left ?_)
          rintro ⟨start, member, same, _⟩
          exact Nat.ne_of_lt (takenUp_spec (mem_addedAgain.mp member).1).1 (recoveredName_inj same).symm
        have slot (missing : recoveredName i ∉ names middle) : 0 < unusedSlots middle := by
          rw [known] at missing
          rw [if_neg missing] at added
          have early : takenUp fs (i + 1) <+: takenUp fs fs.freeMap.length := takenUp_before (by omega)
          have most : (addedAgain fs (i + 1)).length ≤ (addedAgain fs fs.freeMap.length).length := (early.sublist.filter _).length_le
          have unused := before.unused
          rw [added, List.length_append, List.length_singleton] at most
          omega
        have round := before.usable.recoverInode inside (data ▸ looks) slot
        rcases round with ran | ⟨overflow, stopped⟩
        · refine ran.unless.bind fun _ after taken => ih (i + 1) (by omega) ?_
          have both := before.trans taken (List.forall_mem_singleton.mpr apart)
          rwa [← takes, if_congr known rfl rfl, ← added] at both
        · refine .inr ⟨⟨i, ?_, fun fits => overflow ?_⟩, run_bind_fault stopped _⟩
          · refine (takenUp_before (show i + 1 ≤ fs.freeMap.length by omega)).subset ?_
            rw [takes]
            exact List.mem_append_right _ List.mem_cons_self
          · rwa [FitsBuffers, bitmapFileSize, before.length, data]
      · have passes := before.usable.recoverInode_passes inside (data ▸ looks)
        refine passes.unless.bind fun _ after untouched => later ?_ (before.untouched untouched)
        rw [takenUp, if_neg fun takes => looks takes.2.1]

/-- What `recover(0)` does, unless a name or a run goes past its buffer. -/
theorem Usable.recover (usable : Usable fs)
    (rootMarked : ∀ sector, DataSector fs.disk.view (curData fs 1) sector → bitmapTest fs.freeMap sector.toNat = true)
    (room : (addedAgain fs fs.freeMap.length).length ≤ unusedSlots fs) :
    WpUnless (∃ start ∈ takenUp fs fs.freeMap.length, ¬ FitsBuffers fs start) (recover 0) (fun files fs' => files = [] ∧
      Recovering fs fs' (takenUp fs fs.freeMap.length) (addedAgain fs fs.freeMap.length)) fs := by
  rw [Fs.recover]
  refine .after (show (get : M FileSystem) fs = some (fs, fs) from rfl) ?_
  rw [if_pos rfl]
  refine (usable.none.rounds rootMarked room fs.freeMap.length 0 (Nat.zero_add _)).bind fun _ fs' run => ?_
  exact .inl ((wp_pure _).mpr ⟨rfl, run⟩)

end Run

end Comp310.Fs
