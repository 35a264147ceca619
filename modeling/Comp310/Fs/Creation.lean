import Comp310.Fs.Entries

/-! `filesys_create`, with every way in which it can fail. -/

namespace Comp310.Fs
open Comp310.Lib

/-- What an operation on the file system keeps: files other than `gone` read as
before and stay open where they are. -/
structure Keeps (gone : Sector → Prop) (fs fs' : FileSystem) : Prop where
  freeMapFile : fs'.freeMapFile = fs.freeMapFile
  fileTable : fs'.fileTable = fs.fileTable
  files : ∀ sector, Live fs sector → sector ≠ 0 → sector ≠ 1 → ¬ gone sector → Alike fs fs' sector
  opens : ∀ addr sector, sector ≠ 1 → ¬ gone sector → OpenAt fs addr sector → OpenAt fs' addr sector
  map : curData fs' 0 = curData fs 0
  upToDate : ∀ sector, Live fs sector → sector ≠ 0 → sector ≠ 1 → ¬ gone sector → UpToDate fs sector → UpToDate fs' sector

/-- What an operation that adds and removes no name keeps. -/
structure Steady (fs fs' : FileSystem) (tidy : Prop := True) : Prop where
  volume : Volume fs' tidy
  keeps : Keeps (fun _ => False) fs fs'
  slots : slots fs' = slots fs

variable {fs middle fs' : FileSystem} {gone : Sector → Prop} {name : CString} {sector : Sector} {size : Int}
  {state : Option (Addr × Dir)} {dir : Addr} {d : Dir} {live : Sector → Prop} {tidy : Prop}

theorem Keeps.trans (first : Keeps gone fs middle) (second : Keeps gone middle fs')
    (still : ∀ sector, Live fs sector → ¬ gone sector → Live middle sector) : Keeps gone fs fs' :=
  ⟨second.freeMapFile.trans first.freeMapFile, second.fileTable.trans first.fileTable,
    fun sector member nonzero other there => (first.files sector member nonzero other there).trans
      (second.files sector (still sector member there) nonzero other there),
    fun addr sector other there opened => second.opens addr sector other there (first.opens addr sector other there opened),
    second.map.trans first.map, fun sector member nonzero other there before =>
      second.upToDate sector (still sector member there) nonzero other there (first.upToDate sector member nonzero other there before)⟩

theorem Keeps.mono {gone' : Sector → Prop} (keeps : Keeps gone fs fs') (wider : ∀ sector, gone sector → gone' sector) :
    Keeps gone' fs fs' :=
  ⟨keeps.freeMapFile, keeps.fileTable,
    fun sector member nonzero other there => keeps.files sector member nonzero other fun lost => there (wider sector lost),
    fun addr sector other there => keeps.opens addr sector other fun lost => there (wider sector lost), keeps.map,
    fun sector member nonzero other there => keeps.upToDate sector member nonzero other fun lost => there (wider sector lost)⟩

theorem Steady.trans (first : Steady fs middle tidy) (second : Steady middle fs' tidy) : Steady fs fs' tidy :=
  ⟨second.volume, first.keeps.trans second.keeps fun sector member _ => by rwa [live_congr first.slots],
    second.slots.trans first.slots⟩

theorem Quiet.steady (quiet : Quiet fs fs' tidy) : Steady fs fs' tidy := by
  refine ⟨quiet.volume, ⟨quiet.store.freeMapFile, quiet.fileTable, fun sector _ _ other _ => quiet.store.alike (quiet.data sector other),
    fun addr sector other _ opened => ?_, quiet.data 0 (by decide), fun sector _ nonzero other _ =>
      (quiet.store.same (quiet.data sector other)).upToDate nonzero⟩, quiet.slots⟩
  obtain ⟨inode, member, home⟩ := opened
  exact ⟨inode, (quiet.opens (addr, inode) (by rwa [← home] at other)).mpr member, home⟩

theorem Volume.steady (volume : Volume fs) (objects : Objects (Live fs) fs') (heap : SameHeap fs fs')
    (same : ∀ sector, Live fs sector → Same fs fs' sector) : Steady fs fs' := by
  have root := (same 1 Volume.root_live).alike (by decide)
  refine ⟨⟨by rw [live_congr root.slots]; exact objects, volume.root.congr root.slots root.length fun name sector named => ?_⟩,
    ⟨heap.freeMapFile, heap.fileTable, fun sector member nonzero _ _ => (same sector member).alike nonzero,
      fun addr sector _ _ opened => ?_, (same 0 (.inl rfl)).data,
      fun sector member nonzero _ _ => (same sector member).upToDate nonzero⟩, root.slots⟩
  · rw [(same sector named.live).data]
  · rwa [OpenAt, heap.openInodes]

theorem Objects.narrow {live' : Sector → Prop} (objects : Objects live fs tidy) (narrower : ∀ sector, live' sector → live sector)
    (mapLive : live' 0) (opens : ∀ entry ∈ fs.openInodes, live' entry.2.sector) : Objects live' fs tidy := by
  have blocks := objects.blocks
  exact ⟨blocks.frame narrower mapLive rfl rfl rfl blocks.handles opens blocks.mapOpen blocks.padded
    (fun sector member => blocks.sound sector (narrower sector member)) (fun _ _ filled => ⟨filled, rfl⟩)
    fun role member filled => blocks.used role (narrower _ member) filled, objects.synced,
    fun sector member => objects.saved sector (narrower sector member),
    fun kept sector member => objects.slack kept sector (narrower sector member)⟩

/-- The blocks that a file of this size would be given. -/
def wanted (size : Int) : Nat := if size < 0 then 0 else sectorsNeeded (bytesToSectors size)

theorem wanted_eq {bytes : Nat} (small : bytes ≤ 8517120) : wanted bytes = sectorsNeeded ((bytes + 511) / 512) := by
  rw [wanted, if_neg (by omega), bytesToSectors_eq (by omega) (by omega)]
  rfl

/-- No entry can be made for the name. -/
def BadName (fs : FileSystem) (name : CString) : Prop := name = [] ∨ 30 < name.length ∨ ∃ other, Named fs name other

/-- There is space for the inode and the bytes of a new file. -/
def FileFits (fs : FileSystem) (size : Int) : Prop := 0 ≤ size ∧ size ≤ 8517120 ∧ wanted size + 1 ≤ freeCount fs

/-- A new file of zeros has the name. -/
structure CreateDone (fs fs' : FileSystem) (name : CString) (size : Int) (sector : Sector) : Prop where
  new : ¬ Live fs sector
  named : ∀ other there, Named fs' other there ↔ Named fs other there ∨ (other = name ∧ there = sector)
  fresh : Fresh fs' sector size false
  mapInode : fs'.disk.view 0 = fs.disk.view 0
  count : freeCount fs' + 1 + wanted size + (rootShort fs).length = freeCount fs
  unused : ∀ place, Filled fs' (sector, place) → ¬ Used fs (claim fs' (sector, place))
  mono : ∀ other, Used fs other → Used fs' other
  length : fs'.freeMap.length = fs.freeMap.length
  rootLength : (curData fs' 1).length = max (curData fs 1).length ((36 * slotFor fs + 36 : Nat) : Int)

/-- No name is added, but blocks may be lost. -/
structure CreateFailed (fs fs' : FileSystem) (name : CString) (size : Int) : Prop where
  slots : slots fs' = slots fs
  length : fs'.freeMap.length = fs.freeMap.length
  mono : ∀ other, Used fs other → Used fs' other
  noFile : ¬ FileFits fs size → freeCount fs' + min (freeCount fs - 1) (wanted size) = freeCount fs
  noName : FileFits fs size → BadName fs name → freeCount fs' + wanted size = freeCount fs
  noEntry : FileFits fs size → ¬ BadName fs name →
    freeCount fs' + wanted size + min (freeCount fs - 1 - wanted size) (rootShort fs).length = freeCount fs

/-- Free sectors do not run out just where an index block is due. -/
structure Unspoiled (fs : FileSystem) (name : CString) (size : Int) : Prop where
  file : 0 ≤ size → freeCount fs ≠ 0 → (missingBlocks (fun _ => 0) (bytesToSectors size))[freeCount fs - 1]? ≠ some true
  entry : FileFits fs size → ¬ BadName fs name → (rootShort fs)[freeCount fs - 1 - wanted size]? ≠ some true

/-- What `filesys_create` leaves. -/
structure CreateRan (fs fs' : FileSystem) (state : Option (Addr × Dir)) (name : CString) (size : Int) (success : Bool) : Prop where
  volume : Volume fs'
  session : Session fs' state
  keeps : Keeps (fun _ => False) fs fs'
  outcome : success = true ↔ FileFits fs size ∧ ¬ BadName fs name ∧ (36 * slotFor fs + 36 : Nat) ≤ 8517120 ∧
    wanted size + 1 + (rootShort fs).length ≤ freeCount fs
  done : success = true → ∃ sector, CreateDone fs fs' name size sector
  failed : success = false → CreateFailed fs fs' name size
  unspoiled : Unspoiled fs name size → fs'.disk.view 0 = fs.disk.view 0

/-- How a new file came about: a sector was allocated for its inode, and then its blocks. -/
structure CreateSteps (fs start allocated made fs' : FileSystem) (size : Int) (sector : Sector) : Prop where
  store : SameStore fs start
  service : Service (MapData start) (MapIndex start) start
  allocate : freeMapAllocate 1 start = some (some sector, allocated)
  objects : Objects (Live fs) allocated
  used : Used allocated sector
  unclaimed : Unclaimed (Live fs) allocated sector
  create : inodeCreate sector size false allocated = some (true, made)
  mine : Same made fs' sector
  others : ∀ other, Live fs other → other ≠ 1 → Same fs fs' other
  mono : ∀ other, Used made other → Used fs' other
  count : freeCount fs' + (rootShort fs).length = freeCount made
  length : fs'.freeMap.length = made.freeMap.length

section Running

theorem Same.rootShort (same : Same fs fs' 1) : rootShort fs' = rootShort fs := by
  rw [Fs.rootShort, Fs.rootShort, shortOf, shortOf, same.blockAt, slotFor, slotFor, (same.alike (by decide)).slots]

private theorem undoCreate_wp (volume : Volume fs) (session : Session fs (some (dir, d))) (reopened : Reopened state dir d)
    (used : Used fs sector) (unclaimed : Unclaimed (Live fs) fs sector) :
    Wp (do
        if !false && sector != 0 then freeMapRelease sector 1 else pure ⟨⟩
        dirClose dir
        pure false)
      (fun success fs' => success = false ∧ Session fs' state ∧ Steady fs fs' ∧ freeCount fs' = freeCount fs + 1 ∧
        fs'.freeMap.length = fs.freeMap.length ∧ (∀ other, Used fs other → other ≠ sector → Used fs' other) ∧
        fs'.disk.view 0 = fs.disk.view 0) fs := by
  have nonzero : sector ≠ 0 := fun zero => unclaimed (0, none) volume.objects.blocks.mapLive filled_inode zero.symm
  rw [if_pos (by simpa using nonzero), wp_bind]
  refine (volume.objects.release_wp used unclaimed).mono fun _ fs₁ ⟨released, objects, same⟩ => ?_
  have steady := volume.steady objects released.heap same
  rw [wp_bind]
  refine (dirClose_wp steady.volume (released.heap.session session) reopened).mono fun _ fs₂ ⟨session', quiet⟩ =>
    (wp_pure _).mpr ⟨rfl, session', steady.trans quiet.steady, ?_, ?_, fun other before differs => ?_, ?_⟩
  · rw [freeCount, quiet.store.freeMap, released.map]
    exact count_set_false used
  · rw [quiet.store.freeMap, released.map, List.length_set]
  · have apart : sector.toNat ≠ other.toNat := by
      rw [ne_eq, UInt32.toNat_inj]
      exact fun equal => differs equal.symm
    rw [Used, quiet.store.freeMap, released.map, List.getElem?_set_ne apart]
    exact before
  · rw [quiet.store.disk]
    exact released.touches.view fun mine => (volume.objects.blocks.service.used 0 (.inl mine)).2 rfl

theorem Alike.of_write {start : Nat} {buffer : List UInt8} {addr : Addr} {inode : Inode}
    (wrote : WriteAt live fs fs' addr inode start buffer false) (blocks : Blocks live fs) (opened : (addr, inode) ∈ fs.openInodes) :
    Alike fs fs' inode.sector := by
  have was := blocks.handles.curData opened
  have limit := (blocks.sound _ (blocks.opens _ opened)).limit
  dsimp only at limit
  refine ⟨by rw [wrote.length, was]; rfl, by rw [wrote.isDir, was], fun i inside => ?_⟩
  rw [wrote.bytes i (by omega), if_neg (by simp), was]

/-- The state in which a name is added for a new inode. -/
private structure Pending (fs fs' : FileSystem) (dir : Addr) (d : Dir) (sector : Sector) (size : Int) : Prop where
  objects : Objects (fun other => Live fs other ∨ other = sector) fs'
  steady : Steady fs fs'
  session : Session fs' (some (dir, d))
  unclaimed : Unclaimed (Live fs) fs' sector
  fresh : Fresh fs' sector size false
  root : Same fs fs' 1
  opens : ∀ entry ∈ fs'.openInodes, Live fs entry.2.sector

private structure NameAdded (fs fs' after : FileSystem) (name : CString) (sector : Sector) : Prop where
  named : ∀ other there, Named after other there ↔ Named fs other there ∨ (other = name ∧ there = sector)
  same : Same fs' after sector
  count : freeCount after + (rootShort fs).length = freeCount fs'
  mono : ∀ other, Used fs' other → Used after other
  length : after.freeMap.length = fs'.freeMap.length
  rootLength : (curData after 1).length = max (curData fs 1).length ((36 * slotFor fs + 36 : Nat) : Int)
  others : ∀ other, Live fs other → other ≠ 1 → Same fs' after other

private theorem nameFile_wp (pending : Pending fs fs' dir d sector size) (reopened : Reopened state dir d)
    (plain : PlainName name) :
    Wp (do
        let success ← dirAdd dir name sector
        if !success && sector != 0 then freeMapRelease sector 1 else pure ⟨⟩
        dirClose dir
        pure success)
      (fun success after => Volume after ∧ Session after state ∧ Keeps (fun _ => False) fs' after ∧
        (success = true ↔ ¬ BadName fs name ∧ (36 * slotFor fs + 36 : Nat) ≤ 8517120 ∧ (rootShort fs).length ≤ freeCount fs') ∧
        (success = true → NameAdded fs fs' after name sector) ∧
        ((¬ BadName fs name → (rootShort fs)[freeCount fs']? ≠ some true) → after.disk.view 0 = fs'.disk.view 0) ∧
        (success = false → slots after = slots fs ∧ after.freeMap.length = fs'.freeMap.length ∧
          (∀ other, Used fs' other → other ≠ sector → Used after other) ∧
          (BadName fs name → freeCount after = freeCount fs' + 1) ∧
          (¬ BadName fs name → freeCount after + min (freeCount fs') (rootShort fs).length = freeCount fs' + 1))) fs' := by
  have blocks := pending.objects.blocks
  have volume := pending.steady.volume
  have sameSlots := pending.steady.slots
  have mine : Live fs sector ∨ sector = sector := .inr rfl
  have used : Used fs' sector := blocks.used (sector, none) mine filled_inode
  have live := live_congr sameSlots
  have names := named_congr sameSlots
  have bad_iff : BadName fs' name ↔ BadName fs name := by rw [BadName, names, BadName]
  have short : rootShort fs' = rootShort fs := pending.root.rootShort
  have slot : slotFor fs' = slotFor fs := by rw [slotFor, sameSlots, slotFor]
  rw [wp_bind]
  refine (dirAdd_wp blocks pending.session volume.root).mono fun added fs₁ outcome => ?_
  obtain ⟨refused, tried⟩ := outcome
  by_cases bad : BadName fs' name
  · obtain ⟨rfl, rfl⟩ := refused bad
    refine (undoCreate_wp volume pending.session reopened used (by rw [live]; exact pending.unclaimed)).mono fun success after undone => ?_
    obtain ⟨rfl, session, steady, count, length, mono, mapInode⟩ := undone
    refine ⟨steady.volume, session, steady.keeps, ?_, ?_, fun _ => mapInode,
      fun _ => ⟨steady.slots.trans sameSlots, length, mono, fun _ => count, fun good => absurd (bad_iff.mp bad) good⟩⟩
    · exact iff_of_false Bool.false_ne_true fun fitting => fitting.1 (bad_iff.mp bad)
    · exact fun success => absurd success Bool.false_ne_true
  obtain ⟨inode, opened, home, data, fits, wrote⟩ := tried bad
  have good : ¬ BadName fs name := fun bad' => bad (bad_iff.mpr bad')
  have readable := blocks.readable (.inl Volume.root_live : Live fs 1 ∨ 1 = sector)
  have count := wrote.count
  have others := wrote.others
  rw [DirEntry.bytes_length, data, show shortOf fs' (curData fs' 1) (36 * slotFor fs' + 36 : Nat) = rootShort fs' from rfl,
    short] at count
  rw [home] at others
  rw [RootFits, Fits, show shortOf fs' (curData fs' 1) (36 * slotFor fs' + 36 : Nat) = rootShort fs' from rfl, short, slot] at fits
  have place : slotFor fs' ≤ (slots fs').length := by
    have bound : slotFor fs' ≤ 0 + (slots fs').length := freeFrom_spec.2.1
    omega
  have written := wrote.slots blocks opened home place
  have objects := wrote.objects pending.objects opened
  have opens₁ (entry : Addr × Inode) (there : entry ∈ fs₁.openInodes) : Live fs entry.2.sector := by
    rw [wrote.heap.openInodes] at there
    rcases mem_setData.mp there with ⟨before, _⟩ | ⟨other, before, same⟩
    · exact pending.opens entry before
    · rw [same]
      exact pending.opens (d.inode, other) before
  have session₁ := wrote.session pending.session
  have mapLive : Live fs 0 := .inl rfl
  have unspoiled := wrote.unspoiled
  rw [DirEntry.bytes_length, data, show shortOf fs' (curData fs' 1) (36 * slotFor fs' + 36 : Nat) = rootShort fs' from rfl,
    short] at unspoiled
  cases added with
  | false =>
    have kept : slots fs₁ = slots fs' := written
    have alike : Alike fs' fs₁ 1 := home ▸ Alike.of_write wrote blocks opened
    have unclaimed : Unclaimed (Live fs) fs₁ sector := fun role member filled equal => by
      have roles := objects.blocks.apart role (sector, none) (.inl member) mine filled filled_inode equal
      rw [roles] at member
      exact pending.unclaimed.not_live member
    have steady : Steady fs' fs₁ := by
      refine ⟨⟨?_, volume.root.congr kept alike.length fun other there named => ?_⟩, ⟨wrote.heap.freeMapFile, wrote.heap.fileTable,
        fun other member nonzero notRoot _ => ?_, fun addr other _ _ => wrote.openAt, (others 0 (.inl mapLive) (by decide)).data,
        fun other member nonzero notRoot _ => (others other (.inl (live ▸ member)) notRoot).upToDate nonzero⟩, kept⟩
      · rw [live_congr kept, live]
        exact objects.narrow (fun _ => .inl) mapLive opens₁
      · rw [(others there (.inl (live ▸ named.live)) (volume.root.plain other there named).2.2.2).data]
      · exact (others other (.inl (live ▸ member)) notRoot).alike nonzero
    have live₁ : Live fs₁ = Live fs := (live_congr kept).trans live
    refine (undoCreate_wp steady.volume session₁ reopened (objects.blocks.used (sector, none) mine filled_inode)
      (by rw [live₁]; exact unclaimed)).mono fun success after undone => ?_
    obtain ⟨rfl, session, steady', count', length, mono, mapInode⟩ := undone
    refine ⟨steady'.volume, session, (steady.trans steady').keeps, ?_, ?_, fun enough => mapInode.trans (unspoiled (enough good)),
      fun _ => ⟨(steady'.slots.trans kept).trans sameSlots,
        ?_, fun other before => mono other (wrote.grows.mono other before), fun bad' => absurd bad' good, fun _ => ?_⟩⟩
    · refine iff_of_false Bool.false_ne_true fun fitting => Bool.false_ne_true (fits.mpr ⟨?_, fitting.2.2⟩)
      have small := fitting.2.1
      omega
    · exact fun success => absurd success Bool.false_ne_true
    · exact length.trans wrote.size
    · omega
  | true =>
    obtain ⟨small, enough⟩ := fits.mp rfl
    have fitting : name.length ≤ 30 := Nat.not_lt.mp fun long => good (.inr (.inl long))
    have entry : (DirEntry.mk sector (strncpy name) true).fname = name := fname_strncpy sector true plain.noNul fitting
    have free (e : DirEntry) (there : (slots fs')[slotFor fs' - 0]? = some e) : e.inUse = false :=
      freeFrom_spec.2.2 e there
    have low := volume.root.one_le _ free
    have named (other : CString) (there : Sector) : Named fs₁ other there ↔ Named fs other there ∨ (other = name ∧ there = sector) := by
      rw [named_put written place low free rfl, entry, names]
    have live₁ : Live fs₁ = fun other => Live fs other ∨ other = sector := by
      funext other
      simp only [Live, named, exists_or, eq_iff_iff]
      constructor
      · rintro (zero | one | there | ⟨_, _, same⟩)
        · exact .inl (.inl zero)
        · exact .inl (.inr (.inl one))
        · exact .inl (.inr (.inr there))
        · exact .inr same
      · rintro ((zero | one | there) | same)
        · exact .inl zero
        · exact .inr (.inl one)
        · exact .inr (.inr (.inl there))
        · exact .inr (.inr (.inr ⟨name, rfl, same⟩))
    have new := pending.unclaimed.not_live
    have notRoot : sector ≠ 1 := fun one => new (one ▸ Volume.root_live)
    have nonzero : sector ≠ 0 := fun zero => new (.inl zero)
    have sameNew := others sector mine notRoot
    have length : (curData fs₁ 1).length = max inode.data.length ((36 * slotFor fs' + 36 : Nat) : Int) := by
      have length := wrote.length
      rw [home, DirEntry.bytes_length] at length
      exact length
    have whole := volume.root.whole
    rw [← data] at whole
    have root : Root fs₁ := by
      refine volume.root.put written ?_ place free rfl (by rw [entry]; exact plain) (by rw [entry]; exact fitting)
        ⟨nonzero, notRoot⟩ ?_ ?_ ?_
      · rw [length]
        omega
      · rw [sameNew.data]
        exact pending.fresh.isDir
      · intro other there named'
        rw [entry]
        have member : Live fs there := live ▸ named'.live
        exact ⟨fun same => bad (.inr (.inr ⟨there, same ▸ named'⟩)), fun same => new ((show there = sector from same) ▸ member)⟩
      · intro other there named'
        rw [(others there (.inl (live ▸ named'.live)) (volume.root.plain other there named').2.2.2).data]
    have volume₁ : Volume fs₁ := ⟨by rw [live₁]; exact objects, root⟩
    rw [if_neg (by simp), wp_bind]
    refine (dirClose_wp volume₁ session₁ reopened).mono fun _ after closed => (wp_pure _).mpr ?_
    obtain ⟨session, quiet⟩ := closed
    have keeps₁ : Keeps (fun _ => False) fs' fs₁ := ⟨wrote.heap.freeMapFile, wrote.heap.fileTable,
      fun other member nonzero notRoot _ => (others other (.inl (live ▸ member)) notRoot).alike nonzero,
      fun addr other _ _ => wrote.openAt, (others 0 (.inl mapLive) (by decide)).data,
      fun other member nonzero notRoot _ => (others other (.inl (live ▸ member)) notRoot).upToDate nonzero⟩
    have sameAfter := sameNew.trans (quiet.store.same (quiet.data sector notRoot))
    refine ⟨quiet.volume, session, keeps₁.trans quiet.steady.keeps fun other member _ => by rw [live₁]; exact .inl (live ▸ member),
      ⟨fun _ => ⟨good, by omega, enough⟩, fun _ => rfl⟩,
      fun _ => ⟨fun other there => ?_, sameAfter, ?_, fun other before => ?_, ?_, ?_, fun other member notRoot =>
        (others other (.inl member) notRoot).trans (quiet.store.same (quiet.data other notRoot))⟩, fun enough => ?_,
      fun failed => absurd failed.symm Bool.false_ne_true⟩
    · rw [named_congr quiet.slots, named]
    · rw [freeCount, quiet.store.freeMap, ← freeCount]
      omega
    · rw [quiet.store.used]
      exact wrote.grows.mono other before
    · rw [quiet.store.freeMap, wrote.size]
    · rw [quiet.root.length, length, data, pending.root.data, slot]
    · rw [quiet.store.disk]
      exact unspoiled (enough good)

theorem filesysCreate_steps (volume : Volume fs) (session : Session fs state) (plain : PlainName name) (high : size < 2147483648) :
    Wp (filesysCreate name size) (fun success fs' => CreateRan fs fs' state name size success ∧ (success = true →
      ∃ sector start allocated made, CreateDone fs fs' name size sector ∧ CreateSteps fs start allocated made fs' size sector)) fs := by
  rw [filesysCreate, plain.split]
  dsimp only
  rw [wp_bind]
  refine (dirOpenRoot_wp volume session).mono fun dir fs₁ ended => ?_
  obtain ⟨d, session₁, reopened, quiet₁, data₁⟩ := ended
  have count₁ : freeCount fs₁ = freeCount fs := by rw [freeCount, quiet₁.store.freeMap, freeCount]
  have live₁ := live_congr quiet₁.slots
  have root₁ : Same fs fs₁ 1 := quiet₁.store.same (data₁ 1)
  rw [wp_bind]
  by_cases full : freeCount fs₁ = 0
  · refine Wp.of_eq (freeMapAllocate_full full) ?_
    rw [wp_bind]
    refine (dirClose_wp quiet₁.volume session₁ reopened).mono fun _ fs₂ closed => (wp_pure _).mpr ?_
    obtain ⟨session₂, quiet₂⟩ := closed
    have whole := quiet₁.store.trans quiet₂.store
    have count₂ : freeCount fs₂ = freeCount fs := by rw [freeCount, whole.freeMap, freeCount]
    have unfit (fits : FileFits fs size) : False := by
      have enough := fits.2.2
      omega
    refine ⟨⟨quiet₂.volume, session₂, (quiet₁.steady.trans quiet₂.steady).keeps,
      iff_of_false Bool.false_ne_true fun fitting => unfit fitting.1, fun success => absurd success Bool.false_ne_true,
      fun _ => ⟨quiet₂.slots.trans quiet₁.slots, by rw [whole.freeMap], fun other => by rw [whole.used]; exact id,
        fun _ => by omega, fun fits => (unfit fits).elim, fun fits => (unfit fits).elim⟩, fun _ => by rw [whole.disk]⟩,
      fun success => absurd success Bool.false_ne_true⟩
  have service := quiet₁.volume.objects.blocks.service
  refine (freeMapAllocate_wp service (Nat.pos_of_ne_zero full)).remember.mono ?_
  rintro _ fs₂ ⟨allocate, sector, rfl, allocated⟩
  obtain ⟨objects₂, same₂, unclaimed₂⟩ := quiet₁.volume.objects.allocated allocated
  have steady₂ := quiet₁.volume.steady objects₂ allocated.heap same₂
  have count₂ := allocated.count
  dsimp only
  rw [wp_bind]
  refine (objects₂.inodeCreate_wp allocated.used unclaimed₂ high).remember.mono
    fun created fs₃ ended => ?_
  obtain ⟨create, outcome, run, same₃, objects₃, unclaimed₃, made⟩ := ended
  have steady₃ := steady₂.trans (steady₂.volume.steady (by rw [live_congr steady₂.slots]; exact objects₃) run.heap
    fun other member => same₃ other (live_congr steady₂.slots ▸ member))
  have steady := quiet₁.steady.trans steady₃
  have session₃ := run.heap.session (allocated.heap.session session₁)
  have count₃ : freeCount fs₃ = freeCount fs₂ - wanted size := run.count
  have length : fs₃.freeMap.length = fs.freeMap.length := by
    rw [run.freeMap, allocated.map, List.length_set, quiet₁.store.freeMap]
  have mono (other : Sector) (before : Used fs other) : Used fs₃ other ∧ other ≠ sector := by
    rw [← quiet₁.store.used] at before
    refine ⟨run.mono other (allocated.mono before), ?_⟩
    rintro rfl
    exact allocated.unused before
  have afford : created = true ↔ FileFits fs size := by
    rw [outcome, Affordable, FileFits, wanted]
    constructor
    · rintro ⟨nonneg, small, enough⟩
      exact ⟨nonneg, small, by rw [if_neg (by omega)]; omega⟩
    · rintro ⟨nonneg, small, enough⟩
      rw [if_neg (by omega)] at enough
      exact ⟨nonneg, small, by omega⟩
  have mapInode₂ : fs₂.disk.view 0 = fs.disk.view 0 := by
    rw [← quiet₁.store.disk]
    exact allocated.touches.view fun mine => (quiet₁.volume.objects.blocks.service.used 0 (.inl mine)).2 rfl
  have nonzero : sector ≠ 0 := fun zero => unclaimed₂.not_live (.inl zero)
  have free₂ : freeCount fs₂ = freeCount fs - 1 := by omega
  have mapInode₃ (enough : 0 ≤ size → (missingBlocks (fun _ => 0) (bytesToSectors size))[freeCount fs - 1]? ≠ some true) :
      fs₃.disk.view 0 = fs.disk.view 0 := (run.unspoiled nonzero (by rwa [free₂])).trans mapInode₂
  cases created with
  | false =>
    have unfit : ¬ FileFits fs size := fun fits => by
      have impossible := afford.mpr fits
      cases impossible
    rw [if_neg (by decide)]
    refine (undoCreate_wp steady₃.volume session₃ reopened (run.mono _ allocated.used) (by
      rw [live_congr steady₃.slots]
      exact unclaimed₃)).mono fun success fs₄ ended => ?_
    obtain ⟨rfl, session₄, steady₄, count₄, length₄, mono₄, mapInode₄⟩ := ended
    refine ⟨⟨steady₄.volume, session₄, (steady.trans steady₄).keeps, iff_of_false Bool.false_ne_true fun fitting => unfit fitting.1,
      fun success => absurd success Bool.false_ne_true, fun _ =>
      ⟨steady₄.slots.trans steady.slots, length₄.trans length, fun other before => mono₄ other (mono other before).1 (mono other before).2,
        fun _ => by omega, fun fits => absurd fits unfit, fun fits => absurd fits unfit⟩, fun unspoiled =>
      mapInode₄.trans (mapInode₃ fun nonneg => unspoiled.file nonneg (by omega))⟩, fun success => absurd success Bool.false_ne_true⟩
  | true =>
    have fits := afford.mp rfl
    obtain ⟨whole, fresh, mapInode, unused⟩ := made rfl
    obtain ⟨_, _, enough⟩ := fits
    have root₃ := (root₁.trans (same₂ 1 Volume.root_live)).trans (same₃ 1 Volume.root_live)
    have pending : Pending fs fs₃ dir d sector size := by
      refine ⟨by rw [← live₁]; exact whole, steady, session₃, by rw [← live₁]; exact unclaimed₃, fresh, root₃, ?_⟩
      rw [run.heap.openInodes, allocated.heap.openInodes, ← live₁]
      exact quiet₁.volume.objects.blocks.opens
    rw [if_pos rfl]
    refine (nameFile_wp pending reopened plain).mono
      fun success fs₄ ended => ?_
    obtain ⟨volume₄, session₄, keeps₄, outcome₄, done, mapInode₄, failed⟩ := ended
    have same : freeCount fs - 1 - wanted size = freeCount fs₃ := by omega
    have done₄ (success' : success = true) : CreateDone fs fs₄ name size sector := by
      have added := done success'
      have room := (outcome₄.mp success').2.2
      have count₄ := added.count
      refine ⟨fun member => unclaimed₃.not_live (live₁ ▸ member), added.named, fresh.of_same added.same nonzero, ?_, by omega,
        fun place filled => ?_, fun other before => added.mono other (mono other before).1, added.length.trans length, added.rootLength⟩
      · refine (mapInode₄ fun _ => ?_).trans (mapInode.trans mapInode₂)
        rw [List.getElem?_eq_none room]
        exact (Option.some_ne_none true).symm
      · have before : ¬ Used fs₂ (claim fs₃ (sector, place)) ∨ claim fs₃ (sector, place) = sector := by
          cases place with
          | none => exact .inr rfl
          | some p => exact .inl (unused p (added.same.filled.mp filled))
        rw [added.same.claim]
        intro taken
        rw [← quiet₁.store.used] at taken
        rcases before with free | mine
        · exact free (allocated.mono taken)
        · exact allocated.unused (mine ▸ taken)
    refine ⟨⟨volume₄, session₄, steady.keeps.trans keeps₄ fun other member _ => by rwa [live_congr steady.slots], ?_,
      fun success => ⟨sector, done₄ success⟩, fun failure => ?_, fun unspoiled => ?_⟩,
      fun success => ⟨sector, fs₁, fs₂, fs₃, done₄ success, ?_⟩⟩
    · rw [outcome₄]
      constructor
      · rintro ⟨good, small, room⟩
        exact ⟨afford.mp rfl, good, small, by omega⟩
      · rintro ⟨_, good, small, room⟩
        exact ⟨good, small, by omega⟩
    · obtain ⟨slots₄, length₄, mono₄, bad₄, good₄⟩ := failed failure
      refine ⟨slots₄, length₄.trans length, fun other before => mono₄ other (mono other before).1 (mono other before).2,
        fun unfit => absurd (afford.mp rfl) unfit, fun _ bad => ?_, fun _ good => ?_⟩
      · have count₄ := bad₄ bad
        omega
      · have count₄ := good₄ good
        rw [same]
        omega
    · refine (mapInode₄ fun good => ?_).trans (mapInode.trans mapInode₂)
      rw [← same]
      exact unspoiled.entry (afford.mp rfl) good
    · have added := done success
      rw [live₁] at objects₂ unclaimed₂ same₂ same₃
      refine ⟨quiet₁.store, service, allocate, objects₂, allocated.used, unclaimed₂, create, added.same, fun other member notRoot => ?_,
        added.mono, added.count, added.length⟩
      have before : Same fs fs₃ other := ((quiet₁.store.same (data₁ other)).trans (same₂ other member)).trans (same₃ other member)
      exact before.trans (added.others other member notRoot)

theorem filesysCreate_wp (volume : Volume fs) (session : Session fs state) (plain : PlainName name) (high : size < 2147483648) :
    Wp (filesysCreate name size) (fun success fs' => CreateRan fs fs' state name size success) fs :=
  (filesysCreate_steps volume session plain high).mono fun _ _ => And.left

end Running

end Comp310.Fs
