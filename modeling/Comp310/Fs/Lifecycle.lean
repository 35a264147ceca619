import Comp310.Fs.Objects
import Comp310.Fs.Deallocate

/-! Opening, closing and removing inodes in the middle of live objects. -/

namespace Comp310.Fs
open Comp310.Lib

variable {live live' : Sector → Prop} {fs middle fs' : FileSystem} {sector : Sector} {addr : Addr} {inode : Inode} {tidy : Prop}

/-- The disk, the free map and where its file is. -/
structure SameStore (fs fs' : FileSystem) : Prop where
  disk : fs'.disk = fs.disk
  freeMap : fs'.freeMap = fs.freeMap
  freeMapFile : fs'.freeMapFile = fs.freeMapFile
  panics : fs'.panics = fs.panics

theorem SameStore.refl : SameStore fs fs := ⟨rfl, rfl, rfl, rfl⟩

theorem SameStore.trans (first : SameStore fs middle) (second : SameStore middle fs') : SameStore fs fs' :=
  ⟨second.disk.trans first.disk, second.freeMap.trans first.freeMap, second.freeMapFile.trans first.freeMapFile,
    second.panics.trans first.panics⟩

theorem SameStore.used (store : SameStore fs fs') : Used fs' = Used fs := by
  funext sector
  rw [Used, store.freeMap, Used]

theorem MapOpen.found (mapOpen : MapOpen fs) (handles : Handles fs) {file : File} (home : fs.freeMapFile = some file) :
    ∃ inode, fs.inode? file.inode = some inode ∧ inode.data = curData fs 0 := by
  obtain ⟨file', inode, home', member, zero, _⟩ := mapOpen
  cases home.symm.trans home'
  exact ⟨inode, handles.inode? member, by rw [← zero, handles.curData member]⟩

theorem SameStore.follows (store : SameStore fs fs') (handles : Handles fs) (mapOpen : MapOpen fs) (handles' : Handles fs')
    (mapOpen' : MapOpen fs') (data : curData fs' 0 = curData fs 0) : Follows fs fs' := by
  have same {file : File} {inode : Inode} (home : fs'.freeMapFile = some file) (found : fs'.inode? file.inode = some inode) :
      ∃ inode', fs.freeMapFile = some file ∧ fs.inode? file.inode = some inode' ∧ inode.data = inode'.data := by
    have home₀ := store.freeMapFile.symm.trans home
    obtain ⟨first, found', current⟩ := mapOpen.found handles home₀
    obtain ⟨second, found'', current'⟩ := mapOpen'.found handles' home
    cases found.symm.trans found''
    exact ⟨first, home₀, found', by rw [current, current', data]⟩
  have padded (padded : Padded fs) : Padded fs' := by
    intro file inode home found i past inside
    obtain ⟨inode', home', found', data⟩ := same home found
    rw [store.freeMap] at past inside
    rw [store.disk, data]
    exact padded file inode' home' found' i past inside
  refine ⟨padded, fun synced => ⟨padded synced.padded, fun file inode home found => ?_⟩⟩
  obtain ⟨inode', home', found', data⟩ := same home found
  rw [store.disk, store.freeMap, data]
  exact synced.bits file inode' home' found'

theorem SameStore.same (store : SameStore fs fs') (data : curData fs' sector = curData fs sector) : Same fs fs' sector := by
  refine ⟨data, fun _ _ _ => ?_, fun _ => ?_, fun _ _ _ => ?_⟩ <;> rw [store.disk]

section Open

/-- The inode of a live object is open, and nothing else has happened. -/
structure Opened (live : Sector → Prop) (fs fs' : FileSystem) (sector : Sector) (addr : Addr) (tidy : Prop := True) : Prop where
  objects : Objects live fs' tidy
  store : SameStore fs fs'
  dirs : fs'.dirs = fs.dirs
  cwd : fs'.cwd = fs.cwd
  fileTable : fs'.fileTable = fs.fileTable
  data : ∀ other, curData fs' other = curData fs other
  here : OpenAt fs' addr sector
  keep : ∀ entry ∈ fs.openInodes, entry ∈ fs'.openInodes
  only : ∀ entry ∈ fs'.openInodes, entry ∈ fs.openInodes ∨ entry.2.sector = sector

/-- The state with the inode of the sector read into memory. -/
def readIn (fs : FileSystem) (sector : Sector) : FileSystem :=
  { fs with
    openInodes := (fs.nextAddr, ⟨sector, 1, false, 0, InodeDisk.ofBlock (fs.disk.view sector)⟩) :: fs.openInodes
    nextAddr := fs.nextAddr + 1 }

theorem inodeOpen_closed (closed : ∀ entry ∈ fs.openInodes, entry.2.sector ≠ sector) (range : sector.toNat < fs.disk.size) :
    inodeOpen sector fs = some (fs.nextAddr, readIn fs sector) := by
  have start : (get : M FileSystem) fs = some (fs, fs) := rfl
  have fresh : newAddr fs = some (fs.nextAddr, { fs with nextAddr := fs.nextAddr + 1 }) := rfl
  have read : bufferCacheRead sector { fs with nextAddr := fs.nextAddr + 1 } = some (fs.disk.view sector, { fs with nextAddr := fs.nextAddr + 1 }) :=
    bufferCacheRead_eq range
  rw [inodeOpen, run_bind start, find_closed closed]
  exact (run_bind fresh _).trans (run_bind read _)

theorem curData_readIn (closed : ∀ entry ∈ fs.openInodes, entry.2.sector ≠ sector) (other : Sector) :
    curData (readIn fs sector) other = curData fs other := by
  unfold curData readIn
  rw [List.find?_cons]
  by_cases same : sector = other
  · subst same
    simp only [beq_self_eq_true]
    rw [find_closed closed]
  · simp only [beq_eq_false_iff_ne.mpr same]

theorem inodeOpen_wp (objects : Objects live fs tidy) (member : live sector) :
    Wp (inodeOpen sector) (fun addr fs' => Opened live fs fs' sector addr tidy) fs := by
  have blocks := objects.blocks
  rcases open_or_closed fs sector with ⟨⟨addr, inode⟩, opened, rfl⟩ | closed
  · rw [inodeOpen, wp_bind, wp_get, blocks.handles.find opened]
    exact (wp_pure _).mpr ⟨objects, .refl, rfl, rfl, rfl, fun _ => rfl, ⟨inode, opened, rfl⟩, fun _ => id, fun _ => .inl⟩
  · have range : sector.toNat < fs.disk.size := blocks.inRange (sector, none) member filled_inode
    refine Wp.of_eq (inodeOpen_closed closed range) ?_
    have data := curData_readIn closed
    generalize after_eq : readIn fs sector = after at data ⊢
    have entries : after.openInodes =
        (fs.nextAddr, ⟨sector, 1, false, 0, InodeDisk.ofBlock (fs.disk.view sector)⟩) :: fs.openInodes := by rw [← after_eq]; rfl
    have store : SameStore fs after := by rw [← after_eq]; exact ⟨rfl, rfl, rfl, rfl⟩
    have handles : Handles after := by
      obtain ⟨addrs, sectors, below, plain⟩ := blocks.handles
      refine ⟨?_, ?_, ?_, ?_⟩ <;> rw [entries]
      · rw [List.map_cons, List.nodup_cons]
        refine ⟨fun there => ?_, addrs⟩
        obtain ⟨entry, there, same⟩ := List.mem_map.mp there
        exact Nat.ne_of_lt (below entry there) same
      · rw [List.map_cons, List.nodup_cons]
        refine ⟨fun there => ?_, sectors⟩
        obtain ⟨entry, there, same⟩ := List.mem_map.mp there
        exact closed entry there same
      · intro entry there
        have next : after.nextAddr = fs.nextAddr + 1 := by rw [← after_eq]; rfl
        rw [next]
        rcases List.mem_cons.mp there with rfl | there
        · exact Nat.lt_succ_self _
        · exact Nat.lt_succ_of_lt (below entry there)
      · intro entry there
        rcases List.mem_cons.mp there with rfl | there
        · exact ⟨rfl, rfl, rfl⟩
        · exact plain entry there
    have opens : ∀ entry ∈ after.openInodes, live entry.2.sector := by
      rw [entries]
      intro entry there
      rcases List.mem_cons.mp there with rfl | there
      · exact member
      · exact blocks.opens entry there
    have mapOpen : MapOpen after := by
      obtain ⟨file, inode, home, there, zero, size⟩ := blocks.mapOpen
      exact ⟨file, inode, store.freeMapFile.trans home, entries ▸ List.mem_cons_of_mem _ there, zero, by rw [store.freeMap, size]⟩
    have follows := store.follows blocks.handles blocks.mapOpen handles mapOpen (data 0)
    have same (other : Sector) : Same fs after other := store.same (data other)
    have blocks' : Blocks live after := blocks.frame (fun _ => id) blocks.mapLive (by rw [store.disk]) (by rw [store.freeMap])
      store.panics handles opens mapOpen (follows.padded blocks.padded) (fun other there => (same other).sound (blocks.sound other there))
      (fun role _ filled => ⟨(same role.1).filled.mp filled, (same role.1).claim⟩)
      fun role there filled => store.used ▸ blocks.used role there filled
    refine ⟨objects.objects_of blocks' follows fun other _ => same other, store, ?_, ?_, ?_, data, ?_, ?_, ?_⟩
    · rw [← after_eq]
      rfl
    · rw [← after_eq]
      rfl
    · rw [← after_eq]
      rfl
    · exact ⟨_, entries ▸ List.mem_cons_self, rfl⟩
    · intro entry there
      exact entries ▸ List.mem_cons_of_mem _ there
    · rw [entries]
      intro entry there
      rcases List.mem_cons.mp there with rfl | there
      · exact .inr rfl
      · exact .inl there

end Open

section Close

/-- The state with one inode less in memory. -/
def dropInode (fs : FileSystem) (addr : Addr) : FileSystem :=
  { fs with openInodes := fs.openInodes.filter fun entry => entry.1 != addr }

theorem mem_dropInode {entry : Addr × Inode} : entry ∈ (dropInode fs addr).openInodes ↔ entry ∈ fs.openInodes ∧ entry.1 ≠ addr := by
  simp [dropInode]

theorem Handles.dropInode (handles : Handles fs) : Handles (dropInode fs addr) := by
  refine ⟨handles.addrs.sublist (List.filter_sublist.map _), handles.sectors.sublist (List.filter_sublist.map _),
    fun entry member => handles.below entry (mem_dropInode.mp member).1,
    fun entry member => handles.plain entry (mem_dropInode.mp member).1⟩

theorem Handles.curData_dropInode (handles : Handles fs) (opened : (addr, inode) ∈ fs.openInodes) :
    Fs.curData (Fs.dropInode fs addr) inode.sector = .ofBlock (fs.disk.view inode.sector) ∧
      ∀ other, other ≠ inode.sector → Fs.curData (Fs.dropInode fs addr) other = Fs.curData fs other := by
  constructor
  · refine curData_closed fun entry member same => ?_
    obtain ⟨member, differs⟩ := mem_dropInode.mp member
    have equal : entry = (addr, inode) := handles.same_sector member opened same
    exact differs (by rw [equal])
  · intro other differs
    rcases open_or_closed fs other with ⟨entry, member, rfl⟩ | closed
    · have member' : (entry.1, entry.2) ∈ (Fs.dropInode fs addr).openInodes := by
        refine mem_dropInode.mpr ⟨member, fun same => differs ?_⟩
        rw [handles.same_addr member opened same]
      rw [handles.dropInode.curData member', handles.curData (show (entry.1, entry.2) ∈ fs.openInodes from member)]
    · rw [curData_closed closed, curData_closed fun entry member => closed entry (mem_dropInode.mp member).1]
      rfl

theorem dropInode_store : SameStore fs (dropInode fs addr) := ⟨rfl, rfl, rfl, rfl⟩

theorem Blocks.mapOpen_dropInode (blocks : Blocks live fs) (opened : (addr, inode) ∈ fs.openInodes) (nonzero : inode.sector ≠ 0) :
    MapOpen (dropInode fs addr) := by
  obtain ⟨file, root, home, member, zero, size⟩ := blocks.mapOpen
  exact ⟨file, root, home, mem_dropInode.mpr ⟨member, blocks.mapFile_ne opened nonzero home⟩, zero, size⟩

/-- Objects may be read from the disk again, which forgets what only memory had
of them: blocks past their ends. -/
theorem Objects.reload (objects : Objects live fs tidy) (size : fs'.disk.size = fs.disk.size)
    (view : ∀ other, other.toNat < fs.disk.size → fs'.disk.view other = fs.disk.view other) (freeMap : fs'.freeMap = fs.freeMap)
    (panics : fs'.panics = fs.panics)
    (handles : Handles fs') (opens : ∀ entry ∈ fs'.openInodes, live entry.2.sector) (mapOpen : MapOpen fs')
    (follows : Follows fs fs') (data : ∀ other, live other → curData fs' other = curData fs other ∨
      other ≠ 0 ∧ curData fs' other = .ofBlock (fs.disk.view other)) :
    Objects live fs' tidy ∧ ∀ other, live other → Alike fs fs' other := by
  have blocks := objects.blocks
  have range (other : Sector) (there : live other) (p : InodePos) (present : blockAt fs.disk.view (curData fs other) p ≠ 0) :
      fs'.disk.view (blockAt fs.disk.view (curData fs other) p) = fs.disk.view (blockAt fs.disk.view (curData fs other) p) :=
    view _ (blocks.inRange (other, some p) there (filled_place.mpr present))
  have kept (other : Sector) (there : live other) (nonzero : other ≠ 0) (p : InodePos) :
      blockAt fs'.disk.view (.ofBlock (fs.disk.view other)) p = blockAt fs.disk.view (.ofBlock (fs.disk.view other)) p := by
    refine blockAt_congr p fun q _ present => ?_
    have same := ((objects.saved other there nonzero).blockAt q).resolve_right present
    rw [same] at present ⊢
    exact range other there q present
  -- what is read from the disk is what was in memory, less some of it
  have less (other : Sector) (there : live other) (p : InodePos) :
      blockAt fs'.disk.view (curData fs' other) p = blockAt fs.disk.view (curData fs other) p ∨
        blockAt fs'.disk.view (curData fs' other) p = 0 := by
    rcases data other there with same | ⟨nonzero, stored⟩
    · rw [same]
      exact .inl (blockAt_congr p fun q _ present => range other there q present)
    · rw [stored, kept other there nonzero p]
      exact (objects.saved other there nonzero).blockAt p
  have shape (other : Sector) (there : live other) : (curData fs' other).length = (curData fs other).length ∧
      (curData fs' other).isDir = (curData fs other).isDir ∧ ∀ p : InodePos, (p.first * 512 : Nat) < (curData fs other).length →
        blockAt fs'.disk.view (curData fs' other) p ≠ 0 := by
    rcases data other there with same | ⟨nonzero, stored⟩
    · rw [same]
      refine ⟨rfl, rfl, fun p need => ?_⟩
      rw [blockAt_congr p fun q _ present => range other there q present]
      exact (blocks.sound other there).mapped p need
    · have saved := objects.saved other there nonzero
      rw [stored]
      refine ⟨saved.length, saved.isDir, fun p need => ?_⟩
      rw [kept other there nonzero p]
      exact saved.mapped p (by rwa [saved.length])
  have bytes (other : Sector) (there : live other) (i : Nat) : fileByte fs'.disk.view (curData fs' other) i =
      if blockAt fs'.disk.view (curData fs' other) (.data (i / 512)) = 0 then 0
      else fileByte fs.disk.view (curData fs other) i := by
    unfold fileByte
    split
    next => rfl
    next present =>
      have same := (less other there _).resolve_right present
      rw [same] at present ⊢
      rw [if_neg present, range other there _ present]
  have alike (other : Sector) (there : live other) : Alike fs fs' other := by
    obtain ⟨length, isDir, mapped⟩ := shape other there
    refine ⟨length, isDir, fun i inside => ?_⟩
    have limit := (blocks.sound other there).limit
    rw [bytes other there, if_neg (mapped _ (by rw [data_first (by omega)]; omega))]
  have sound (other : Sector) (there : live other) : Sound fs' other := by
    obtain ⟨length, _, mapped⟩ := shape other there
    have before := blocks.sound other there
    exact ⟨by rw [length]; exact before.nonneg, by rw [length]; exact before.limit, by rw [length]; exact mapped⟩
  have claims (role : Role) (there : live role.1) (filled : Filled fs' role) : Filled fs role ∧ claim fs' role = claim fs role := by
    obtain ⟨other, _ | p⟩ := role
    · exact ⟨filled_inode, rfl⟩
    · rw [filled_place] at filled
      have same := (less other there p).resolve_right filled
      exact ⟨filled_place.mpr (same ▸ filled), same⟩
  have used (role : Role) (there : live role.1) (filled : Filled fs role) : Used fs' (claim fs role) := by
    rw [Used, freeMap]
    exact blocks.used role there filled
  refine ⟨⟨blocks.frame (fun _ => id) blocks.mapLive size (by rw [freeMap]) panics handles opens mapOpen (follows.padded blocks.padded)
    sound claims used, follows.synced objects.synced, fun other there nonzero => ?_, fun tidied other there _ i small past => ?_⟩, alike⟩
  · obtain ⟨length, isDir, mapped⟩ := shape other there
    have kept : fs'.disk.view other = fs.disk.view other := view other (blocks.inRange (other, none) there filled_inode)
    rw [Saved, kept]
    rcases data other there with same | ⟨_, stored⟩
    · have map : blockAt fs'.disk.view (curData fs' other) = blockAt fs.disk.view (curData fs other) := by
        funext p
        rw [same]
        exact blockAt_congr p fun q _ present => range other there q present
      have grows : Grows 0 (fun _ => True) (fun _ => True) (blockAt fs.disk.view (curData fs other))
          (blockAt fs'.disk.view (curData fs' other)) := by
        rw [map]
        exact .refl
      exact (objects.saved other there nonzero).grow grows length isDir (by rw [length]; exact mapped)
    · have mapped' := (sound other there).mapped
      rw [stored] at mapped' ⊢
      exact .refl mapped'
  · rw [(alike other there).length] at past
    rw [bytes other there, objects.slack tidied other there ‹_› i small past]
    split <;> rfl

theorem Objects.dropInode (objects : Objects live fs tidy) (opened : (addr, inode) ∈ fs.openInodes) (nonzero : inode.sector ≠ 0) :
    Objects live (Fs.dropInode fs addr) tidy ∧ ∀ other, live other → Alike fs (Fs.dropInode fs addr) other := by
  have blocks := objects.blocks
  obtain ⟨mine, others⟩ := blocks.handles.curData_dropInode opened
  have mapOpen := blocks.mapOpen_dropInode opened nonzero
  have follows := dropInode_store.follows blocks.handles blocks.mapOpen blocks.handles.dropInode mapOpen (others 0 (Ne.symm nonzero))
  refine objects.reload rfl (fun _ _ => rfl) rfl rfl blocks.handles.dropInode
    (fun entry there => blocks.opens entry (mem_dropInode.mp there).1) mapOpen follows fun other there => ?_
  by_cases own : other = inode.sector
  · subst own
    exact .inr ⟨nonzero, mine⟩
  · exact .inl (others other own)

theorem inodeClose_eq (handles : Handles fs) (opened : (addr, inode) ∈ fs.openInodes) :
    inodeClose addr fs = some (⟨⟩, dropInode fs addr) := by
  obtain ⟨count, kept, _⟩ := handles.plain _ opened
  dsimp only at count kept
  rw [inodeClose, run_bind (getInode_eq (handles.inode? opened)), count, if_pos (by decide)]
  simp only [kept, Bool.false_eq_true, if_false]
  rfl

end Close

section Remove

private theorem filter_change (entries : List (Addr × Inode)) (change : Inode → Inode) :
    (entries.map fun entry => if entry.1 = addr then (addr, change entry.2) else entry).filter (fun entry => entry.1 != addr) =
      entries.filter fun entry => entry.1 != addr := by
  induction entries with
  | nil => rfl
  | cons entry rest ih =>
    rw [List.map_cons, List.filter_cons, List.filter_cons, ih]
    by_cases same : entry.1 = addr <;> simp [same]

private theorem remove_eq (handles : Handles fs) (opened : (addr, inode) ∈ fs.openInodes) :
    (do
        inodeRemove addr
        inodeClose addr) fs =
      (do
        freeMapRelease inode.sector 1
        let _ ← inodeDeallocate (fun sector => freeMapRelease sector 1) inode.data
        pure PUnit.unit) (dropInode fs addr) := by
  obtain ⟨count, _, _⟩ := handles.plain _ opened
  dsimp only at count
  have found := handles.inode? opened
  let change (inode : Inode) : Inode := { inode with removed := true }
  have marked : inodeRemove addr fs = some (⟨⟩, { fs with
      openInodes := fs.openInodes.map fun entry => if entry.1 = addr then (addr, change entry.2) else entry }) := by
    rw [inodeRemove, run_bind (getInode_eq found)]
    rfl
  have found' : FileSystem.inode? { fs with
      openInodes := fs.openInodes.map fun entry => if entry.1 = addr then (addr, change entry.2) else entry } addr =
        some (change inode) := by
    rw [FileSystem.inode?, lookup_change change, show fs.openInodes.lookup addr = some inode from found]
    rfl
  rw [run_bind marked, inodeClose, run_bind (getInode_eq found')]
  simp only [change, count, if_true, Int.sub_self]
  have dropped : (modify fun fs => { fs with openInodes := fs.openInodes.filter fun entry => entry.1 != addr } : M PUnit)
      { fs with openInodes := fs.openInodes.map fun entry => if entry.1 = addr then (addr, change entry.2) else entry } =
        some (PUnit.unit, dropInode fs addr) := by
    rw [dropInode, ← filter_change fs.openInodes change]
    rfl
  rw [run_bind dropped]

/-- What removing an object from the disk leaves. -/
structure Removed (live : Sector → Prop) (fs fs' : FileSystem) (addr : Addr) (inode : Inode) : Prop where
  objects : Objects (fun other => live other ∧ other ≠ inode.sector) fs'
  heap : SameHeap (dropInode fs addr) fs'
  same : ∀ other, live other → other ≠ inode.sector → Same fs fs' other
  length : fs'.freeMap.length = fs.freeMap.length
  count : freeCount fs' = freeCount fs + 1 + sectorsNeeded (bytesToSectors inode.data.length)
  mapInode : fs'.disk.view 0 = fs.disk.view 0
  mono : ∀ other, Used fs other → (∀ place, Filled fs (inode.sector, place) → claim fs (inode.sector, place) ≠ other) → Used fs' other

theorem inodeRemove_wp (objects : Objects live fs) (opened : (addr, inode) ∈ fs.openInodes) (nonzero : inode.sector ≠ 0) :
    Wp (do
        inodeRemove addr
        inodeClose addr) (fun _ fs' => Removed live fs fs' addr inode) fs := by
  have blocks := objects.blocks
  have member := blocks.opens _ opened
  have was := blocks.handles.curData opened
  have readable := was ▸ blocks.readable member
  have held := was ▸ blocks.held member nonzero
  have distinct := was ▸ blocks.distinct member
  obtain ⟨_, others⟩ := blocks.handles.curData_dropInode opened
  have same₁ (other : Sector) (differs : other ≠ inode.sector) : Same fs (dropInode fs addr) other :=
    dropInode_store.same (others other differs)
  have mapOpen := blocks.mapOpen_dropInode opened nonzero
  have follows := dropInode_store.follows blocks.handles blocks.mapOpen blocks.handles.dropInode mapOpen
    (others 0 (Ne.symm nonzero))
  have blocks₁ : Blocks (fun other => live other ∧ other ≠ inode.sector) (dropInode fs addr) := by
    refine blocks.frame (fun _ => And.left) ⟨blocks.mapLive, Ne.symm nonzero⟩ rfl rfl rfl blocks.handles.dropInode ?_ mapOpen
      (follows.padded blocks.padded) (fun other there => (same₁ other there.2).sound (blocks.sound other there.1))
      (fun role there filled => ⟨(same₁ role.1 there.2).filled.mp filled, (same₁ role.1 there.2).claim⟩)
      fun role there filled => blocks.used role there.1 filled
    intro entry there
    obtain ⟨there, away⟩ := mem_dropInode.mp there
    refine ⟨blocks.opens entry there, fun equal => away ?_⟩
    have equal : entry = (addr, inode) := blocks.handles.same_sector there opened equal
    rw [equal]
  have objects₁ : Objects (fun other => live other ∧ other ≠ inode.sector) (dropInode fs addr) :=
    ⟨blocks₁, follows.synced objects.synced,
      fun other there nonzero' => (same₁ other there.2).saved (blocks.sound other there.1) nonzero'
        (objects.saved other there.1 nonzero'),
      fun _ other there nonzero' => (same₁ other there.2).blank nonzero' (objects.blank other there.1 nonzero')⟩
  have used₁ : Used (dropInode fs addr) inode.sector := blocks.used (inode.sector, none) member filled_inode
  have unclaimed : Unclaimed (fun other => live other ∧ other ≠ inode.sector) (dropInode fs addr) inode.sector := by
    intro role there filled equal
    rw [(same₁ role.1 there.2).filled] at filled
    rw [(same₁ role.1 there.2).claim] at equal
    have roles := blocks.apart role (inode.sector, none) there.1 member filled filled_inode equal
    exact there.2 (congrArg Prod.fst roles)
  suffices run : Wp (do
      freeMapRelease inode.sector 1
      let _ ← inodeDeallocate (fun sector => freeMapRelease sector 1) inode.data
      pure PUnit.unit) (fun _ fs' => Removed live fs fs' addr inode) (dropInode fs addr) by
    unfold Wp
    rw [remove_eq blocks.handles opened]
    exact run
  have data₁ : MapData (dropInode fs addr) = MapData fs := (same₁ 0 (Ne.symm nonzero)).mapData
  have index₁ : MapIndex (dropInode fs addr) = MapIndex fs := by
    funext other
    rw [MapIndex, MapIndex, others 0 (Ne.symm nonzero)]
    rfl
  rw [wp_bind]
  refine (objects₁.release_wp used₁ unclaimed).mono fun _ fs₂ outcome => ?_
  obtain ⟨released, objects₂, same₂⟩ := outcome
  rw [data₁, index₁] at released
  have map₂ : blockAt fs₂.disk.view inode.data = blockAt fs.disk.view inode.data := by
    funext p
    exact blockAt_congr p fun q _ present => released.touches.view (held.foreign q present).1
  have own {p : InodePos} (present : blockAt fs.disk.view inode.data p ≠ 0) :
      Filled fs (inode.sector, some p) ∧ claim fs (inode.sector, some p) = blockAt fs.disk.view inode.data p :=
    ⟨filled_place.mpr (was.symm ▸ present), by rw [claim, was]⟩
  have releasable : Releasable (MapData fs) (MapIndex fs) (fun p => p.first < bytesToSectors inode.data.length) fs₂
      (blockAt fs₂.disk.view inode.data) := by
    rw [map₂]
    refine ⟨fun p need => ?_, held.foreign, distinct⟩
    have limit := readable.limit
    have nonneg := readable.nonneg
    rw [bytesToSectors_eq nonneg (by omega)] at need
    have present := readable.mapped p (by omega)
    obtain ⟨filled, same⟩ := own present
    have used := blocks.used _ member filled
    rw [same] at used
    have differs : inode.sector.toNat ≠ (blockAt fs.disk.view inode.data p).toNat := by
      rw [ne_eq, UInt32.toNat_inj]
      intro equal
      have roles := blocks.apart (inode.sector, none) (inode.sector, some p) member member filled_inode filled (equal.trans same.symm)
      injection roles with _ roles
      cases roles
    refine ⟨present, ?_⟩
    rw [Used, released.map, List.getElem?_set_ne differs]
    exact used
  have opened₂ : fs₂.freeMapFile ≠ none := by
    obtain ⟨file, _, opened, _⟩ := objects₂.blocks.mapOpen
    rw [opened]
    exact Option.some_ne_none _
  have limit := readable.limit
  have nonneg := readable.nonneg
  rw [wp_bind]
  refine (inodeDeallocate_wp released.service opened₂ nonneg rfl ((bytesToSectors_le nonneg (by omega)).mpr limit)
    releasable).mono fun _ fs₃ freed => (wp_pure _).mpr ?_
  have data₂ : MapData fs₂ = MapData fs := ((same₂ 0 ⟨blocks.mapLive, Ne.symm nonzero⟩).mapData).trans data₁
  obtain ⟨objects₃, same₃⟩ := objects₂.quiet (fun _ => False) freed.heap freed.length freed.follows freed.touches
    (fun other mine => .inl (data₂ ▸ mine)) (fun _ _ _ => id) fun role there filled => by
      refine (freed.used _).mpr ⟨objects₂.blocks.used role there filled, ?_⟩
      rintro ⟨p, need, equal⟩
      have present := (releasable.present p need).1
      rw [map₂] at present equal
      obtain ⟨filled', same⟩ := own present
      have kept := (same₁ role.1 there.2).trans (same₂ role.1 there)
      rw [kept.claim, ← same] at equal
      have roles := blocks.apart role (inode.sector, some p) there.1 member (kept.filled.mp filled) filled' equal
      exact there.2 (congrArg Prod.fst roles)
  have mapInode : ¬ MapData fs 0 := fun mine => (blocks.service.used 0 (.inl mine)).2 rfl
  refine ⟨objects₃, released.heap.trans freed.heap, fun other there differs => ?_, ?_, ?_, ?_, fun other used foreign => ?_⟩
  · exact ((same₁ other differs).trans (same₂ other ⟨there, differs⟩)).trans (same₃ other ⟨there, differs⟩)
  · rw [freed.length, released.map, List.length_set]
    rfl
  · rw [freed.count, freeCount, released.map, count_set_false used₁]
    rfl
  · rw [freed.touches.view mapInode, released.touches.view mapInode]
    rfl
  · refine (freed.used other).mpr ⟨?_, ?_⟩
    · have differs : inode.sector.toNat ≠ other.toNat := by
        rw [ne_eq, UInt32.toNat_inj]
        exact foreign none filled_inode
      rw [Used, released.map, List.getElem?_set_ne differs]
      exact used
    · rintro ⟨p, need, equal⟩
      have present := (releasable.present p need).1
      rw [map₂] at present equal
      obtain ⟨filled, same⟩ := own present
      exact foreign (some p) filled (same.trans equal.symm)

end Remove

end Comp310.Fs
