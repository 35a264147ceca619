import Comp310.Fs.Root

/-! Opening and closing the root directory around an operation. There is at most
one open directory; it is the current directory, and it counts its openers. -/

namespace Comp310.Fs
open Comp310.Lib

/-- The root directory is closed, or open as this one directory. -/
def Session (fs : FileSystem) : Option (Addr × Dir) → Prop
  | none => fs.cwd = none ∧ fs.dirs = [] ∧ ∀ addr, ¬ OpenAt fs addr 1
  | some (dir, d) => fs.cwd = some dir ∧ fs.dirs = [(dir, d)] ∧ 1 ≤ d.openCnt ∧ OpenAt fs d.inode 1

/-- One more opener of the root directory. -/
def Reopened (state : Option (Addr × Dir)) (dir : Addr) (d : Dir) : Prop :=
  match state with
  | none => d.openCnt = 1 ∧ d.pos = 36
  | some (dir', d') => dir = dir' ∧ d = { d' with openCnt := d'.openCnt + 1 } ∧ 1 ≤ d'.openCnt

/-- As `Quiet`, whatever the objects are. -/
structure Aside (live : Sector → Prop) (fs fs' : FileSystem) (tidy : Prop := True) : Prop where
  objects : Objects live fs' tidy
  store : SameStore fs fs'
  fileTable : fs'.fileTable = fs.fileTable
  data : ∀ sector, sector ≠ 1 → curData fs' sector = curData fs sector
  root : Alike fs fs' 1
  opens : ∀ entry : Addr × Inode, entry.2.sector ≠ 1 → (entry ∈ fs'.openInodes ↔ entry ∈ fs.openInodes)

/-- Nothing has happened but to the root directory in memory. -/
structure Quiet (fs fs' : FileSystem) (tidy : Prop := True) : Prop where
  volume : Volume fs' tidy
  store : SameStore fs fs'
  fileTable : fs'.fileTable = fs.fileTable
  slots : slots fs' = slots fs
  data : ∀ sector, sector ≠ 1 → curData fs' sector = curData fs sector
  root : Alike fs fs' 1
  opens : ∀ entry : Addr × Inode, entry.2.sector ≠ 1 → (entry ∈ fs'.openInodes ↔ entry ∈ fs.openInodes)

variable {live : Sector → Prop} {fs middle fs' : FileSystem} {state : Option (Addr × Dir)} {dir : Addr} {d : Dir}
  {sector : Sector} {addr : Addr} {inode : Inode} {tidy : Prop}

theorem SameStore.curData (store : SameStore fs fs') (openInodes : fs'.openInodes = fs.openInodes) (sector : Sector) :
    curData fs' sector = curData fs sector := by
  unfold Fs.curData
  rw [openInodes, store.disk]

theorem Objects.congr (objects : Objects live fs tidy) (store : SameStore fs fs') (openInodes : fs'.openInodes = fs.openInodes)
    (next : fs.nextAddr ≤ fs'.nextAddr) : Objects live fs' tidy := by
  have blocks := objects.blocks
  have data := store.curData openInodes
  have same (other : Sector) : Same fs fs' other := store.same (data other)
  have handles : Handles fs' := by
    obtain ⟨addrs, sectors, below, plain⟩ := blocks.handles
    rw [← openInodes] at addrs sectors below plain
    exact ⟨addrs, sectors, fun entry member => Nat.lt_of_lt_of_le (below entry member) next, plain⟩
  have mapOpen : MapOpen fs' := by
    obtain ⟨file, inode, home, member, zero, size⟩ := blocks.mapOpen
    exact ⟨file, inode, store.freeMapFile.trans home, openInodes ▸ member, zero, by rw [store.freeMap, size]⟩
  have follows := store.follows blocks.handles blocks.mapOpen handles mapOpen (data 0)
  refine objects.objects_of (blocks.frame (fun _ => id) blocks.mapLive (by rw [store.disk]) (by rw [store.freeMap]) store.panics handles
    (by rw [openInodes]; exact blocks.opens) mapOpen (follows.padded blocks.padded)
    (fun other member => (same other).sound (blocks.sound other member))
    (fun role _ filled => ⟨(same role.1).filled.mp filled, (same role.1).claim⟩)
    fun role member filled => store.used ▸ blocks.used role member filled) follows fun other _ => same other

theorem SameStore.alike (store : SameStore fs fs') (data : Fs.curData fs' sector = Fs.curData fs sector) :
    Alike fs fs' sector := by
  refine ⟨by rw [data], by rw [data], fun _ _ => ?_⟩
  rw [data, store.disk]

theorem Volume.root_live : Live fs 1 := .inr (.inl rfl)

/-- The root directory in memory is no part of what the volume holds. -/
theorem Volume.quiet (volume : Volume fs tidy) (aside : Aside (Live fs) fs fs' tidy) : Quiet fs fs' tidy := by
  have same := aside.root.slots
  refine ⟨⟨by rw [live_congr same]; exact aside.objects, volume.root.congr same aside.root.length fun name sector named => ?_⟩,
    aside.store, aside.fileTable, same, aside.data, aside.root, aside.opens⟩
  rw [aside.data sector (volume.root.plain name sector named).2.2.2]

theorem Quiet.trans (first : Quiet fs middle tidy) (second : Quiet middle fs' tidy) : Quiet fs fs' tidy :=
  ⟨second.volume, first.store.trans second.store, second.fileTable.trans first.fileTable, second.slots.trans first.slots,
    fun sector other => (second.data sector other).trans (first.data sector other), first.root.trans second.root,
    fun entry other => (second.opens entry other).trans (first.opens entry other)⟩

theorem dirOpenRoot_first (objects : Objects live fs tidy) (alive : live 1) (session : Session fs none) :
    Wp dirOpenRoot (fun dir fs' => ∃ d, Session fs' (some (dir, d)) ∧ (d.openCnt = 1 ∧ d.pos = 36) ∧ Aside live fs fs' tidy ∧
      ∀ sector, curData fs' sector = curData fs sector) fs := by
  obtain ⟨cwd, dirs, _⟩ := session
  rw [dirOpenRoot, wp_bind, wp_get, cwd]
  dsimp only
  rw [wp_bind]
  refine (inodeOpen_wp objects alive).mono fun addr fs₁ opened => ?_
  simp only [dirOpen, newAddr, wp_bind, wp_get, wp_set, wp_modify, wp_pure]
  generalize after_eq : ({ fs₁ with
    dirs := (fs₁.nextAddr, ⟨addr, 36, 1⟩) :: fs₁.dirs, cwd := some fs₁.nextAddr, nextAddr := fs₁.nextAddr + 1 } :
      FileSystem) = after
  have store : SameStore fs₁ after := by rw [← after_eq]; exact ⟨rfl, rfl, rfl, rfl⟩
  have openInodes : after.openInodes = fs₁.openInodes := by rw [← after_eq]
  have objects' := opened.objects.congr store openInodes (by rw [← after_eq]; exact Nat.le_succ _)
  have data (sector : Sector) : curData after sector = curData fs sector :=
    (store.curData openInodes sector).trans (opened.data sector)
  have whole := opened.store.trans store
  refine ⟨⟨addr, 36, 1⟩, ⟨by rw [← after_eq], ?_, Int.le_refl 1, ?_⟩, ⟨rfl, rfl⟩,
    ⟨objects', whole, ?_, fun sector _ => data sector, whole.alike (data 1), fun entry other => ?_⟩, data⟩
  · rw [← after_eq]
    dsimp only
    rw [opened.dirs, dirs]
  · rw [OpenAt, openInodes]
    exact opened.here
  · rw [← after_eq]
    exact opened.fileTable
  · rw [openInodes]
    exact ⟨fun member => (opened.only entry member).resolve_right other, opened.keep entry⟩

theorem dirOpenRoot_wp (volume : Volume fs tidy) (session : Session fs state) :
    Wp dirOpenRoot (fun dir fs' => ∃ d, Session fs' (some (dir, d)) ∧ Reopened state dir d ∧ Quiet fs fs' tidy ∧
      ∀ sector, curData fs' sector = curData fs sector) fs := by
  cases state with
  | none =>
    refine (dirOpenRoot_first volume.objects Volume.root_live session).mono fun dir fs' ⟨d, session', first, aside, data⟩ => ?_
    exact ⟨d, session', first, volume.quiet aside, data⟩
  | some pair =>
    obtain ⟨dir, d⟩ := pair
    obtain ⟨cwd, dirs, count, here⟩ := session
    have found : getDir dir fs = some (d, fs) := by simp [getDir, FileSystem.dir?, dirs]
    rw [dirOpenRoot, wp_bind, wp_get, cwd]
    dsimp only
    rw [wp_bind]
    refine Wp.of_eq found ?_
    simp only [modifyDir, wp_bind, wp_modify, wp_pure]
    have objects : Objects (Live fs) { fs with dirs := fs.dirs.map fun entry =>
        if entry.1 = dir then (dir, { entry.2 with openCnt := entry.2.openCnt + 1 }) else entry } tidy :=
      volume.objects.congr ⟨rfl, rfl, rfl, rfl⟩ rfl (Nat.le_refl _)
    refine ⟨{ d with openCnt := d.openCnt + 1 }, ⟨cwd, ?_, ?_, here⟩, ⟨rfl, rfl, count⟩,
      volume.quiet ⟨objects, ⟨rfl, rfl, rfl, rfl⟩, rfl, fun _ _ => rfl, ⟨rfl, rfl, fun _ _ => rfl⟩, fun _ _ => Iff.rfl⟩, fun _ => rfl⟩
    · simp [dirs]
    · dsimp only
      omega

/-- The only opener of the root directory closes it, whatever the objects are. -/
theorem dirClose_only (objects : Objects live fs tidy) (alive : live 1) (session : Session fs (some (dir, d))) (one : d.openCnt = 1) :
    Wp (dirClose dir) (fun _ fs' => Session fs' none ∧ Aside live fs fs' tidy ∧ fs'.inode? d.inode = none) fs := by
  obtain ⟨cwd, dirs, count, inode, opened, home⟩ := session
  have handles := objects.blocks.handles
  have found : getDir dir fs = some (d, fs) := by simp [getDir, FileSystem.dir?, dirs]
  rw [dirClose, wp_bind]
  refine Wp.of_eq found ?_
  rw [if_pos (by omega), wp_bind]
  refine Wp.of_eq (inodeClose_eq handles opened) ?_
  rw [wp_modify]
  obtain ⟨dropped, alike⟩ := objects.dropInode opened (by rw [home]; decide)
  have alike := alike 1 alive
  obtain ⟨_, others⟩ := handles.curData_dropInode opened
  rw [home] at others
  have objects' : Objects live { dropInode fs d.inode with
      dirs := fs.dirs.filter fun entry => entry.1 != dir, cwd := none } tidy := dropped.congr ⟨rfl, rfl, rfl, rfl⟩ rfl (Nat.le_refl _)
  have closed (addr : Addr) : ¬ OpenAt { dropInode fs d.inode with
      dirs := fs.dirs.filter fun entry => entry.1 != dir, cwd := none } addr 1 := by
    rintro ⟨other, there, same⟩
    obtain ⟨there, differs⟩ := mem_dropInode.mp there
    refine differs ?_
    have equal : (addr, other) = (d.inode, inode) := handles.same_sector there opened (same.trans home.symm)
    exact congrArg Prod.fst equal
  refine ⟨⟨rfl, by simp [dropInode, dirs], closed⟩, ⟨objects', ⟨rfl, rfl, rfl, rfl⟩, rfl, others,
    ⟨alike.length, alike.isDir, alike.bytes⟩, fun entry other => ?_⟩, lookup_filter.trans (if_pos rfl)⟩
  refine Iff.trans mem_dropInode ⟨And.left, fun member => ⟨member, fun same => ?_⟩⟩
  have same : entry = (d.inode, inode) := handles.same_addr member opened same
  rw [same] at other
  exact other home

/-- The only opener of the root directory closes it, wherever it has read to. -/
theorem dirClose_last (volume : Volume fs tidy) (session : Session fs (some (dir, d))) (one : d.openCnt = 1) :
    Wp (dirClose dir) (fun _ fs' => Session fs' none ∧ Quiet fs fs' tidy) fs := by
  refine (dirClose_only volume.objects Volume.root_live session one).mono fun _ fs' ⟨session', aside, _⟩ => ?_
  exact ⟨session', volume.quiet aside⟩

theorem dirClose_wp (volume : Volume fs tidy) (session : Session fs (some (dir, d))) (reopened : Reopened state dir d) :
    Wp (dirClose dir) (fun _ fs' => Session fs' state ∧ Quiet fs fs' tidy) fs := by
  cases state with
  | none => exact dirClose_last volume session reopened.1
  | some pair =>
    obtain ⟨cwd, dirs, count, inode, opened, home⟩ := session
    have found : getDir dir fs = some (d, fs) := by simp [getDir, FileSystem.dir?, dirs]
    rw [dirClose, wp_bind]
    refine Wp.of_eq found ?_
    obtain ⟨dir', d'⟩ := pair
    obtain ⟨rfl, rfl, count'⟩ := reopened
    rw [if_neg (by dsimp only; omega), modifyDir, wp_modify]
    have objects : Objects (Live fs) { fs with dirs := fs.dirs.map fun entry =>
        if entry.1 = dir then (dir, { entry.2 with openCnt := entry.2.openCnt - 1 }) else entry } tidy :=
      volume.objects.congr ⟨rfl, rfl, rfl, rfl⟩ rfl (Nat.le_refl _)
    refine ⟨⟨cwd, ?_, count', inode, opened, home⟩,
      volume.quiet ⟨objects, ⟨rfl, rfl, rfl, rfl⟩, rfl, fun _ _ => rfl, ⟨rfl, rfl, fun _ _ => rfl⟩, fun _ _ => Iff.rfl⟩⟩
    simp [dirs]

end Comp310.Fs
