import Comp310.Fs.Creation

/-! `filesys_open` and `filesys_remove` on names of the root directory. -/

namespace Comp310.Fs
open Comp310.Lib

/-- An inode may have been opened, and the root directory opened and closed. -/
structure Calm (fs fs' : FileSystem) (tidy : Prop := True) : Prop where
  steady : Steady fs fs' tidy
  store : SameStore fs fs'
  data : ∀ sector, sector ≠ 1 → curData fs' sector = curData fs sector

variable {fs middle fs' : FileSystem} {name : CString} {sector : Sector} {state : Option (Addr × Dir)} {dir addr : Addr}
  {d : Dir} {live : Sector → Prop} {tidy : Prop}

theorem Calm.trans (first : Calm fs middle tidy) (second : Calm middle fs' tidy) : Calm fs fs' tidy :=
  ⟨first.steady.trans second.steady, first.store.trans second.store,
    fun sector other => (second.data sector other).trans (first.data sector other)⟩

theorem Quiet.calm (quiet : Quiet fs fs' tidy) : Calm fs fs' tidy := ⟨quiet.steady, quiet.store, quiet.data⟩

theorem Opened.calm (opened : Opened (Live fs) fs fs' sector addr tidy) (volume : Volume fs tidy) : Calm fs fs' tidy := by
  have same (other : Sector) : Alike fs fs' other := opened.store.alike (opened.data other)
  have slots := (same 1).slots
  refine ⟨⟨⟨by rw [live_congr slots]; exact opened.objects, volume.root.congr slots (same 1).length fun _ there _ => (same there).isDir⟩,
    ⟨opened.store.freeMapFile, opened.fileTable, fun other _ _ _ _ => same other, fun _ _ _ _ => opened.openAt,
      opened.data 0, fun other _ nonzero _ _ => (opened.store.same (opened.data other)).upToDate nonzero⟩, slots⟩,
    opened.store, fun other _ => opened.data other⟩

theorem Opened.session (opened : Opened live fs fs' sector addr tidy) (session : Session fs state) (notRoot : sector ≠ 1) :
    Session fs' state := by
  cases state with
  | none =>
    refine ⟨opened.cwd.trans session.1, opened.dirs.trans session.2.1, fun other ⟨inode, member, home⟩ => ?_⟩
    rcases opened.only _ member with before | same
    · exact session.2.2 other ⟨inode, before, home⟩
    · exact notRoot (same.symm.trans home)
  | some pair =>
    obtain ⟨cwd, dirs, count, there⟩ := session
    exact ⟨opened.cwd.trans cwd, opened.dirs.trans dirs, count, opened.openAt there⟩

theorem lookup_cases (volume : Volume fs tidy) (session : Session fs (some (dir, d))) (name : CString) :
    (lookup dir name fs = some (none, fs) ∧ ∀ sector, ¬ Named fs name sector) ∨
      ∃ e j, lookup dir name fs = some (some (e, ((36 * j : Nat) : Int)), fs) ∧ 1 ≤ j ∧ (slots fs)[j]? = some e ∧
        e.inUse = true ∧ e.fname = name := by
  have search : lookup dir name fs = some (findFrom name 1 ((slots fs).drop 1), fs) :=
    lookup_eq volume.objects.blocks session
  cases found : findFrom name 1 ((slots fs).drop 1) with
  | none =>
    refine .inl ⟨by rw [search, found], fun sector named => ?_⟩
    obtain ⟨_, _, found', _⟩ := (findFrom_named volume.root sector).mp named
    rw [found] at found'
    cases found'
  | some pair =>
    obtain ⟨e, ofs⟩ := pair
    obtain ⟨j, there, rfl, used, same⟩ := findFrom_some found
    rw [List.getElem?_drop] at there
    exact .inr ⟨e, 1 + j, by rw [search, found], by omega, there, used, same⟩

/-- Only the last token of a path matters: every file is looked for in the root directory. -/
theorem filesysOpen_path_wp (volume : Volume fs tidy) (session : Session fs state) {path : CString} (nonempty : path ≠ [])
    (last : (splitPathFilename path).2 = name) (plain : PlainName name) :
    Wp (filesysOpen path) (fun found fs' => Calm fs fs' tidy ∧ Session fs' state ∧
      (found = none → ∀ sector, ¬ Named fs name sector) ∧
      ∀ file, found = some file → file = fileOpen file.inode ∧ ∃ sector, Named fs name sector ∧ OpenAt fs' file.inode sector) fs := by
  rw [filesysOpen, if_neg nonempty, last]
  dsimp only
  rw [wp_bind]
  refine (dirOpenRoot_wp volume session).mono fun dir fs₁ ⟨d, session₁, reopened, quiet₁, _⟩ => ?_
  rw [if_pos plain.nonempty, wp_bind, dirLookup, wp_bind]
  refine Wp.of_eq session₁.getDir ?_
  rw [if_neg plain.notDot, if_neg plain.notDotDot, wp_bind]
  have names := named_congr quiet₁.slots
  rcases lookup_cases quiet₁.volume session₁ name with ⟨search, missing⟩ | ⟨e, j, search, low, there, used, same⟩
  · refine Wp.of_eq search ((wp_pure _).mpr ?_)
    rw [wp_bind]
    refine (dirClose_wp quiet₁.volume session₁ reopened).mono fun _ fs₂ ⟨session₂, quiet₂⟩ => (wp_pure _).mpr ?_
    exact ⟨quiet₁.calm.trans quiet₂.calm, session₂, fun _ => names ▸ missing, nofun⟩
  · refine Wp.of_eq search ?_
    have named : Named fs₁ name e.inodeSector := ⟨j, e, low, there, used, same, rfl⟩
    rw [wp_bind]
    refine (inodeOpen_wp quiet₁.volume.objects named.live).mono fun addr fs₂ opened => (wp_pure _).mpr ?_
    have calm := opened.calm quiet₁.volume
    have notRoot := (quiet₁.volume.root.plain name _ named).2.2.2
    rw [wp_bind]
    refine (dirClose_wp calm.steady.volume (opened.session session₁ notRoot) reopened).mono fun _ fs₃ ⟨session₃, quiet₃⟩ => ?_
    have still : OpenAt fs₃ addr e.inodeSector := quiet₃.calm.steady.keeps.opens addr _ notRoot id opened.here
    obtain ⟨inode, member, home⟩ := still
    have handles := quiet₃.volume.objects.blocks.handles
    have kept : inode.removed = false := (handles.plain _ member).2.1
    rw [wp_bind, wp_pure]
    dsimp only
    rw [wp_bind]
    refine Wp.of_eq (getInode_eq (handles.inode? member)) ?_
    rw [kept, if_neg (by decide), wp_pure]
    refine ⟨(quiet₁.calm.trans calm).trans quiet₃.calm, session₃, nofun, fun file opened' => ?_⟩
    cases opened'
    exact ⟨rfl, e.inodeSector, names ▸ named, inode, member, home⟩

theorem filesysOpen_wp (volume : Volume fs tidy) (session : Session fs state) (plain : PlainName name) :
    Wp (filesysOpen name) (fun found fs' => Calm fs fs' tidy ∧ Session fs' state ∧
      (found = none → ∀ sector, ¬ Named fs name sector) ∧
      ∀ file, found = some file → file = fileOpen file.inode ∧ ∃ sector, Named fs name sector ∧ OpenAt fs' file.inode sector) fs :=
  filesysOpen_path_wp volume session plain.nonempty (by rw [plain.split]) plain

theorem filesysOpen_root (volume : Volume fs tidy) (session : Session fs none) {path : CString} (nonempty : path ≠ [])
    (last : (splitPathFilename path).2 = []) :
    Wp (filesysOpen path) (fun found fs' => ∃ dir d inode, found = some (fileOpen d.inode) ∧ d.pos = 36 ∧
      Session fs' (some (dir, d)) ∧ Quiet fs fs' tidy ∧ (d.inode, inode) ∈ fs'.openInodes ∧ inode.sector = 1 ∧
      ∀ sector, curData fs' sector = curData fs sector) fs := by
  rw [filesysOpen, if_neg nonempty, last]
  dsimp only
  rw [wp_bind]
  refine (dirOpenRoot_wp volume session).mono fun dir fs₁ outcome => ?_
  obtain ⟨d, session, ⟨_, pos⟩, quiet, data⟩ := outcome
  obtain ⟨inode, opened, home, _⟩ := session.root quiet.volume.objects.blocks
  have handles := quiet.volume.objects.blocks.handles
  rw [if_neg (by simp), wp_bind]
  refine Wp.of_eq session.getDir ?_
  rw [pure_bind, wp_bind]
  refine Wp.of_eq (getInode_eq (handles.inode? opened)) ?_
  rw [(handles.plain _ opened).2.1]
  exact (wp_pure _).mpr ⟨dir, d, inode, rfl, pos, session, quiet, opened, home, data⟩

structure RemoveDone (fs fs' : FileSystem) (name : CString) (sector : Sector) : Prop where
  named : Named fs name sector
  names : ∀ other there, Named fs' other there ↔ Named fs other there ∧ other ≠ name
  keeps : Keeps (· = sector) fs fs'
  mapInode : fs'.disk.view 0 = fs.disk.view 0
  length : (curData fs' 1).length = (curData fs 1).length
  count : freeCount fs' = freeCount fs + 1 + sectorsNeeded (bytesToSectors (curData fs sector).length)
  mono : ∀ other, Used fs other → (∀ place, Filled fs (sector, place) → claim fs (sector, place) ≠ other) → Used fs' other
  size : fs'.freeMap.length = fs.freeMap.length

private theorem dirRemove_wp (volume : Volume fs) (session : Session fs (some (dir, d))) :
    Wp (dirRemove dir name) (fun removed fs' => Volume fs' ∧ Session fs' (some (dir, d)) ∧
      (removed = false → fs' = fs ∧ ∀ sector, ¬ Named fs name sector) ∧
      (removed = true → ∃ sector, RemoveDone fs fs' name sector)) fs := by
  have there := session.dirAt
  rcases lookup_cases volume session name with ⟨search, missing⟩ | ⟨e, j, search, low, place, used, same⟩
  · rw [lookup_eq volume.objects.blocks session] at search
    refine Wp.of_eq (there.dirRemove_missing volume.objects.blocks (Prod.mk.inj (Option.some.inj search)).1) ?_
    exact ⟨volume, session, fun _ => ⟨rfl, missing⟩, nofun⟩
  rw [lookup_eq volume.objects.blocks session] at search
  have found : findFrom name 1 ((entriesAt fs 1).drop 1) = some (e, ((36 * j : Nat) : Int)) := (Prod.mk.inj (Option.some.inj search)).1
  have named : Named fs name e.inodeSector := ⟨j, e, low, place, used, same, rfl⟩
  obtain ⟨_, _, nonzero, notRoot⟩ := volume.root.plain name _ named
  refine (there.dirRemove_wp volume.objects (by decide) Volume.root_live found named.live nonzero notRoot
    (volume.root.regular name _ named)).mono fun removed fs' ⟨success, done⟩ => ?_
  have names := fun other there' => named_clear volume.root done.entries low place used other there'
  rw [same] at names
  have live : Live fs' = fun other => Live fs other ∧ other ≠ e.inodeSector := by
    funext other
    simp only [Live, names, eq_iff_iff]
    constructor
    · rintro (zero | one | ⟨other', there', differs⟩)
      · exact ⟨.inl zero, zero ▸ Ne.symm nonzero⟩
      · exact ⟨.inr (.inl one), one ▸ Ne.symm notRoot⟩
      · refine ⟨.inr (.inr ⟨other', there'⟩), ?_⟩
        rintro rfl
        exact differs (volume.root.injective there' named)
    · rintro ⟨zero | one | ⟨other', there'⟩, differs⟩
      · exact .inl zero
      · exact .inr (.inl one)
      · refine .inr (.inr ⟨other', there', ?_⟩)
        rintro rfl
        exact differs (volume.root.functional there' named)
  have file (other : Sector) (there : Live fs other) (nonzero : other ≠ 0) (notRoot : other ≠ 1) (differs : other ≠ e.inodeSector) :
      Alike fs fs' other := (done.same other there notRoot differs).alike nonzero
  have root' : Root fs' := by
    refine volume.root.clear done.entries (by rw [done.length]; exact volume.root.whole) low place used fun other there' named' differs => ?_
    obtain ⟨_, _, nonzero', notRoot'⟩ := volume.root.plain other there' named'
    refine (file there' named'.live nonzero' notRoot' ?_).isDir
    rintro rfl
    exact differs (by rw [same]; exact volume.root.injective named' named)
  refine ⟨⟨by rw [live]; exact done.objects, root'⟩, ?_, fun failure => ?_, fun _ => ⟨_, named, names, ⟨done.freeMapFile, done.fileTable,
    file, fun key other _ differs => done.opens key other differs, (done.same 0 (.inl rfl) (by decide) (Ne.symm nonzero)).data,
    fun other there nonzero notRoot differs => (done.same other there notRoot differs).upToDate nonzero⟩, done.mapInode, done.length,
    done.count, done.mono, done.size⟩⟩
  · obtain ⟨cwd, dirs, count, here⟩ := session
    exact ⟨done.cwd.trans cwd, done.dirs.trans dirs, count, done.opens _ _ (Ne.symm notRoot) here⟩
  · cases failure.symm.trans success

theorem filesysRemove_wp (volume : Volume fs) (session : Session fs none) (plain : PlainName name) :
    Wp (filesysRemove name) (fun removed fs' => Volume fs' ∧ Session fs' none ∧
      (removed = false → Calm fs fs' ∧ ∀ sector, ¬ Named fs name sector) ∧
      (removed = true → ∃ sector, RemoveDone fs fs' name sector)) fs := by
  rw [filesysRemove, plain.split]
  dsimp only
  rw [wp_bind, dirOpenPath, wp_bind, wp_get, List.head?_nil, if_neg nofun, session.1]
  dsimp only
  rw [wp_bind]
  refine (dirOpenRoot_wp volume session).mono fun dir fs₁ ⟨d, session₁, reopened, quiet₁, data₁⟩ => ?_
  have nothing : tokens [] = [] := rfl
  rw [nothing, walkPath, wp_bind, wp_pure]
  obtain ⟨root, member, home, _, _⟩ := session₁.root quiet₁.volume.objects.blocks
  have handles := quiet₁.volume.objects.blocks.handles
  have kept : root.removed = false := (handles.plain _ member).2.1
  dsimp only
  rw [wp_bind]
  refine Wp.of_eq session₁.getDir ?_
  rw [wp_bind]
  refine Wp.of_eq (getInode_eq (handles.inode? member)) ?_
  rw [kept, if_neg (by decide), wp_pure]
  dsimp only
  rw [wp_bind]
  refine (dirRemove_wp quiet₁.volume session₁).mono fun removed fs₂ ⟨volume₂, session₂, failed, done⟩ => ?_
  rw [wp_bind]
  refine (dirClose_wp volume₂ session₂ reopened).mono fun _ fs₃ ⟨session₃, quiet₃⟩ => (wp_pure _).mpr ?_
  have names₁ := named_congr quiet₁.slots
  have live₁ := live_congr quiet₁.slots
  refine ⟨quiet₃.volume, session₃, fun failure => ?_, fun success => ?_⟩
  · obtain ⟨rfl, missing⟩ := failed failure
    exact ⟨quiet₁.calm.trans quiet₃.calm, names₁ ▸ missing⟩
  · obtain ⟨sector, done⟩ := done success
    obtain ⟨_, _, nonzero, notRoot⟩ := quiet₁.volume.root.plain name _ done.named
    refine ⟨sector, names₁ ▸ done.named, fun other there => ?_, ?_, ?_, ?_, ?_, fun other used foreign => ?_, ?_⟩
    · rw [named_congr quiet₃.slots, done.names, names₁]
    · have first : Keeps (· = sector) fs fs₁ := quiet₁.steady.keeps.mono nofun
      have last : Keeps (· = sector) fs₂ fs₃ := quiet₃.steady.keeps.mono nofun
      refine (first.trans done.keeps fun other there _ => live₁ ▸ there).trans last fun other there differs => ?_
      rcases there with zero | one | ⟨other', named⟩
      · exact .inl zero
      · exact .inr (.inl one)
      · refine .inr (.inr ⟨other', (done.names other' other).mpr ⟨names₁ ▸ named, ?_⟩⟩)
        rintro rfl
        exact differs (quiet₁.volume.root.functional (names₁ ▸ named) done.named)
    · rw [quiet₃.store.disk, done.mapInode, quiet₁.store.disk]
    · rw [quiet₃.root.length, done.length, quiet₁.root.length]
    · have count := done.count
      rw [freeCount, quiet₃.store.freeMap, ← freeCount, count, freeCount, quiet₁.store.freeMap, data₁]
      rfl
    · have same := quiet₁.store.same (data₁ sector)
      rw [quiet₃.store.used]
      refine done.mono other (quiet₁.store.used ▸ used) fun place filled => ?_
      rw [same.claim]
      exact foreign place (same.filled.mp filled)
    · rw [quiet₃.store.freeMap, done.size, quiet₁.store.freeMap]

end Comp310.Fs
