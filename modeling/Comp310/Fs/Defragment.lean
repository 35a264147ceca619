import Comp310.Lib.Bytes
import Comp310.Fs.Layout
import Comp310.Fs.Listing

/-! `defragment`: all files are read into memory, removed, and written again one after another. -/

namespace Comp310.Fs
open Comp310.Lib

/-- What `defragment` leaves of a file system. -/
structure Defragmented (fs fs' : FileSystem) : Prop where
  running : Running fs' none
  names : ∀ name, (∃ sector, Named fs' name sector) ↔ ∃ sector, Named fs name sector
  content : ∀ name sector sector', Named fs name sector → Named fs' name sector' →
    contentOf fs' sector' = terminated (contentOf fs sector)
  upToDate : ∀ name sector, Named fs' name sector → UpToDate fs' sector
  mapInode : fs'.disk.view 0 = fs.disk.view 0
  map : curData fs' 0 = curData fs 0
  count : freeCount fs' = freeCount fs

variable {fs middle fs' : FileSystem} {state : Option (Addr × Dir)} {name : CString} {sector : Sector} {dir : Addr} {d : Dir}

section Collecting

theorem countFiles_eq (dir : Addr) (fuel : Nat) : countFiles dir fuel = List.length <$> forEachFile dir (pure (f := M)) fuel := by
  induction fuel with
  | zero => rfl
  | succ fuel ih =>
    rw [countFiles, forEachFile, map_bind]
    congr
    funext found
    cases found with
    | none => rfl
    | some name => simp [ih]

/-- What is in the array for a file. -/
structure Collected (fs : FileSystem) (file : NewFile) : Prop where
  size : file.size = file.content.length
  content : ∃ sector, Named fs file.name sector ∧ file.content = contentOf fs sector

private theorem collectFile_wp (next : NewFile → M α) {post : α → FileSystem → Prop} (browsed : Browsed fs middle (some (dir, d)))
    (named : Named fs name sector)
    (rest : ∀ file fs', file.name = name → Collected fs file → Browsed fs fs' (some (dir, d)) → Wp (next file) post fs') :
    Wp (do
        let size ← fsutilSize name
        match ← filesysOpen name with
        | none => fault
        | some file => do
          let (content, _) ← fileRead { file with pos := 0 } size
          if content.length ≠ size then fault else next ⟨content, name, size⟩) post middle := by
  have root := browsed.running.volume.root
  have named₁ : Named middle name sector := browsed.named ▸ named
  obtain ⟨plain, _, _, notRoot⟩ := root.plain name sector named₁
  rw [wp_bind]
  refine (fsutilSize_there browsed.running plain named₁).mono fun size fs₁ ⟨looked₁, _, sized⟩ => ?_
  rw [browsed.data _ notRoot] at sized
  have browsed₁ := browsed.trans looked₁.browsed
  rw [wp_bind]
  refine (filesysOpen_wp browsed₁.running.volume browsed₁.running.session plain).mono
    fun found fs₂ ⟨calm, session, missing, opened⟩ => ?_
  have named₂ : Named fs₁ name sector := browsed₁.named ▸ named
  have looked₂ : Looked fs₁ fs₂ (some (dir, d)) name := calm.looked browsed₁.running session
  have browsed₂ := browsed₁.trans looked₂.browsed
  cases found with
  | none => exact absurd named₂ (missing rfl sector)
  | some file =>
    obtain ⟨_, there, named', here⟩ := opened file rfl
    obtain rfl := browsed₁.running.volume.root.functional named₂ named'
    have live : Live fs₂ sector := (browsed₂.named ▸ named : Named fs₂ name sector).live
    have whole := contentOf_length browsed₂.running live
    have same := (browsed₂.alike notRoot).contentOf
    rw [browsed₂.data _ notRoot, same, ← sized] at whole
    have read := OpenAt.read (show OpenAt fs₂ ({ file with pos := 0 } : File).inode sector from here) browsed₂.running (Int.le_refl 0) size
    rw [available, Int.toNat_zero, List.drop_zero, same, List.take_of_length_le (by omega)] at read
    dsimp only
    rw [wp_bind, fileRead, wp_bind]
    refine Wp.of_eq read ?_
    rw [wp_pure]
    dsimp only
    rw [if_neg (by omega)]
    exact rest _ fs₂ rfl ⟨whole.1.symm, sector, named, rfl⟩ browsed₂

private theorem collectFiles_wp (browsed : Browsed fs middle (some (dir, d))) (left i : Nat) (low : 1 ≤ i)
    (pos : d.pos = (36 * i : Nat)) (counted : (namesIn ((slots fs).drop i)).length = left) :
    Wp (collectFiles dir left) (fun files fs' => files.map (·.name) = namesIn ((slots fs).drop i) ∧
      (∀ file ∈ files, Collected fs file) ∧ ∃ d', d'.openCnt = d.openCnt ∧ Browsed fs fs' (some (dir, d'))) middle := by
  induction left generalizing middle d i with
  | zero =>
    rw [collectFiles, wp_bind]
    refine (dirReaddir_wp browsed.running pos).mono fun _ fs' ⟨_, d', count, _, moved⟩ => (wp_pure _).mpr ?_
    exact ⟨(List.length_eq_zero_iff.mp counted).symm, nofun, d', count, browsed.trans moved⟩
  | succ left ih =>
    rw [collectFiles, wp_bind]
    refine (dirReaddir_wp browsed.running pos).mono fun found fs₁ ⟨next, d₁, count, place, moved⟩ => ?_
    rw [browsed.slots] at next place
    have browsed₁ := browsed.trans moved
    cases found with
    | none =>
      rw [nameFrom_none next.symm] at counted
      cases counted
    | some name =>
      obtain ⟨k, position, _, rest⟩ := nameFrom_some next.symm
      rw [position] at place
      obtain ⟨sector, named⟩ := mem_names.mp (mem_of_namesIn low (rest ▸ List.mem_cons_self))
      rw [List.drop_drop, ← Nat.add_assoc] at rest
      rw [rest, List.length_cons, Nat.add_right_cancel_iff] at counted
      refine collectFile_wp (fun file => do
        let files ← collectFiles dir left
        pure (file :: files)) browsed₁ named fun file fs₂ same collected browsed₂ => ?_
      rw [wp_bind]
      refine (ih browsed₂ (i + k + 1) (by omega) place counted).mono fun files fs' ⟨names, all, d', count', browsed'⟩ =>
        (wp_pure _).mpr ⟨?_, List.forall_mem_cons.mpr ⟨collected, all⟩, d', count'.trans count, browsed'⟩
      rw [List.map_cons, same, names, rest]

end Collecting

section Rewriting
variable {files done : List NewFile} {file : NewFile}

/-- The sectors of a file's inode and blocks. -/
def fileCost (file : NewFile) : Nat := 1 + sectorsNeeded (bytesToSectors file.content.length)

/-- What neither the removal nor the writing of files changes, beside how many sectors are free. -/
structure SameFrame (fs fs' : FileSystem) : Prop where
  slots : (slots fs').length = (slots fs).length
  mapInode : fs'.disk.view 0 = fs.disk.view 0
  map : curData fs' 0 = curData fs 0

private theorem SameFrame.trans (first : SameFrame fs middle) (second : SameFrame middle fs') : SameFrame fs fs' :=
  ⟨second.slots.trans first.slots, second.mapInode.trans first.mapInode, second.map.trans first.map⟩

private theorem removeFiles_wp (running : Running fs none) (nodup : (files.map (·.name)).Nodup)
    (names : ∀ name, (∃ sector, Named fs name sector) ↔ name ∈ files.map (·.name))
    (sizes : ∀ file ∈ files, ∀ sector, Named fs file.name sector → (curData fs sector).length = file.content.length) :
    Wp (removeFiles files) (fun _ fs' => Running fs' none ∧ (∀ name sector, ¬ Named fs' name sector) ∧ SameFrame fs fs' ∧
      freeCount fs' = freeCount fs + (files.map fileCost).sum) fs := by
  induction files generalizing fs with
  | nil =>
    refine (wp_pure _).mpr ⟨running, fun name sector named => ?_, ⟨rfl, rfl, rfl⟩, rfl⟩
    cases (names name).mp ⟨sector, named⟩
  | cons file rest ih =>
    rw [List.map_cons, List.nodup_cons] at nodup
    obtain ⟨sector, named⟩ := (names file.name).mpr List.mem_cons_self
    have plain := (running.volume.root.plain _ _ named).1
    rw [removeFiles, wp_bind]
    refine (fsutilRm_wp running plain).mono ?_
    rintro result fs₁ (⟨_, missing, _⟩ | ⟨_, there, gone⟩)
    · exact absurd named (missing sector)
    · obtain rfl := running.volume.root.functional named gone.named
      have slots₁ : (slots fs₁).length = (slots fs).length := by
        rw [slots, slots, slotsOf_length, slotsOf_length, gone.length]
      have named₁ (name : CString) : (∃ there, Named fs₁ name there) ↔ name ∈ rest.map (·.name) := by
        constructor
        · rintro ⟨there, named'⟩
          obtain ⟨before, differs⟩ := (gone.names name there).mp named'
          exact (List.mem_cons.mp ((names name).mp ⟨there, before⟩)).resolve_left differs
        · intro member
          obtain ⟨there, before⟩ := (names name).mpr (List.mem_cons_of_mem _ member)
          exact ⟨there, (gone.names name there).mpr ⟨before, fun same => nodup.1 (same ▸ member)⟩⟩
      have sizes₁ (other : NewFile) (member : other ∈ rest) (there : Sector) (named' : Named fs₁ other.name there) :
          (curData fs₁ there).length = other.content.length := by
        obtain ⟨before, differs⟩ := (gone.names other.name there).mp named'
        obtain ⟨_, _, nonzero, notRoot⟩ := running.volume.root.plain _ _ before
        have elsewhere : there ≠ sector := fun same => differs (running.volume.root.injective before (same ▸ named))
        rw [(gone.files there before.live nonzero notRoot elsewhere).length]
        exact sizes other (List.mem_cons_of_mem _ member) there before
      refine (ih gone.running nodup.2 named₁ sizes₁).mono fun _ fs' rest => ?_
      obtain ⟨running', empty, frame, count⟩ := rest
      refine ⟨running', empty, .trans ⟨slots₁, gone.mapInode, gone.map⟩ frame, ?_⟩
      have size := sizes file List.mem_cons_self sector named
      rw [count, gone.count, size, List.map_cons, List.sum_cons, fileCost]
      omega

/-- The files that have been written again, of all that there were. -/
structure Rewritten (fs : FileSystem) (done : List NewFile) : Prop where
  running : Running fs none
  nodup : (done.map (·.name)).Nodup
  names : ∀ name, (∃ sector, Named fs name sector) ↔ name ∈ done.map (·.name)
  content : ∀ file ∈ done, ∀ sector, Named fs file.name sector → contentOf fs sector = terminated file.content
  upToDate : ∀ name sector, Named fs name sector → UpToDate fs sector

private theorem Rewritten.count (rewritten : Rewritten fs done) : (Fs.names fs).length = done.length := by
  have same : (Fs.names fs).Perm (done.map (·.name)) := by
    rw [List.perm_ext_iff_of_nodup rewritten.running.volume.root.names_nodup rewritten.nodup]
    exact fun name => mem_names.trans (rewritten.names name)
  rw [same.length_eq, List.length_map]

private theorem fillFile_wp {content : List UInt8} (running : Running fs none) (named : Named fs name sector)
    (start : posOf fs name = 0) (length : (curData fs sector).length = content.length) :
    Wp (fsutilWrite name content) (fun _ fs' => Written fs fs' none name sector 0 (terminated content) true ∧
      contentOf fs' sector = terminated content ∧ freeCount fs' = freeCount fs) fs := by
  have plain := (running.volume.root.plain _ _ named).1
  have readable := running.volume.objects.blocks.readable named.live
  have limit := (contentOf_length running named.live).2
  have nothing : shortOf fs (curData fs sector) (0 + (terminated content).length : Nat) = [] :=
    shortOf_inside readable (by rw [terminated_length]; omega)
  have count {fs' : FileSystem} (written : Written fs fs' none name sector 0 (terminated content) true) : freeCount fs' = freeCount fs := by
    rw [written.count, nothing]
    rfl
  cases content with
  | nil =>
    refine (fsutilWrite_nothing running plain named length start).mono fun _ fs' ⟨_, written⟩ => ⟨written, ?_, count written⟩
    have empty := written.length
    rw [if_pos rfl, length] at empty
    rw [contentOf, empty]
    rfl
  | cons first rest =>
    have positive : 0 < (first :: rest).length := Nat.zero_lt_succ _
    refine (fsutilWrite_wp running plain positive (by omega) (by omega)).mono ?_
    rintro _ fs' (⟨_, missing, _⟩ | ⟨there, ok, fits, _, written, _⟩)
    · exact absurd named (missing sector)
    · obtain rfl := running.volume.root.functional named written.named
      rw [start, Int.zero_add] at fits
      rw [start] at written
      obtain rfl := fits.mpr (fits_inside readable (by omega))
      refine ⟨written, ?_, count written⟩
      rw [written.contentOf running (by rw [terminated_length]; exact positive)]
      apply overwrite_all
      have whole := (contentOf_length running named.live).1
      rw [terminated_length]
      omega

private theorem fillFile_others {content : List UInt8} {written : Int} {other : Sector} (running : Running fs none)
    (named : Named fs name sector) (start : posOf fs name = 0) (length : (curData fs sector).length = content.length)
    (ran : fsutilWrite name content fs = some (written, fs')) (member : Live fs other) (notRoot : other ≠ 1)
    (differs : other ≠ sector) : Same fs fs' other := by
  have plain := (running.volume.root.plain _ _ named).1
  have limit := (contentOf_length running named.live).2
  obtain ⟨found, fs₁, opened, ran⟩ := bind_some ran
  obtain ⟨looked, absent, present⟩ := (openByFname_wp running plain).result opened
  cases found with
  | none => exact absurd named ((absent rfl).1 sector)
  | some file =>
    obtain ⟨found, pos⟩ := present file rfl
    obtain ⟨there, named', ⟨inode, opened, home⟩, nonzero, notRoot'⟩ := looked.home found
    obtain rfl := running.volume.root.functional named named'
    obtain ⟨⟨_, file'⟩, fs₂, wrote, ran⟩ := bind_some ran
    obtain ⟨_, _, write, done⟩ := bind_some wrote
    cases done
    obtain ⟨_, fs₃, store, done⟩ := bind_some ran
    cases done
    cases store
    rw [pos, start] at write
    have blocks := looked.running.volume.objects.blocks
    have data : inode.data = curData fs sector := by
      rw [← looked.data sector notRoot', ← home, blocks.handles.curData opened]
    have kept : Same fs₁ fs₂ other := by
      rw [← live_congr looked.slots] at member
      cases content with
      | nil =>
        obtain ⟨_, through⟩ := (inodeWriteAt_nothing blocks opened (home ▸ nonzero) (by rw [data, length]; rfl)).result write
        exact through.others other member (home ▸ differs)
      | cons first rest =>
        have positive : 0 < (terminated (first :: rest)).length := by
          rw [terminated_length]
          exact Nat.zero_lt_succ _
        have bound : 0 + (terminated (first :: rest)).length < 2147483648 := by
          rw [terminated_length]
          omega
        obtain ⟨_, _, _, through⟩ := (inodeWriteAt_wp blocks opened (home ▸ nonzero) positive bound).result write
        exact through.others other member (home ▸ differs)
    exact (looked.store.same (looked.data other notRoot)).trans (kept.trans ⟨rfl, fun _ _ _ => rfl, fun _ => rfl, fun _ _ _ => rfl⟩)

private theorem fillFile_compact {content : List UInt8} {written : Int} (running : Running fs none) (named : Named fs name sector)
    (start : posOf fs name = 0) (length : (curData fs sector).length = content.length)
    (ran : fsutilWrite name content fs = some (written, fs')) (compact : Compact fs) : Compact fs' := by
  obtain ⟨wrote, _, count⟩ := (fillFile_wp running named start length).result ran
  have map : fs'.freeMap = fs.freeMap := running.volume.objects.blocks.freeMap_ext wrote.size wrote.mono count
  refine ⟨map ▸ compact.packed, fun other there named' => ?_⟩
  rw [named_congr wrote.slots] at named'
  obtain ⟨first, laid⟩ := compact.files other there named'
  refine ⟨first, ?_⟩
  by_cases mine : there = sector
  · subst mine
    have grows := wrote.grows
    rw [show Used fs' = Used fs by funext place; rw [Used, map, Used]] at grows
    have size : (curData fs' there).length = (curData fs there).length := by
      rw [wrote.length, if_pos rfl, terminated_length, length, Nat.zero_add, Int.max_self]
    rw [Laid, grows.idle, size]
    exact laid
  · have notRoot := (running.volume.root.plain _ _ named').2.2.2
    exact (fillFile_others running named start length ran named'.live notRoot mine).laid laid

private theorem rewriteFile_wp (rewritten : Rewritten fs done) (size : file.size = file.content.length)
    (small : file.content.length ≤ 8517120) (plain : PlainName file.name) (short : file.name.length ≤ 30)
    (new : file.name ∉ done.map (·.name)) (entry : done.length + 1 < (slots fs).length) (room : fileCost file ≤ freeCount fs) :
    Wp (do
        let _ ← fsutilCreate file.name (file.size % 4294967296).toNat
        let _ ← fsutilWrite file.name file.content
        pure PUnit.unit) (fun _ fs' => Rewritten fs' (file :: done) ∧ SameFrame fs fs' ∧
      freeCount fs' + fileCost file = freeCount fs ∧ (Compact fs → Compact fs')) fs := by
  have running := rewritten.running
  have absent (sector : Sector) : ¬ Named fs file.name sector := fun named => new ((rewritten.names _).mp ⟨sector, named⟩)
  obtain ⟨i, e, there, free⟩ := free_slot (rewritten.count ▸ entry)
  obtain ⟨inside, nothing⟩ := rootShort_nil running.volume.objects.blocks there free
  have isize : ((file.size % 4294967296).toNat : Int) = file.content.length := by omega
  have wants : wanted (file.content.length : Int) + 1 = fileCost file := by
    rw [wanted, if_neg (by omega), fileCost, Nat.add_comm]
  rw [wp_bind]
  refine (fsutilCreate_wp running plain _ (by omega)).remember.mono fun _ fs₁ ended => ?_
  obtain ⟨create, running₁, success, returned, ran⟩ := ended
  rw [isize, offsetT_eq (by omega) (by omega)] at ran
  have limit := (running.volume.objects.blocks.sound 1 Volume.root_live).limit
  rw [slots, slotsOf_length] at inside
  obtain rfl : success = true := by
    refine ran.outcome.mpr ⟨⟨by omega, by omega, by omega⟩, ?_, by omega, by rw [nothing, List.length_nil]; omega⟩
    rintro (empty | long | ⟨other, named⟩)
    · exact plain.nonempty empty
    · omega
    · exact absent other named
  subst returned
  obtain ⟨sector, _, _, _, created, steps⟩ := fsutilCreate_steps running plain create
  rw [isize, offsetT_eq (by omega) (by omega)] at created steps
  have named : Named fs₁ file.name sector := (created.named _ _).mpr (.inr ⟨rfl, rfl⟩)
  have start : posOf fs₁ file.name = 0 := by
    rw [posOf, ran.keeps.fileTable]
    exact running.posOf_missing absent
  have count := created.count
  rw [nothing, List.length_nil] at count
  have slots₁ : (slots fs₁).length = (slots fs).length := by
    rw [slots, slots, slotsOf_length, slotsOf_length, created.rootLength, Int.max_eq_left (by omega)]
  rw [wp_bind]
  refine (fillFile_wp running₁ named start created.fresh.length).remember.mono fun _ fs' filled => (wp_pure _).mpr ?_
  obtain ⟨fill, written, content, same⟩ := filled
  have names₁ := named_congr written.slots
  have kept {name : CString} {there : Sector} (before : Named fs name there) : Alike fs fs' there := by
    obtain ⟨_, _, nonzero, notRoot⟩ := running.volume.root.plain _ _ before
    have live₁ : Live fs₁ there := ((created.named name there).mpr (.inl before)).live
    exact (ran.keeps.files there before.live nonzero notRoot id).trans
      (written.files there live₁ nonzero notRoot fun same => created.new (same ▸ before.live))
  refine ⟨⟨written.running, ?_, fun name => ?_, fun other member there named' => ?_, fun name there named' => ?_⟩,
    ⟨by rw [written.slots, slots₁], (written.mapInode rfl).trans created.mapInode, written.map.trans ran.keeps.map⟩, by omega,
    fun compact => ?_⟩
  · exact List.nodup_cons.mpr ⟨new, rewritten.nodup⟩
  · rw [names₁, List.map_cons, List.mem_cons, ← rewritten.names name]
    constructor
    · rintro ⟨there, named'⟩
      exact ((created.named name there).mp named').symm.imp And.left fun before => ⟨there, before⟩
    · rintro (rfl | ⟨there, before⟩)
      · exact ⟨sector, named⟩
      · exact ⟨there, (created.named name there).mpr (.inl before)⟩
  · rw [names₁] at named'
    rcases (created.named _ _).mp named' with before | ⟨same, rfl⟩
    · have old := (List.mem_cons.mp member).resolve_left fun same => absent there (same ▸ before)
      rw [(kept before).contentOf]
      exact rewritten.content other old there before
    · have mine := (List.mem_cons.mp member).resolve_right fun old => new (same ▸ List.mem_map_of_mem old)
      rw [mine, content]
  · rw [names₁] at named'
    rcases (created.named _ _).mp named' with before | ⟨_, rfl⟩
    · obtain ⟨_, _, nonzero, notRoot⟩ := running.volume.root.plain _ _ before
      have current := ran.keeps.upToDate there before.live nonzero notRoot id (rewritten.upToDate name there before)
      exact written.upToDate there named'.live nonzero notRoot (fun same => created.new (same ▸ before.live)) current
    · exact (written.mine created.fresh.upToDate).mpr (.inl rfl)
  · have compact₁ := steps.compact created running.volume.root (by omega) nothing compact
    exact fillFile_compact running₁ named start created.fresh.length fill compact₁

private theorem rewriteFiles_wp (rewritten : Rewritten fs done) (nodup : (files.map (·.name)).Nodup)
    (new : ∀ file ∈ files, file.name ∉ done.map (·.name))
    (fit : ∀ file ∈ files, file.size = file.content.length ∧ file.content.length ≤ 8517120 ∧ PlainName file.name ∧ file.name.length ≤ 30)
    (entries : done.length + files.length < (slots fs).length) (room : (files.map fileCost).sum ≤ freeCount fs) :
    Wp (rewriteFiles files) (fun _ fs' => Rewritten fs' (files.reverse ++ done) ∧ SameFrame fs fs' ∧
      freeCount fs' + (files.map fileCost).sum = freeCount fs ∧ (Compact fs → Compact fs')) fs := by
  induction files generalizing fs done with
  | nil => exact (wp_pure _).mpr ⟨rewritten, ⟨rfl, rfl, rfl⟩, rfl, id⟩
  | cons file rest ih =>
    have split : rewriteFiles (file :: rest) = (do
        let _ ← fsutilCreate file.name (file.size % 4294967296).toNat
        let _ ← fsutilWrite file.name file.content
        pure PUnit.unit) >>= fun _ => rewriteFiles rest := by simp [rewriteFiles]
    rw [List.map_cons, List.nodup_cons] at nodup
    rw [List.map_cons, List.sum_cons] at room
    rw [List.length_cons] at entries
    obtain ⟨⟨size, small, plain, short⟩, fit⟩ := List.forall_mem_cons.mp fit
    obtain ⟨mine, new⟩ := List.forall_mem_cons.mp new
    rw [split, wp_bind]
    refine (rewriteFile_wp rewritten size small plain short mine (by omega) (by omega)).mono
      fun _ fs₁ ⟨next, frame, count, compact⟩ => ?_
    have new₁ (other : NewFile) (member : other ∈ rest) : other.name ∉ (file :: done).map (·.name) := by
      rw [List.map_cons, List.mem_cons, not_or]
      exact ⟨fun same => nodup.1 (same ▸ List.mem_map_of_mem member), new other member⟩
    have entries₁ : (file :: done).length + rest.length < (slots fs₁).length := by
      rw [frame.slots, List.length_cons]
      omega
    refine (ih next nodup.2 new₁ fit entries₁ (by omega)).mono
      fun _ fs' ⟨all, frame', count', compact'⟩ => ⟨?_, frame.trans frame', ?_, compact' ∘ compact⟩
    · rw [List.reverse_cons, List.append_assoc]
      exact all
    · rw [List.map_cons, List.sum_cons]
      omega

end Rewriting

section Emptying
variable {files : List NewFile} {file : NewFile}

/-- All files are in memory, and removed. -/
structure Emptied (fs fs' : FileSystem) (files : List NewFile) : Prop where
  running : Running fs' none
  empty : ∀ name sector, ¬ Named fs' name sector
  frame : SameFrame fs fs'
  count : freeCount fs' = freeCount fs + (files.map fileCost).sum
  names : files.map (·.name) = names fs
  all : ∀ file ∈ files, Collected fs file
  removed : ∃ before value, Browsed fs before none ∧ removeFiles files before = some (value, fs')

private theorem Collected.length (collected : Collected fs file) (running : Running fs state) (named : Named fs file.name sector) :
    (curData fs sector).length = file.content.length := by
  obtain ⟨_, there, mine, content⟩ := collected
  obtain rfl := running.volume.root.functional named mine
  rw [content]
  exact (contentOf_length running named.live).1.symm

private theorem Browsed.emptied (browsed : Browsed fs middle state) (running : Running fs state) (emptied : Emptied middle fs' files) :
    Emptied fs fs' files := by
  refine ⟨emptied.running, emptied.empty, .trans ⟨?_, ?_, browsed.data 0 (by decide)⟩ emptied.frame, ?_,
    emptied.names.trans browsed.names, fun file member => ?_, ?_⟩
  · rw [browsed.slots]
  · rw [browsed.store.disk]
  · rw [emptied.count, browsed.store.freeCount]
  · obtain ⟨size, sector, here, content⟩ := emptied.all file member
    rw [browsed.named] at here
    exact ⟨size, sector, here, content.trans (browsed.alike (running.volume.root.plain _ _ here).2.2.2).contentOf⟩
  · obtain ⟨before, value, looked, ran⟩ := emptied.removed
    exact ⟨before, value, browsed.trans looked, ran⟩

private theorem removeAll_wp (running : Running fs none) (collected : files.map (·.name) = names fs)
    (all : ∀ file ∈ files, Collected fs file) : Wp (removeFiles files) (fun _ fs' => Emptied fs fs' files) fs := by
  have nodup : (files.map (·.name)).Nodup := collected ▸ running.volume.root.names_nodup
  refine (removeFiles_wp running nodup (fun name => by rw [collected, mem_names]) fun file member _ named =>
    (all file member).length running named).remember.mono fun _ fs' outcome => ?_
  obtain ⟨ran, running', empty, frame, count⟩ := outcome
  exact ⟨running', empty, frame, count, collected, all, fs, _, running.browsed, ran⟩

/-- All files are collected and removed before anything else is done with them. -/
theorem emptied_wp {next : List NewFile → M α} {post : α → FileSystem → Prop} (running : Running fs none)
    (rest : ∀ files middle, Emptied fs middle files → Wp (next files) post middle) :
    Wp (do
      let dir ← dirOpenRoot
      let d ← getDir dir
      let fuel ← entriesOf d.inode
      let nFiles ← countFiles dir fuel
      dirClose dir
      if nFiles = 0 then next []
      else do
        let dir ← dirOpenRoot
        let files ← collectFiles dir nFiles
        dirClose dir
        removeFiles files
        next files) post fs := by
  suffices passes : Wp (do
      let nFiles ← (do
        let dir ← dirOpenRoot
        let nFiles ← (do
          let d ← getDir dir
          let fuel ← entriesOf d.inode
          countFiles dir fuel)
        dirClose dir
        pure nFiles)
      if nFiles = 0 then next []
      else do
        let files ← (do
          let dir ← dirOpenRoot
          let files ← collectFiles dir nFiles
          dirClose dir
          pure files)
        removeFiles files
        next files) post fs by
    simpa only [bind_assoc, pure_bind] using passes
  rw [wp_bind]
  refine (inRoot_unless (fun dir => do
      let d ← getDir dir
      let fuel ← entriesOf d.inode
      countFiles dir fuel) (fun n => n = (names fs).length) running fun fs₁ dir d pos browsed => .inl ?_).total.mono
    fun nFiles fs₁ ⟨counted, browsed₁⟩ => ?_
  · have session := browsed.running.session
    have each (fs₁ : FileSystem) (d : Dir) (name : CString) (browsed : Browsed fs fs₁ (some (dir, d))) (_ : name ∈ names fs) :
        WpUnless False (pure name : M CString) (fun _ fs' => Browsed fs fs' (some (dir, d)) ∧ True) fs₁ :=
      .inl ((wp_pure _).mpr ⟨browsed, trivial⟩)
    rw [wp_bind]
    refine Wp.of_eq session.getDir ?_
    rw [wp_bind]
    refine Wp.of_eq (entriesOf_eq browsed.running.volume.objects.blocks session) ?_
    rw [countFiles_eq, wp_map, browsed.slots]
    exact (forEachFile_unless each _ 1 (Nat.le_refl 1) browsed pos (by omega)).total.mono
      fun _ _ ⟨length, _, moved⟩ => ⟨length, moved⟩
  · rw [← browsed₁.names] at counted
    split
    next none =>
      rw [none] at counted
      have nobody : names fs₁ = [] := List.length_eq_zero_iff.mp counted.symm
      have empty (name : CString) (sector : Sector) : ¬ Named fs₁ name sector := by
        intro here
        have member := mem_names.mpr ⟨sector, here⟩
        rw [nobody] at member
        cases member
      exact rest [] fs₁ (browsed₁.emptied running ⟨browsed₁.running, empty, ⟨rfl, rfl, rfl⟩, rfl, nobody.symm, nofun,
        fs₁, ⟨⟩, browsed₁.running.browsed, rfl⟩)
    next some =>
      rw [wp_bind]
      refine (inRoot_unless (fun dir => collectFiles dir nFiles)
        (fun files => files.map (·.name) = names fs₁ ∧ ∀ file ∈ files, Collected fs₁ file) browsed₁.running
        fun fs₂ dir d pos browsed => .inl ?_).total.mono fun files fs₂ ⟨⟨collected, all⟩, browsed₂⟩ => ?_
      · exact (collectFiles_wp browsed nFiles 1 (Nat.le_refl 1) pos counted.symm).mono
          fun _ _ ⟨collected, all, moved⟩ => ⟨⟨collected, all⟩, moved⟩
      · have all₂ (file : NewFile) (member : file ∈ files) : Collected fs₂ file := by
          obtain ⟨size, sector, here, content⟩ := all file member
          have notRoot := (browsed₁.running.volume.root.plain _ _ here).2.2.2
          exact ⟨size, sector, browsed₂.named ▸ here, content.trans (browsed₂.alike notRoot).contentOf.symm⟩
        rw [wp_bind]
        refine (removeAll_wp browsed₂.running (collected.trans browsed₂.names.symm) all₂).mono fun _ middle emptied => ?_
        exact rest files middle (browsed₁.emptied running (browsed₂.emptied browsed₁.running emptied))

/-- The files are all there again when the last one has been written. -/
theorem Emptied.rewriteFiles_wp (emptied : Emptied fs middle files) (running : Running fs none) :
    Wp (rewriteFiles files) (fun _ fs' => Defragmented fs fs' ∧ (Packed middle.freeMap → Compact fs')) middle := by
  obtain ⟨running₁, empty, frame, count, collected, all, _⟩ := emptied
  have root := running.volume.root
  have named (name : CString) : (∃ sector, Named fs name sector) ↔ name ∈ files.map (·.name) := by rw [collected, mem_names]
  have entries : files.length < (slots fs).length := by
    obtain ⟨e, parent, _⟩ := root.parent
    have some := (List.getElem?_eq_some_iff.mp parent).1
    have fewer := List.length_filter_le (fun e : DirEntry => e.inUse) ((slots fs).drop 1)
    have same := congrArg List.length collected
    rw [List.length_map, Fs.names, namesIn, List.length_map] at same
    rw [List.length_drop] at fewer
    omega
  have start : Rewritten middle [] := by
    refine ⟨running₁, List.nodup_nil, fun name => ?_, fun file none => absurd none List.not_mem_nil,
      fun name sector here => absurd here (empty name sector)⟩
    exact iff_of_false (not_exists.mpr (empty name)) List.not_mem_nil
  have fit (file : NewFile) (member : file ∈ files) :
      file.size = file.content.length ∧ file.content.length ≤ 8517120 ∧ PlainName file.name ∧ file.name.length ≤ 30 := by
    obtain ⟨sector, mine, _⟩ := (all file member).content
    have length := (all file member).length running mine
    have limit := (contentOf_length running mine.live).2
    obtain ⟨plain, short, _⟩ := root.plain _ _ mine
    exact ⟨(all file member).size, by omega, plain, short⟩
  have nodup : (files.map (·.name)).Nodup := collected ▸ root.names_nodup
  refine (Fs.rewriteFiles_wp start nodup (fun _ _ => List.not_mem_nil) fit (by rw [frame.slots, List.length_nil]; omega)
    (by omega)).mono fun _ fs' outcome => ?_
  obtain ⟨rewritten, frame', count', compact⟩ := outcome
  rw [List.append_nil] at rewritten
  refine ⟨⟨rewritten.running, fun name => ?_, fun name sector sector' here there => ?_, rewritten.upToDate,
    frame'.mapInode.trans frame.mapInode, frame'.map.trans frame.map, by omega⟩,
    fun packed => compact ⟨packed, fun name sector here => absurd here (empty name sector)⟩⟩
  · rw [rewritten.names name, named name, List.map_reverse, List.mem_reverse]
  · obtain ⟨file, member, rfl⟩ := List.mem_map.mp ((named name).mp ⟨sector, here⟩)
    obtain ⟨_, _, mine, content⟩ := all file member
    obtain rfl := root.functional here mine
    rw [rewritten.content file (List.mem_reverse.mpr member) sector' there, content]

theorem defragment_wp (running : Running fs none) : Wp defragment (fun result fs' => result = 0 ∧ Defragmented fs fs') fs := by
  have rewrite (files : List NewFile) (middle : FileSystem) (emptied : Emptied fs middle files) :
      Wp (do
          rewriteFiles files
          pure (0 : Int)) (fun result fs' => result = 0 ∧ Defragmented fs fs') middle := by
    rw [wp_bind]
    exact (emptied.rewriteFiles_wp running).mono fun _ _ ⟨done, _⟩ => (wp_pure _).mpr ⟨rfl, done⟩
  exact emptied_wp running rewrite

end Emptying

end Comp310.Fs
