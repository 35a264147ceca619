import Comp310.Lib.Tally
import Comp310.Lib.Trace
import Comp310.Fs.Stable
import Comp310.Fs.Runs

/-! Who has an inode open. Every call of `inode_open` or `inode_reopen` makes its
caller an opener, and the files of the table, the directories and the file of
the free map take over the references that they are made of. -/

namespace Comp310.Proofs.References
open Comp310.Fs Comp310.Lib

/-- What refers to inodes, and the addresses that are left. -/
structure Holders where
  freeMapFile : Option File
  fileTable : List (CString × File)
  dirs : List (Addr × Dir)
  nextAddr : Addr

def holders (fs : FileSystem) : Holders := ⟨fs.freeMapFile, fs.fileTable, fs.dirs, fs.nextAddr⟩

def Holders.inodes (refer : Holders) : List Addr :=
  refer.freeMapFile.toList.map (·.inode) ++
    (refer.fileTable.map (·.2.inode) ++ refer.dirs.map fun entry => entry.2.inode)

/-- The file system and the references that neither a file of the table nor a directory has taken over. -/
structure Users where
  fs : FileSystem
  loose : List Addr

/-- The openers that have not closed, by the inode that each was given. -/
def Users.openers (users : Users) : List Addr := users.loose ++ (holders users.fs).inodes

inductive Call where
  | inodeOpen (sector : Sector)
  | inodeReopen (inode : Addr)
  | inodeRemove (inode : Addr)
  | inodeClose (inode : Addr)
  | addToFileTable (inode : Addr) (fname : CString)
  | removeFromFileTable (fname : CString)
  | dirOpen (inode : Addr)
  | dirOpenRoot
  | dirGetInode (dir : Addr)
  | dirClose (dir : Addr)

/-- A call by an opener, if it returns. Who closes or hands over a reference has it no longer. -/
def Call.take : Call → Users → Option Users
  | .inodeOpen sector, users => do
    let (inode, fs) ← Fs.inodeOpen sector users.fs
    some ⟨fs, inode :: users.loose⟩
  | .inodeReopen inode, users =>
    if inode ∈ users.openers then do
      let (inode, fs) ← Fs.inodeReopen inode users.fs
      some ⟨fs, inode :: users.loose⟩
    else none
  | .inodeRemove inode, users =>
    if inode ∈ users.openers then do
      let (_, fs) ← Fs.inodeRemove inode users.fs
      some ⟨fs, users.loose⟩
    else none
  | .inodeClose inode, users =>
    if inode ∈ users.loose then do
      let (_, fs) ← Fs.inodeClose inode users.fs
      some ⟨fs, users.loose.erase inode⟩
    else none
  | .addToFileTable inode fname, users =>
    if inode ∈ users.loose then do
      let (_, fs) ← Fs.addToFileTable (fileOpen inode) fname users.fs
      -- under a name that is taken the file does not get into the table
      some ⟨fs, if (users.fs.fileTable.lookup fname).isSome then users.loose else users.loose.erase inode⟩
    else none
  | .removeFromFileTable fname, users => do
    let (_, fs) ← Fs.removeFromFileTable fname users.fs
    some ⟨fs, users.loose⟩
  | .dirOpen inode, users =>
    if inode ∈ users.loose then do
      let (_, fs) ← Fs.dirOpen inode users.fs
      some ⟨fs, users.loose.erase inode⟩
    else none
  | .dirOpenRoot, users => do
    let (_, fs) ← Fs.dirOpenRoot users.fs
    some ⟨fs, users.loose⟩
  | .dirGetInode dir, users => do
    -- `filesys_open` hands the inode of the directory to `file_open`
    let d ← users.fs.dir? dir
    some ⟨users.fs, d.inode :: users.loose⟩
  | .dirClose dir, users => do
    let (_, fs) ← Fs.dirClose dir users.fs
    some ⟨fs, users.loose⟩

/-- The `open_cnt` of each inode in the list of open inodes. -/
def countOf (fs : FileSystem) (addr : Addr) : Option Int := (fs.inode? addr).map (·.openCnt)

/-- Every opener's inode is open, and every open inode counts its openers. -/
def Sound (users : Users) : Prop := Tallied (countOf users.fs) users.openers

/-- `free_map_release` has cleared bits, or found them clear. -/
def Releases (fs fs' : FileSystem) : Prop := fs'.freeMap ≠ fs.freeMap ∨ fs'.panics ≠ fs.panics

/-- Sectors are only released when the last opener of a removed inode closes it. -/
def OnlyLast (before after : Users) : Prop := Releases before.fs after.fs →
  ∃ addr inode, before.fs.inode? addr = some inode ∧ inode.removed = true ∧
    before.openers.count addr = 1 ∧ addr ∉ after.openers

/-- The call gives out no reference to an inode that is open already. -/
def Counted (before : Users) : Call → Prop
  | .inodeOpen sector => ∀ entry ∈ before.fs.openInodes, entry.2.sector ≠ sector
  | .inodeReopen _ => False
  | .dirOpenRoot => before.fs.cwd = none → ∀ entry ∈ before.fs.openInodes, entry.2.sector ≠ rootDirSector
  | .dirGetInode _ => False
  | _ => True

/-- The addresses in use are below the next one, and no two directories have the same. -/
structure Heap (fs : FileSystem) : Prop where
  inodes : ∀ addr n, countOf fs addr = some n → addr < fs.nextAddr
  dirs : ∀ entry ∈ fs.dirs, entry.1 < fs.nextAddr
  distinct : (fs.dirs.map (·.1)).Nodup

variable {fs fs' : FileSystem} {users after : Users} {addr : Addr} {inode : Inode} {refs : List Addr}

theorem countOf_eq (found : fs.inode? addr = some inode) : countOf fs addr = some inode.openCnt := by
  rw [countOf, found]
  rfl

section Frames

theorem countOf_changed (change : Inode → Inode) (addr : Addr)
    (entries : fs'.openInodes = fs.openInodes.map fun entry => if entry.1 = addr then (addr, change entry.2) else entry)
    (other : Addr) : countOf fs' other =
      if other = addr then (fs.inode? addr).map fun inode => (change inode).openCnt else countOf fs other := by
  unfold countOf FileSystem.inode?
  rw [entries, lookup_changed]
  split
  · exact Option.map_map ..
  · rfl

theorem countOf_kept (change : Inode → Inode) (keeps : ∀ inode, (change inode).openCnt = inode.openCnt) (addr : Addr)
    (entries : fs'.openInodes = fs.openInodes.map fun entry => if entry.1 = addr then (addr, change entry.2) else entry) :
    countOf fs' = countOf fs := by
  funext other
  rw [countOf_changed change addr entries]
  split
  next same =>
    simp only [keeps]
    rw [same, countOf]
  next => rfl

/-- Reading, writing, allocating and releasing change no count and nothing that refers to an inode. -/
theorem stable_counts (counts : Addr → Option Int) (refer : Holders) :
    Stable (fun _ => True) fun fs => countOf fs = counts ∧ holders fs = refer where
  disk _ _ same := same
  freeMap _ _ _ same := same
  data fs addr data same _ := by
    obtain ⟨counts, refer⟩ := same
    have kept : countOf (withData fs addr data) = countOf fs :=
      countOf_kept (fun inode => { inode with data }) (fun _ => rfl) addr rfl
    exact ⟨kept.trans counts, refer⟩
  opened _ _ _ _ _ := trivial
  wraps _ := trivial

theorem not_releases (map : fs'.freeMap = fs.freeMap) (panics : fs'.panics = fs.panics) : ¬ Releases fs fs' := by
  intro releases
  rcases releases with changed | counted
  · exact changed map
  · exact counted panics

end Frames

section Holders
variable {dir : Addr} {d : Dir}

theorem inodes_untabled (refer : Holders) {fname : CString} {file : File} (found : refer.fileTable.lookup fname = some file) :
    refer.inodes.Perm (file.inode ::
      { refer with fileTable := refer.fileTable.eraseP fun entry => entry.1 == fname }.inodes) := by
  have split := ((lookup_perm found).map fun entry => entry.2.inode).append_right (refer.dirs.map fun entry => entry.2.inode)
  exact (split.append_left _).trans List.perm_middle

theorem inodes_tabled (refer : Holders) (fname : CString) (file : File) : (file.inode :: refer.inodes).Perm
    { refer with fileTable := refer.fileTable ++ [(fname, file)] }.inodes := by
  let dirs := refer.dirs.map fun entry => entry.2.inode
  have inner : (refer.fileTable.map (·.2.inode) ++ file.inode :: dirs).Perm
      (file.inode :: (refer.fileTable.map (·.2.inode) ++ dirs)) := List.perm_middle
  unfold Holders.inodes
  rw [List.map_append, List.append_assoc]
  exact List.perm_middle.symm.trans (inner.symm.append_left _)

theorem inodes_dirClosed (refer : Holders) (distinct : (refer.dirs.map (·.1)).Nodup) (found : refer.dirs.lookup dir = some d) :
    refer.inodes.Perm (d.inode :: { refer with dirs := refer.dirs.filter fun entry => entry.1 != dir }.inodes) := by
  have split := (lookup_perm found).map fun entry => entry.2.inode
  rw [← filter_key distinct] at split
  have inner := (split.append_left (refer.fileTable.map (·.2.inode))).trans List.perm_middle
  exact (inner.append_left _).trans List.perm_middle

theorem inodes_dirOpened (refer : Holders) (dir : Addr) (d : Dir) (next : Addr) : (d.inode :: refer.inodes).Perm
    { refer with dirs := (dir, d) :: refer.dirs, nextAddr := next }.inodes := by
  let files := refer.fileTable.map (·.2.inode)
  let dirs := refer.dirs.map fun entry => entry.2.inode
  have inner : (files ++ d.inode :: dirs).Perm (d.inode :: (files ++ dirs)) := List.perm_middle
  exact List.perm_middle.symm.trans (inner.symm.append_left _)

end Holders

section Calls

theorem inodeOpen_found {sector : Sector} (there : ∃ entry ∈ fs.openInodes, entry.2.sector = sector)
    (ran : Fs.inodeOpen sector fs = some (addr, fs')) : fs' = fs ∧ ∃ n, countOf fs addr = some n := by
  cases found : fs.openInodes.find? fun entry => entry.2.sector == sector with
  | none =>
    obtain ⟨entry, member, same⟩ := there
    exact absurd (beq_iff_eq.mpr same) (List.find?_eq_none.mp found entry member)
  | some entry =>
    have run : Fs.inodeOpen sector fs = some (entry.1, fs) := by
      unfold Fs.inodeOpen
      rw [run_bind (show (get : M FileSystem) fs = some (fs, fs) from rfl)]
      rw [found]
      rfl
    cases run.symm.trans ran
    refine ⟨rfl, ?_⟩
    have member := List.mem_of_find?_eq_some found
    cases missing : fs.inode? entry.1 with
    | none => exact absurd rfl (lookup_none.mp missing entry member)
    | some inode => exact ⟨_, countOf_eq missing⟩

theorem inodeOpen_fresh {sector : Sector} (closed : ∀ entry ∈ fs.openInodes, entry.2.sector ≠ sector)
    (ran : Fs.inodeOpen sector fs = some (addr, fs')) :
    addr = fs.nextAddr ∧ countOf fs' = insertKey (countOf fs) addr 1 ∧
      holders fs' = { holders fs with nextAddr := fs.nextAddr + 1 } ∧ ¬ Releases fs fs' ∧
      fs'.openInodes.map (·.2.sector) = sector :: fs.openInodes.map (·.2.sector) := by
  have missing : (fs.openInodes.find? fun entry => entry.2.sector == sector) = none := by
    apply List.find?_eq_none.mpr
    intro entry member same
    exact closed entry member (beq_iff_eq.mp same)
  unfold Fs.inodeOpen at ran
  rw [run_bind (show (get : M FileSystem) fs = some (fs, fs) from rfl)] at ran
  rw [missing] at ran
  obtain ⟨fresh, fs₁, allocated, ran⟩ := bind_some ran
  cases allocated
  obtain ⟨block, fs₂, read, ran⟩ := bind_some ran
  obtain ⟨⟨block', disk⟩, _, done⟩ := Option.bind_eq_some_iff.mp read
  cases done
  cases ran
  refine ⟨rfl, ?_, rfl, not_releases rfl rfl, rfl⟩
  funext other
  unfold countOf insertKey FileSystem.inode?
  rw [List.lookup_cons]
  by_cases same : other = fs.nextAddr
  · rw [if_pos same, same, beq_self_eq_true]
    rfl
  · rw [if_neg same, beq_eq_false_iff_ne.mpr same]

/-- What closing an inode does: the last opener takes it out of the list, and gives its sectors back if it was removed. -/
theorem inodeClose_counts {value : PUnit} (ran : Fs.inodeClose addr fs = some (value, fs')) :
    ∃ inode, fs.inode? addr = some inode ∧ holders fs' = holders fs ∧
      ((inode.openCnt = 1 ∧ countOf fs' = eraseKey (countOf fs) addr ∧ (Releases fs fs' → inode.removed = true)) ∨
        (inode.openCnt ≠ 1 ∧ countOf fs' = insertKey (countOf fs) addr (inode.openCnt - 1) ∧ ¬ Releases fs fs')) := by
  obtain ⟨inode, fs₁, got, ran⟩ := bind_some ran
  obtain ⟨inode', found, done⟩ := Option.map_eq_some_iff.mp got
  cases done
  refine ⟨inode, found, ?_⟩
  by_cases one : inode.openCnt - 1 = 0
  · rw [if_pos one] at ran
    obtain ⟨_, fs₂, dropped, ran⟩ := bind_some ran
    cases dropped
    let gone : FileSystem := { fs with openInodes := fs.openInodes.filter fun entry => entry.1 != addr }
    have counts : countOf gone = eraseKey (countOf fs) addr := by
      funext other
      unfold countOf eraseKey FileSystem.inode?
      rw [lookup_filter]
      split
      · rfl
      · rfl
    by_cases removed : inode.removed = true
    · rw [if_pos removed] at ran
      have stable := stable_counts (countOf gone) (holders gone)
      have stays : Stays (fun fs => countOf fs = countOf gone ∧ holders fs = holders gone) (do
          freeMapRelease inode.sector 1
          let _ ← inodeDeallocate (fun sector => freeMapRelease sector 1) inode.data
          pure PUnit.unit) := by
        apply (stable.freeMapRelease _ _).next
        intro _
        exact (stable.inodeDeallocate (fun sector => stable.freeMapRelease sector 1) _).next fun _ => .done
      obtain ⟨⟨same, refer⟩, _⟩ := stays gone value fs' ⟨rfl, rfl⟩ ran
      exact ⟨refer, .inl ⟨by omega, same.trans counts, fun _ => removed⟩⟩
    · rw [if_neg removed] at ran
      cases ran
      exact ⟨rfl, .inl ⟨by omega, counts, fun releases => absurd releases (not_releases rfl rfl)⟩⟩
  · rw [if_neg one] at ran
    cases ran
    refine ⟨rfl, .inr ⟨by omega, ?_, not_releases rfl rfl⟩⟩
    funext other
    rw [countOf_changed (fun inode => { inode with openCnt := inode.openCnt - 1 }) addr rfl, found]
    rfl

theorem closed {value : PUnit} (sound : Tallied (countOf fs) (addr :: refs))
    (ran : Fs.inodeClose addr fs = some (value, fs')) :
    Tallied (countOf fs') refs ∧ holders fs' = holders fs ∧
      (∀ other n, countOf fs' other = some n → ∃ m, countOf fs other = some m) ∧
      (Releases fs fs' → ∃ inode, fs.inode? addr = some inode ∧ inode.removed = true ∧ addr ∉ refs) := by
  obtain ⟨inode, found, refer, ⟨one, counts, released⟩ | ⟨_, counts, quiet⟩⟩ := inodeClose_counts ran
  · have single : countOf fs addr = some 1 := one ▸ countOf_eq found
    refine ⟨counts ▸ sound.dropped single, refer, ?_, ?_⟩
    · intro other n there
      rw [counts] at there
      exact ⟨n, (eraseKey_some.mp there).2⟩
    · intro releases
      exact ⟨inode, found, released releases, sound.last single⟩
  · refine ⟨counts ▸ sound.lessened (countOf_eq found), refer, ?_, fun releases => absurd releases quiet⟩
    intro other n there
    rw [counts] at there
    rcases insertKey_some.mp there with ⟨rfl, _⟩ | ⟨_, there⟩
    · exact ⟨_, countOf_eq found⟩
    · exact ⟨n, there⟩

theorem Heap.fewer (heap : Heap fs) (counts : ∀ other n, countOf fs' other = some n → ∃ m, countOf fs other = some m)
    (refer : holders fs' = holders fs) : Heap fs' := by
  obtain ⟨inodes, dirs, distinct⟩ := heap
  obtain ⟨_, _, sameDirs, next⟩ := Holders.mk.inj refer
  refine ⟨?_, ?_, sameDirs ▸ distinct⟩
  · intro other n there
    obtain ⟨m, before⟩ := counts other n there
    exact next ▸ inodes other m before
  · intro entry member
    rw [next]
    exact dirs entry (sameDirs ▸ member)

end Calls

section Steps

/-- What a call leaves as it should be. -/
structure Kept (users after : Users) : Prop where
  heap : Heap after.fs
  sound : Sound after
  last : OnlyLast users after

/-- A call that closes nothing, where the counts and the openers are the same. -/
theorem Kept.quiet (heap : Heap after.fs) (sound : Sound users) (counts : countOf after.fs = countOf users.fs)
    (same : users.openers.Perm after.openers) (quiet : ¬ Releases users.fs after.fs) : Kept users after := by
  refine ⟨heap, ?_, fun releases => absurd releases quiet⟩
  rw [Sound, counts]
  exact sound.perm same

/-- Nothing has been counted, released or handed over. -/
structure Idle (fs fs' : FileSystem) : Prop where
  counts : countOf fs' = countOf fs
  refer : holders fs' = holders fs
  map : fs'.freeMap = fs.freeMap
  panics : fs'.panics = fs.panics
  removed : ∀ addr inode, fs'.inode? addr = some inode → ∃ before, fs.inode? addr = some before ∧ before.removed = inode.removed

theorem Idle.refl : Idle fs fs := ⟨rfl, rfl, rfl, rfl, fun _ inode found => ⟨inode, found, rfl⟩⟩

theorem Idle.heap (idle : Idle fs fs') (heap : Heap fs) : Heap fs' :=
  heap.fewer (fun _ n found => ⟨n, idle.counts ▸ found⟩) idle.refer

theorem fileAllowWrite_idle {file : File} {value : PUnit} (ran : fileAllowWrite file fs = some (value, fs')) : Idle fs fs' := by
  unfold fileAllowWrite at ran
  split at ran
  · cases ran
    let change (inode : Inode) : Inode := { inode with denyWriteCnt := inode.denyWriteCnt - 1 }
    refine ⟨countOf_kept change (fun _ => rfl) file.inode rfl, rfl, rfl, rfl, ?_⟩
    intro addr inode found
    unfold FileSystem.inode? at found
    dsimp only at found
    rw [lookup_changed change] at found
    split at found
    next same =>
      obtain ⟨before, there, rfl⟩ := Option.map_eq_some_iff.mp found
      subst same
      exact ⟨before, there, rfl⟩
    next => exact ⟨inode, found, rfl⟩
  · cases ran
    exact .refl

theorem Kept.close {middle : FileSystem} {value : PUnit} (heap : Heap users.fs) (sound : Sound users)
    (one : users.openers.Perm (addr :: after.openers)) (idle : Idle users.fs middle)
    (ran : Fs.inodeClose addr middle = some (value, fs')) (kept : Heap fs' → Heap after.fs)
    (counts : countOf after.fs = countOf fs') (map : after.fs.freeMap = fs'.freeMap)
    (panics : after.fs.panics = fs'.panics) : Kept users after := by
  have before : Tallied (countOf middle) (addr :: after.openers) := idle.counts ▸ sound.perm one
  obtain ⟨tallied, refer, fewer, released⟩ := closed before ran
  refine ⟨kept ((idle.heap heap).fewer fewer refer), ?_, ?_⟩
  · rw [Sound, counts]
    exact tallied
  · intro releases
    unfold Releases at releases
    rw [map, panics, ← idle.map, ← idle.panics] at releases
    obtain ⟨inode, found, removed, gone⟩ := released releases
    obtain ⟨first, found, same⟩ := idle.removed addr inode found
    refine ⟨addr, first, found, same.trans removed, ?_, gone⟩
    rw [one.count_eq, List.count_cons_self, List.count_eq_zero_of_not_mem gone]

theorem inodeOpen_kept {sector : Sector} (heap : Heap users.fs) (sound : Sound users)
    (closed : ∀ entry ∈ users.fs.openInodes, entry.2.sector ≠ sector)
    (taken : (Call.inodeOpen sector).take users = some after) : Kept users after := by
  obtain ⟨⟨addr, fs'⟩, ran, done⟩ := Option.bind_eq_some_iff.mp taken
  cases done
  obtain ⟨rfl, counts, refer, quiet, _⟩ := inodeOpen_fresh closed ran
  obtain ⟨_, _, dirs, next⟩ := Holders.mk.inj refer
  have new : countOf users.fs users.fs.nextAddr = none := by
    cases found : countOf users.fs users.fs.nextAddr with
    | none => rfl
    | some n => exact absurd (heap.inodes _ n found) (Nat.lt_irrefl _)
  refine ⟨⟨?_, ?_, dirs ▸ heap.distinct⟩, ?_, fun releases => absurd releases quiet⟩
  · intro other n found
    dsimp only at found ⊢
    rw [counts] at found
    rw [next]
    rcases insertKey_some.mp found with ⟨rfl, _⟩ | ⟨_, found⟩
    · exact Nat.lt_succ_self _
    · exact Nat.lt_succ_of_lt (heap.inodes other n found)
  · intro entry member
    dsimp only at member ⊢
    rw [next]
    rw [show fs'.dirs = users.fs.dirs from dirs] at member
    exact Nat.lt_succ_of_lt (heap.dirs entry member)
  · have tallied := sound.fresh new
    unfold Sound Users.openers
    rw [counts, refer]
    exact tallied

theorem inodeRemove_kept (heap : Heap users.fs) (sound : Sound users)
    (taken : (Call.inodeRemove addr).take users = some after) : Kept users after := by
  rw [Call.take] at taken
  split at taken
  · obtain ⟨⟨value, fs'⟩, ran, done⟩ := Option.bind_eq_some_iff.mp taken
    cases done
    obtain ⟨inode, fs₁, got, ran⟩ := bind_some ran
    obtain ⟨inode', found, done⟩ := Option.map_eq_some_iff.mp got
    cases done
    cases ran
    let change (inode : Inode) : Inode := { inode with removed := true }
    let marked : FileSystem := { users.fs with openInodes := users.fs.openInodes.map fun entry =>
      if entry.1 = addr then (addr, change entry.2) else entry }
    have counts : countOf marked = countOf users.fs := countOf_kept change (fun _ => rfl) addr rfl
    have kept : Heap marked := heap.fewer (fun _ n there => ⟨n, counts ▸ there⟩) rfl
    exact .quiet kept sound counts (.refl _) (not_releases rfl rfl)
  · cases taken

theorem inodeClose_kept (heap : Heap users.fs) (sound : Sound users)
    (taken : (Call.inodeClose addr).take users = some after) : Kept users after := by
  rw [Call.take] at taken
  split at taken
  next member =>
    obtain ⟨⟨value, fs'⟩, ran, done⟩ := Option.bind_eq_some_iff.mp taken
    cases done
    have refer : holders fs' = holders users.fs := (inodeClose_counts ran).choose_spec.2.1
    apply Kept.close heap sound _ .refl ran id rfl rfl rfl
    unfold Users.openers
    rw [refer]
    exact (List.perm_cons_erase member).append_right _
  next => cases taken

theorem addToFileTable_kept {fname : CString} (heap : Heap users.fs) (sound : Sound users)
    (taken : (Call.addToFileTable addr fname).take users = some after) : Kept users after := by
  rw [Call.take] at taken
  split at taken
  next member =>
    obtain ⟨⟨value, fs'⟩, ran, done⟩ := Option.bind_eq_some_iff.mp taken
    cases done
    obtain ⟨entry, fs₁, looked, ran⟩ := bind_some ran
    cases looked
    cases present : users.fs.fileTable.lookup fname with
    | some file =>
      rw [present] at ran
      cases ran
      exact .quiet heap sound rfl (.refl _) (not_releases rfl rfl)
    | none =>
      rw [present] at ran
      cases ran
      have handed := (List.perm_cons_erase member).append_right (holders users.fs).inodes
      apply Kept.quiet
      · exact ⟨heap.inodes, heap.dirs, heap.distinct⟩
      · exact sound
      · rfl
      · have tabled := inodes_tabled (holders users.fs) fname (fileOpen addr)
        exact (handed.trans List.perm_middle.symm).trans (tabled.append_left _)
      · exact not_releases rfl rfl
  next => cases taken

theorem removeFromFileTable_kept {fname : CString} (heap : Heap users.fs) (sound : Sound users)
    (taken : (Call.removeFromFileTable fname).take users = some after) : Kept users after := by
  obtain ⟨⟨value, fs'⟩, ran, done⟩ := Option.bind_eq_some_iff.mp taken
  cases done
  obtain ⟨entry, fs₁, looked, ran⟩ := bind_some ran
  cases looked
  cases present : users.fs.fileTable.lookup fname with
  | none =>
    rw [present] at ran
    cases ran
    exact .quiet heap sound rfl (.refl _) (not_releases rfl rfl)
  | some file =>
    rw [present] at ran
    obtain ⟨_, fs₁, closing, ran⟩ := bind_some ran
    cases ran
    obtain ⟨_, fs₂, allowed, closing⟩ := bind_some closing
    have idle := fileAllowWrite_idle allowed
    have refer : holders fs₁ = holders users.fs := (inodeClose_counts closing).choose_spec.2.1.trans idle.refer
    obtain ⟨mapFile, table, dirs, next⟩ := Holders.mk.inj refer
    apply Kept.close heap sound _ idle closing
    · intro heap
      exact ⟨heap.inodes, heap.dirs, heap.distinct⟩
    · rfl
    · rfl
    · rfl
    · have split := (inodes_untabled (holders users.fs) present).append_left users.loose
      unfold Users.openers holders
      dsimp only
      rw [mapFile, table, dirs]
      exact split.trans List.perm_middle

theorem dirOpen_kept (heap : Heap users.fs) (sound : Sound users)
    (taken : (Call.dirOpen addr).take users = some after) : Kept users after := by
  rw [Call.take] at taken
  split at taken
  next member =>
    obtain ⟨⟨value, fs'⟩, ran, done⟩ := Option.bind_eq_some_iff.mp taken
    cases done
    cases ran
    have handed := (List.perm_cons_erase member).append_right (holders users.fs).inodes
    apply Kept.quiet
    · refine ⟨fun other n found => Nat.lt_succ_of_lt (heap.inodes other n found), ?_, ?_⟩
      · intro entry there
        rcases List.mem_cons.mp there with rfl | there
        · exact Nat.lt_succ_self _
        · exact Nat.lt_succ_of_lt (heap.dirs entry there)
      · apply List.nodup_cons.mpr
        refine ⟨?_, heap.distinct⟩
        intro there
        obtain ⟨entry, there, same⟩ := List.mem_map.mp there
        exact absurd (heap.dirs entry there) (same ▸ Nat.lt_irrefl _)
    · exact sound
    · rfl
    · have opened := inodes_dirOpened (holders users.fs) users.fs.nextAddr ⟨addr, 36, 1⟩ (users.fs.nextAddr + 1)
      exact (handed.trans List.perm_middle.symm).trans (opened.append_left _)
    · exact not_releases rfl rfl
  next => cases taken

theorem Kept.dirCount (dir : Addr) (change : Dir → Dir) (heap : Heap users.fs) (sound : Sound users)
    (same : ∀ d, (change d).inode = d.inode) :
    Kept users ⟨{ users.fs with dirs := users.fs.dirs.map fun entry => if entry.1 = dir then (dir, change entry.2) else entry },
      users.loose⟩ := by
  let dirs := users.fs.dirs.map fun entry => if entry.1 = dir then (dir, change entry.2) else entry
  have inodes : (dirs.map fun entry => entry.2.inode) = users.fs.dirs.map fun entry => entry.2.inode := by
    rw [List.map_map]
    apply List.map_congr_left
    intro entry _
    dsimp only [Function.comp_apply]
    split
    · exact same entry.2
    · rfl
  have keys : dirs.map (·.1) = users.fs.dirs.map (·.1) := keys_change change
  apply Kept.quiet
  · refine ⟨heap.inodes, ?_, ?_⟩
    · intro entry there
      have key : entry.1 ∈ users.fs.dirs.map (·.1) := keys ▸ List.mem_map_of_mem there
      obtain ⟨before, member, same⟩ := List.mem_map.mp key
      exact same ▸ heap.dirs before member
    · exact (congrArg List.Nodup keys).mpr heap.distinct
  · exact sound
  · rfl
  · apply List.Perm.of_eq
    unfold Users.openers Holders.inodes holders
    dsimp only
    rw [← inodes]
  · exact not_releases rfl rfl

theorem dirOpenRoot_kept (heap : Heap users.fs) (sound : Sound users) (counted : Counted users .dirOpenRoot)
    (taken : Call.dirOpenRoot.take users = some after) : Kept users after := by
  obtain ⟨⟨dir, fs'⟩, ran, done⟩ := Option.bind_eq_some_iff.mp taken
  cases done
  obtain ⟨_, fs₀, got, ran⟩ := bind_some ran
  cases got
  cases cwd : users.fs.cwd with
  | some open' =>
    rw [cwd] at ran
    obtain ⟨_, fs₁, found, ran⟩ := bind_some ran
    obtain ⟨_, there, done⟩ := Option.map_eq_some_iff.mp found
    cases done
    obtain ⟨_, fs₂, counting, ran⟩ := bind_some ran
    cases counting
    cases ran
    exact .dirCount dir (fun d => { d with openCnt := d.openCnt + 1 }) heap sound fun _ => rfl
  | none =>
    rw [cwd] at ran
    obtain ⟨addr, fs₁, opened, ran⟩ := bind_some ran
    obtain ⟨_, fs₂, entered, ran⟩ := bind_some ran
    obtain ⟨_, fs₃, stored, ran⟩ := bind_some ran
    cases stored
    cases ran
    -- the sector is opened, and the directory takes the reference over
    have first : (Call.inodeOpen rootDirSector).take users = some ⟨fs₁, addr :: users.loose⟩ := by
      rw [Call.take, opened]
      rfl
    have second : (Call.dirOpen addr).take ⟨fs₁, addr :: users.loose⟩ = some ⟨fs₂, users.loose⟩ := by
      rw [Call.take, if_pos List.mem_cons_self, entered, List.erase_cons_head]
      rfl
    have kept₁ := inodeOpen_kept heap sound (counted cwd) first
    have kept₂ := dirOpen_kept kept₁.heap kept₁.sound second
    obtain ⟨_, _, _, quiet, _⟩ := inodeOpen_fresh (counted cwd) opened
    cases entered
    exact ⟨⟨kept₂.heap.inodes, kept₂.heap.dirs, kept₂.heap.distinct⟩, kept₂.sound, fun releases => absurd releases quiet⟩

theorem dirClose_kept {dir : Addr} (heap : Heap users.fs) (sound : Sound users)
    (taken : (Call.dirClose dir).take users = some after) : Kept users after := by
  obtain ⟨⟨value, fs'⟩, ran, done⟩ := Option.bind_eq_some_iff.mp taken
  cases done
  obtain ⟨d, fs₁, got, ran⟩ := bind_some ran
  obtain ⟨d', found, done⟩ := Option.map_eq_some_iff.mp got
  cases done
  by_cases last : d.openCnt - 1 = 0
  · rw [if_pos last] at ran
    obtain ⟨_, fs₂, closing, ran⟩ := bind_some ran
    cases ran
    have refer : holders fs₂ = holders users.fs := (inodeClose_counts closing).choose_spec.2.1
    obtain ⟨mapFile, table, dirs, next⟩ := Holders.mk.inj refer
    apply Kept.close heap sound _ .refl closing
    · intro heap
      refine ⟨heap.inodes, fun entry there => heap.dirs entry (List.mem_filter.mp there).1, ?_⟩
      exact heap.distinct.sublist (List.filter_sublist.map _)
    · rfl
    · rfl
    · rfl
    · have split := (inodes_dirClosed (holders users.fs) heap.distinct found).append_left users.loose
      unfold Users.openers holders
      dsimp only
      rw [mapFile, table, dirs]
      exact split.trans List.perm_middle
  · rw [if_neg last] at ran
    cases ran
    exact .dirCount dir (fun d => { d with openCnt := d.openCnt - 1 }) heap sound fun _ => rfl

theorem take_kept {call : Call} (heap : Heap users.fs) (sound : Sound users) (counted : Counted users call)
    (taken : call.take users = some after) : Kept users after := by
  cases call with
  | inodeOpen sector => exact inodeOpen_kept heap sound counted taken
  | inodeReopen inode => exact counted.elim
  | inodeRemove inode => exact inodeRemove_kept heap sound taken
  | inodeClose inode => exact inodeClose_kept heap sound taken
  | addToFileTable inode fname => exact addToFileTable_kept heap sound taken
  | removeFromFileTable fname => exact removeFromFileTable_kept heap sound taken
  | dirOpen inode => exact dirOpen_kept heap sound taken
  | dirOpenRoot => exact dirOpenRoot_kept heap sound counted taken
  | dirGetInode dir => exact counted.elim
  | dirClose dir => exact dirClose_kept heap sound taken

theorem dirOpenRoot_uncounted (sound : Sound users) (uncounted : ¬ Counted users .dirOpenRoot)
    (taken : Call.dirOpenRoot.take users = some after) : ¬ Sound after := by
  obtain ⟨⟨dir, fs'⟩, ran, done⟩ := Option.bind_eq_some_iff.mp taken
  cases done
  obtain ⟨_, fs₀, got, ran⟩ := bind_some ran
  cases got
  have ⟨cwd, opens⟩ := Classical.not_imp.mp uncounted
  have there : ∃ entry ∈ users.fs.openInodes, entry.2.sector = rootDirSector := by
    apply Classical.byContradiction
    intro absent
    exact opens fun entry member same => absent ⟨entry, member, same⟩
  rw [cwd] at ran
  obtain ⟨addr, fs₁, opened, ran⟩ := bind_some ran
  obtain ⟨_, fs₂, entered, ran⟩ := bind_some ran
  obtain ⟨_, fs₃, stored, ran⟩ := bind_some ran
  cases stored
  cases ran
  obtain ⟨rfl, n, found⟩ := inodeOpen_found there opened
  cases entered
  have entry := inodes_dirOpened (holders users.fs) users.fs.nextAddr ⟨addr, 36, 1⟩ (users.fs.nextAddr + 1)
  intro wrong
  apply sound.uncounted found
  exact wrong.perm ((entry.symm.append_left users.loose).trans List.perm_middle)

/-- A call that does not count its reference leaves a count that is wrong. -/
theorem take_uncounted {call : Call} (sound : Sound users) (uncounted : ¬ Counted users call)
    (taken : call.take users = some after) : ¬ Sound after := by
  cases call with
  | inodeOpen sector =>
    obtain ⟨⟨addr, fs'⟩, ran, done⟩ := Option.bind_eq_some_iff.mp taken
    cases done
    have there : ∃ entry ∈ users.fs.openInodes, entry.2.sector = sector := by
      apply Classical.byContradiction
      intro absent
      exact uncounted fun entry member same => absent ⟨entry, member, same⟩
    obtain ⟨rfl, n, found⟩ := inodeOpen_found there ran
    exact sound.uncounted found
  | inodeReopen inode =>
    rw [Call.take] at taken
    split at taken
    next member =>
      cases taken
      obtain ⟨n, found⟩ := sound.held inode member
      exact sound.uncounted found
    next => cases taken
  | dirOpenRoot => exact dirOpenRoot_uncounted sound uncounted taken
  | dirGetInode dir =>
    obtain ⟨d, found, done⟩ := Option.bind_eq_some_iff.mp taken
    cases done
    have holder : d.inode ∈ users.openers := by
      have entry : d.inode ∈ users.fs.dirs.map fun entry => entry.2.inode :=
        ((lookup_perm found).map fun entry => entry.2.inode).mem_iff.mpr List.mem_cons_self
      exact List.mem_append_right _ (List.mem_append_right _ (List.mem_append_right _ entry))
    obtain ⟨n, found⟩ := sound.held d.inode holder
    exact sound.uncounted found
  | _ => exact absurd trivial uncounted

end Steps

/-- From a state whose counts are right, every state of a run has the counts right and sectors are only released by
last openers, exactly when no call of the run gives out an inode that is open already. -/
theorem openers_counted_iff (calls : List Call) (start : Users) (heap : Heap start.fs) (sound : Sound start) :
    Along Call.take (fun before _ after => Sound after ∧ OnlyLast before after) calls start ↔
      Along Call.take (fun before call _ => Counted before call) calls start := by
  have agree (before : Users) (call : Call) (after : Users) (good : Heap before.fs ∧ Sound before)
      (taken : call.take before = some after) : (Sound after ∧ OnlyLast before after) ↔ Counted before call := by
    constructor
    · intro kept
      apply Classical.byContradiction
      intro uncounted
      exact take_uncounted good.2 uncounted taken kept.1
    · intro counted
      have kept := take_kept good.1 good.2 counted taken
      exact ⟨kept.sound, kept.last⟩
  apply Along.iff _ agree calls start ⟨heap, sound⟩
  intro before call after good taken kept
  have next := take_kept good.1 good.2 ((agree before call after good taken).mp kept) taken
  exact ⟨next.heap, next.sound⟩

section Mount

theorem stable_sectors (sectors : List Sector) :
    Stable (fun _ => True) fun fs => fs.openInodes.map (·.2.sector) = sectors where
  disk _ _ same := same
  freeMap _ _ _ same := same
  data fs addr data same _ := by
    rw [← same, withData, List.map_map]
    apply List.map_congr_left
    intro entry _
    dsimp only [Function.comp_apply]
    split
    · rfl
    · rfl
  opened _ _ _ _ _ := trivial
  wraps _ := trivial

/-- No inode is open, and there is nothing to refer to one. -/
structure Bare (fs : FileSystem) : Prop where
  counts : countOf fs = fun _ => none
  fileTable : fs.fileTable = []
  dirs : fs.dirs = []

theorem Bare.closed (bare : Bare fs) (sector : Sector) : ∀ entry ∈ fs.openInodes, entry.2.sector ≠ sector := by
  intro entry member
  have missing : fs.inode? entry.1 = none := Option.map_eq_none_iff.mp (congrFun bare.counts entry.1)
  exact absurd rfl (lookup_none.mp missing entry member)

/-- Opening the free map opens its inode, for the file of the free map alone. -/
theorem freeMapOpen_sound {value : PUnit} (bare : Bare fs) (ran : freeMapOpen fs = some (value, fs')) :
    Heap fs' ∧ Sound ⟨fs', []⟩ ∧ fs'.fileTable = [] := by
  obtain ⟨addr, fs₁, opened, ran⟩ := bind_some ran
  obtain ⟨rfl, counts, refer, _⟩ := inodeOpen_fresh (bare.closed freeMapSector) opened
  obtain ⟨_, fs₂, stored, ran⟩ := bind_some ran
  cases stored
  obtain ⟨success, fs₃, read, ran⟩ := bind_some ran
  obtain ⟨⟨counts₃, refer₃⟩, _⟩ := (stable_counts _ _).bitmapRead _ _ success fs₃ ⟨rfl, rfl⟩ read
  have same : fs' = fs₃ := by
    split at ran
    · cases ran
      rfl
    · cases ran
  subst same
  obtain ⟨_, table, dirs, next⟩ := Holders.mk.inj refer
  obtain ⟨mapFile₃, table₃, dirs₃, next₃⟩ := Holders.mk.inj refer₃
  have counted : countOf fs' = insertKey (countOf fs) fs.nextAddr 1 := counts₃.trans counts
  have noDirs : fs'.dirs = [] := (dirs₃.trans dirs).trans bare.dirs
  have noFiles : fs'.fileTable = [] := (table₃.trans table).trans bare.fileTable
  refine ⟨⟨?_, ?_, ?_⟩, ?_, noFiles⟩
  · intro other n found
    rw [counted, bare.counts] at found
    rcases insertKey_some.mp found with ⟨rfl, _⟩ | ⟨_, found⟩
    · rw [next₃.trans next]
      exact Nat.lt_succ_self _
    · cases found
  · rw [noDirs]
    nofun
  · rw [noDirs]
    exact List.nodup_nil
  · have one : Users.openers ⟨fs', []⟩ = [fs.nextAddr] := by
      unfold Users.openers holders Holders.inodes
      dsimp only
      rw [mapFile₃, noDirs, noFiles]
      rfl
    have none : Tallied (countOf fs) [] := ⟨nofun, fun other n found => by rw [bare.counts] at found; cases found⟩
    rw [Sound, one, counted]
    exact none.fresh (congrFun bare.counts _)

private structure Still (fs fs' : FileSystem) : Prop where
  counts : countOf fs' = countOf fs
  refer : holders fs' = holders fs
  sectors : fs'.openInodes.map (·.2.sector) = fs.openInodes.map (·.2.sector)

private theorem Still.of_stays {program : M α} {value : α}
    (stays : ∀ invariant, Stable (fun _ => True) invariant → Stays invariant program)
    (ran : program fs = some (value, fs')) : Still fs fs' := by
  have stable := (stable_counts (countOf fs) (holders fs)).and (stable_sectors (fs.openInodes.map (·.2.sector)))
  obtain ⟨⟨⟨counts, refer⟩, sectors⟩, _⟩ := stays _ stable fs value fs' ⟨⟨rfl, rfl⟩, rfl⟩ ran
  exact ⟨counts, refer, sectors⟩

private theorem inodeClose_single {value : PUnit} (one : countOf fs addr = some 1)
    (ran : Fs.inodeClose addr fs = some (value, fs')) : countOf fs' = eraseKey (countOf fs) addr ∧ holders fs' = holders fs := by
  obtain ⟨inode, found, refer, ⟨_, counts, _⟩ | ⟨many, _, _⟩⟩ := inodeClose_counts ran
  · exact ⟨counts, refer⟩
  · rw [countOf_eq found] at one
    exact absurd (Option.some.inj one) many

/-- The file of the free map is open, and nothing else is. -/
private structure MapOnly (fs : FileSystem) (addr : Addr) : Prop where
  counts : countOf fs = insertKey (fun _ => none) addr 1
  refer : holders fs = ⟨some (fileOpen addr), [], [], fs.nextAddr⟩
  sectors : fs.openInodes.map (·.2.sector) = [freeMapSector]
  below : addr < fs.nextAddr

private theorem freeMapCreate_opens {value : PUnit} (bare : Bare fs) (ran : freeMapCreate fs = some (value, fs')) :
    ∃ addr, MapOnly fs' addr := by
  obtain ⟨_, fs₁, got, ran⟩ := bind_some ran
  cases got
  obtain ⟨created, fs₁, made, ran⟩ := bind_some ran
  have still := Still.of_stays (fun _ stable => stable.inodeCreate _ _ _) made
  have bare₁ : Bare fs₁ := by
    obtain ⟨_, table, dirs, _⟩ := Holders.mk.inj still.refer
    exact ⟨still.counts.trans bare.counts, table.trans bare.fileTable, dirs.trans bare.dirs⟩
  have none : fs₁.openInodes = [] := List.eq_nil_iff_forall_not_mem.mpr fun entry member =>
    bare₁.closed entry.2.sector entry member rfl
  split at ran
  · obtain ⟨addr, fs₂, opened, ran⟩ := bind_some ran
    obtain ⟨rfl, counts, refer, _, sectors⟩ := inodeOpen_fresh (bare₁.closed freeMapSector) opened
    obtain ⟨_, fs₃, stored, ran⟩ := bind_some ran
    cases stored
    obtain ⟨success, fs₄, written, ran⟩ := bind_some ran
    have still := Still.of_stays (fun _ stable => stable.bitmapWrite _) written
    have same : fs' = fs₄ := by
      split at ran
      · cases ran
        rfl
      · cases ran
    subst same
    obtain ⟨_, table, dirs, next⟩ := Holders.mk.inj refer
    obtain ⟨mapFile, table', dirs', next'⟩ := Holders.mk.inj still.refer
    have noFiles : fs'.fileTable = [] := table'.trans (table.trans bare₁.fileTable)
    have noDirs : fs'.dirs = [] := dirs'.trans (dirs.trans bare₁.dirs)
    refine ⟨fs₁.nextAddr, (still.counts.trans counts).trans (by rw [bare₁.counts]), ?_, ?_, ?_⟩
    · unfold holders
      rw [mapFile, noFiles, noDirs]
    · rw [still.sectors]
      exact sectors.trans (by rw [none]; rfl)
    · rw [next', show _ = fs₁.nextAddr + 1 from next]
      exact Nat.lt_succ_self _
  · cases ran

private theorem dirCreate_closes {map : Addr} {sector : Sector} {entryCnt : Nat} {created : Bool} (only : MapOnly fs map)
    (other : sector ≠ freeMapSector) (ran : dirCreate sector entryCnt fs = some (created, fs')) :
    countOf fs' = countOf fs ∧ fs'.freeMapFile = some (fileOpen map) ∧ fs'.fileTable = [] ∧ fs'.dirs = [] := by
  obtain ⟨made, fs₁, making, ran⟩ := bind_some ran
  have still := Still.of_stays (fun _ stable => stable.inodeCreate _ _ _) making
  have refer₁ := still.refer.trans only.refer
  obtain ⟨mapFile₁, table₁, dirs₁, next₁⟩ := Holders.mk.inj refer₁
  split at ran
  · obtain ⟨addr, fs₂, opened, ran⟩ := bind_some ran
    have closed : ∀ entry ∈ fs₁.openInodes, entry.2.sector ≠ sector := by
      intro entry member same
      have listed : entry.2.sector ∈ fs₁.openInodes.map (·.2.sector) := List.mem_map_of_mem (f := (·.2.sector)) member
      rw [still.sectors, only.sectors, List.mem_singleton] at listed
      exact other (same.symm.trans listed)
    obtain ⟨rfl, counts₂, refer₂, _⟩ := inodeOpen_fresh closed opened
    obtain ⟨mapFile₂, table₂, dirs₂, next₂⟩ := Holders.mk.inj refer₂
    obtain ⟨dir, fs₃, made, ran⟩ := bind_some ran
    cases made
    obtain ⟨written, fs₄, writing, ran⟩ := bind_some ran
    have still₄ := Still.of_stays (fun _ stable => stable.inodeWriteAt _ _ _) writing
    obtain ⟨mapFile₄, table₄, dirs₄, next₄⟩ := Holders.mk.inj still₄.refer
    have dirs : fs₄.dirs = [(fs₂.nextAddr, ⟨fs₁.nextAddr, 36, 1⟩)] := by
      rw [dirs₄]
      exact congrArg ((fs₂.nextAddr, (⟨fs₁.nextAddr, 36, 1⟩ : Dir)) :: ·) (dirs₂.trans dirs₁)
    obtain ⟨_, fs₅, closing, ran⟩ := bind_some ran
    cases ran
    obtain ⟨d, fs₆, got, closing⟩ := bind_some closing
    have found : fs₄.dir? fs₂.nextAddr = some ⟨fs₁.nextAddr, 36, 1⟩ := by
      rw [FileSystem.dir?, dirs, List.lookup_cons, beq_self_eq_true]
    obtain ⟨d', found', done⟩ := Option.map_eq_some_iff.mp got
    cases done
    cases found.symm.trans found'
    obtain ⟨_, fs₇, last, closing⟩ := bind_some closing
    cases closing
    have counts₄ : countOf fs₄ = insertKey (countOf fs) fs₁.nextAddr 1 := by
      rw [still₄.counts, ← still.counts]
      exact counts₂
    have one : countOf fs₄ fs₁.nextAddr = some 1 := by
      rw [counts₄, insertKey_self]
    obtain ⟨counts₇, refer₇⟩ := inodeClose_single one last
    obtain ⟨mapFile₇, table₇, dirs₇, next₇⟩ := Holders.mk.inj refer₇
    refine ⟨?_, ?_, ?_, ?_⟩
    · have new : countOf fs fs₁.nextAddr = none := by
        have differs : fs₁.nextAddr ≠ map := by
          rw [show fs₁.nextAddr = fs.nextAddr from next₁]
          exact Nat.ne_of_gt only.below
        rw [only.counts, insertKey_other differs]
      change countOf fs₇ = _
      rw [counts₇, counts₄]
      funext other
      by_cases same : other = fs₁.nextAddr
      · rw [same, eraseKey_self, new]
      · rw [eraseKey_other same, insertKey_other same]
    · exact mapFile₇.trans (mapFile₄.trans (mapFile₂.trans mapFile₁))
    · exact table₇.trans (table₄.trans (table₂.trans table₁))
    · change fs₇.dirs.filter _ = []
      rw [dirs₇, dirs, List.filter_cons, bne_self_eq_false]
      rfl
  · cases ran
    exact ⟨still.counts, mapFile₁, table₁, dirs₁⟩

theorem doFormat_bare {value : PUnit} (bare : Bare fs) (ran : doFormat fs = some (value, fs')) : Bare fs' := by
  obtain ⟨_, fs₁, created, ran⟩ := bind_some ran
  obtain ⟨map, only⟩ := freeMapCreate_opens bare created
  obtain ⟨made, fs₂, making, ran⟩ := bind_some ran
  obtain ⟨counts, mapFile, table, dirs⟩ := dirCreate_closes only (by decide) making
  split at ran
  · obtain ⟨_, fs₃, got, closing⟩ := bind_some ran
    cases got
    rw [mapFile] at closing
    obtain ⟨_, fs₃, allowed, closing⟩ := bind_some closing
    cases allowed
    have one : countOf fs₂ map = some 1 := by
      rw [counts, only.counts, insertKey_self]
    obtain ⟨counts', refer⟩ := inodeClose_single one closing
    obtain ⟨_, table', dirs', _⟩ := Holders.mk.inj refer
    refine ⟨?_, table'.trans table, dirs'.trans dirs⟩
    rw [counts', counts, only.counts]
    funext other
    by_cases same : other = map
    · rw [same, eraseKey_self]
    · rw [eraseKey_other same, insertKey_other same]
  · cases ran

/-- A file system that has just been mounted has one opener, the file of its free map. -/
theorem mounted_sound {device : Array Block} {bounded : device.size < 2 ^ 32} {format : Bool}
    (ran : filesysInit device bounded format = some fs) : Heap fs ∧ Sound ⟨fs, []⟩ := by
  have blank : Bare (blankFileSystem device bounded) := ⟨rfl, rfl, rfl⟩
  have opens (before : FileSystem) (value : PUnit) (bare : Bare before)
      (mounted : (do
        freeMapOpen
        modify fun fs => { fs with fileTable := [] } : M PUnit) before = some (value, fs)) : Heap fs ∧ Sound ⟨fs, []⟩ := by
    obtain ⟨_, fs₁, opened, cleared⟩ := bind_some mounted
    obtain ⟨heap, sound, empty⟩ := freeMapOpen_sound bare opened
    have same : fs = fs₁ := by
      cases cleared
      change { fs₁ with fileTable := [] } = fs₁
      rw [← empty]
    exact same ▸ ⟨heap, sound⟩
  rw [filesysInit] at ran
  by_cases low : device.size < 2
  · rw [if_pos low] at ran
    cases ran
  rw [if_neg low] at ran
  cases format with
  | false =>
    obtain ⟨⟨value, fs₁⟩, mounted, done⟩ := Option.bind_eq_some_iff.mp ran
    cases done
    exact opens _ value blank mounted
  | true =>
    obtain ⟨⟨value, fs₁⟩, mounted, done⟩ := Option.bind_eq_some_iff.mp ran
    cases done
    obtain ⟨_, fs₂, formatted, mounted⟩ := bind_some mounted
    exact opens fs₂ value (doFormat_bare blank formatted) mounted

end Mount

section Example

/-- The root directory of a file system just formatted is opened, marked as removed and closed: each is counted. -/
theorem openers_counted_formatted : ∃ fs, filesysInit smallDevice smallDevice_size true = some fs ∧
    Along Call.take (fun before _ after => Sound after ∧ OnlyLast before after)
      [.inodeOpen rootDirSector, .inodeRemove fs.nextAddr, .inodeClose fs.nextAddr] ⟨fs, []⟩ := by
  obtain ⟨fs, ran, formatted, _⟩ := smallDevice_format
  obtain ⟨heap, sound⟩ := mounted_sound ran
  refine ⟨fs, ran, (openers_counted_iff _ ⟨fs, []⟩ heap sound).mpr ?_⟩
  intro after taken
  refine ⟨?_, fun _ _ => ⟨trivial, fun _ _ => ⟨trivial, trivial⟩⟩⟩
  intro entry member same
  exact formatted.session.2.2 entry.1 ⟨entry.2, member, same⟩

/-- A file that is open under two names is closed under one: its inode is gone, and the other name still refers to it. -/
theorem openers_miscounted : ∃ start created first second fs file, filesysInit smallDevice smallDevice_size true = some start ∧
    fsutilCreate [97] 5 start = some (1, created) ∧ fsutilSize [97] created = some (5, first) ∧
    fsutilSize [47, 97] first = some (5, second) ∧ Fs.removeFromFileTable [97] second = some (true, fs) ∧
    fs.fileTable.lookup [47, 97] = some file ∧ fs.inode? file.inode = none := by
  obtain ⟨start, created, sector, ran, _, _, made, done, running, empty⟩ := smallDevice_create (show 5 ≤ 8517120 by decide)
    (by rw [wanted_eq (by decide), sectorsNeeded_eq (by decide)]; decide)
  have named : Named created [97] sector := (done.named [97] sector).mpr (.inr ⟨rfl, rfl⟩)
  have notRoot := (running.volume.root.plain [97] sector named).2.2.2
  -- the first name is opened and put into the table
  obtain ⟨size, first, sized, looked, _, ⟨_, missing, _⟩ | ⟨sector', named', length, file, found⟩⟩ := fsutilSize_wp running plain_a
  · exact absurd named (missing sector)
  obtain rfl := running.volume.root.functional named named'
  have named₁ : Named first [97] sector := looked.named ▸ named
  obtain ⟨plain, _, _, there, homeNamed, opened⟩ := looked.running.table.entry [97] file found
  obtain rfl := looked.running.volume.root.functional named₁ homeNamed
  -- the second name leads to the same inode
  obtain ⟨result, middle, ran₂, calm, _, absent, present⟩ := filesysOpen_path_wp looked.running.volume looked.running.session
    (show ([47, 97] : CString) ≠ [] by decide) (show (splitPathFilename [47, 97]).2 = [97] by decide) plain_a
  obtain ⟨other, rfl⟩ : ∃ other, result = some other := by
    cases result with
    | none => exact absurd named₁ (absent rfl sector)
    | some other => exact ⟨other, rfl⟩
  obtain ⟨_, there, named₂, opened₂⟩ := present other rfl
  obtain rfl := looked.running.volume.root.functional named₁ named₂
  have still := calm.steady.keeps.opens file.inode sector notRoot id opened
  have handles := calm.steady.volume.objects.blocks.handles
  obtain ⟨inode, member, home⟩ := still
  obtain ⟨inode₂, member₂, home₂⟩ := opened₂
  obtain ⟨same, rfl⟩ := Prod.mk.inj (handles.same_sector member member₂ (home.trans home₂.symm))
  -- so the table has two files of one inode that counts one opener
  have unlisted : first.fileTable.lookup [47, 97] = none :=
    (looked.others [47, 97] (by decide)).trans (by rw [empty]; rfl)
  have table : middle.fileTable = first.fileTable := calm.steady.keeps.fileTable
  let second : FileSystem := { middle with fileTable := middle.fileTable ++ [([47, 97], other)] }
  have listed : openByFname [47, 97] first = some (some other, second) := by
    rw [openByFname, run_bind (show getFileByFname [47, 97] first = some (none, first) by rw [← unlisted]; rfl)]
    dsimp only
    rw [run_bind ran₂]
    dsimp only
    have added : addToFileTable other [47, 97] middle = some (⟨⟩, second) := by
      rw [addToFileTable, run_bind (show getFileByFname [47, 97] middle = some (none, middle) by rw [← unlisted, ← table]; rfl)]
      rfl
    rw [run_bind added]
    rfl
  have five : inode.data.length = 5 := by
    rw [← handles.curData member, home, calm.data sector notRoot, looked.data sector notRoot, done.fresh.length]
    rfl
  have five' : size = 5 := length.trans done.fresh.length
  have measured : fsutilSize [47, 97] first = some (5, second) := by
    rw [fsutilSize, run_bind listed]
    dsimp only
    rw [fileLength, run_bind (show getInode other.inode second = some (inode, second) from getInode_eq (handles.inode? member₂)), five]
    rfl
  -- closing the first takes the inode from the second
  have entry : second.fileTable.lookup [97] = some file := by
    change (middle.fileTable ++ [([47, 97], other)]).lookup [97] = some file
    rw [lookup_add (by rw [table, unlisted]), if_neg (by decide), table, found]
  have handles₂ : Handles second := ⟨handles.addrs, handles.sectors, handles.below, handles.plain⟩
  let fs : FileSystem := { dropInode second file.inode with
    fileTable := second.fileTable.eraseP fun entry => entry.1 == [97] }
  have closed : Fs.removeFromFileTable [97] second = some (true, fs) := by
    rw [Fs.removeFromFileTable, run_bind (show getFileByFname [97] second = some (some file, second) by rw [← entry]; rfl)]
    dsimp only
    have closing : fileClose file second = some (⟨⟩, dropInode second file.inode) := by
      rw [fileClose, fileAllowWrite, plain, if_neg (by decide)]
      exact inodeClose_eq handles₂ member
    rw [run_bind closing]
    rfl
  refine ⟨start, created, first, second, fs, other, ran, made, five' ▸ sized, measured, closed, ?_, ?_⟩
  · have missing : middle.fileTable.lookup [47, 97] = none := by rw [table, unlisted]
    have keys : (second.fileTable.map (·.1)).Nodup := keys_add (table ▸ looked.running.table.keys) missing
    refine (lookup_erase keys).trans ?_
    rw [if_neg (by decide)]
    exact (lookup_add missing).trans (if_pos rfl)
  · rw [← same]
    exact lookup_filter.trans (if_pos rfl)

end Example

end Comp310.Proofs.References
