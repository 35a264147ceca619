import Comp310.Lib.Assoc
import Comp310.Fs.Deallocate

/-! The list of open inodes as a partial map, from addresses and from sectors. -/

namespace Comp310.Fs
open Comp310.Lib

/-- Every open inode has one opener, one address and one sector. -/
structure Handles (fs : FileSystem) : Prop where
  addrs : (fs.openInodes.map (·.1)).Nodup
  sectors : (fs.openInodes.map (·.2.sector)).Nodup
  below : ∀ entry ∈ fs.openInodes, entry.1 < fs.nextAddr
  plain : ∀ entry ∈ fs.openInodes, entry.2.openCnt = 1 ∧ entry.2.removed = false ∧ entry.2.denyWriteCnt = 0

/-- The inode of a sector as the file system goes by it: the one in memory if
it is open, else the one on the disk. -/
def curData (fs : FileSystem) (sector : Sector) : InodeDisk :=
  match fs.openInodes.find? fun entry => entry.2.sector == sector with
  | some entry => entry.2.data
  | none => .ofBlock (fs.disk.view sector)

variable {fs fs' : FileSystem} {addr : Addr} {inode : Inode} {sector : Sector}

theorem mem_of_inode? (found : fs.inode? addr = some inode) : (addr, inode) ∈ fs.openInodes := by
  unfold FileSystem.inode? at found
  generalize fs.openInodes = entries at found ⊢
  induction entries with
  | nil => cases found
  | cons entry rest ih =>
    rw [List.lookup_cons] at found
    split at found
    next same =>
      cases found
      rw [eq_of_beq same]
      exact List.mem_cons_self
    next => exact List.mem_cons_of_mem _ (ih found)

theorem Handles.inode? (handles : Handles fs) (member : (addr, inode) ∈ fs.openInodes) : fs.inode? addr = some inode :=
  lookup_of_mem handles.addrs member

theorem Handles.same_sector (handles : Handles fs) {first second : Addr × Inode} (member : first ∈ fs.openInodes)
    (member' : second ∈ fs.openInodes) (same : first.2.sector = second.2.sector) : first = second :=
  unique_key handles.sectors member member' same

theorem Handles.same_addr (handles : Handles fs) {first second : Addr × Inode} (member : first ∈ fs.openInodes)
    (member' : second ∈ fs.openInodes) (same : first.1 = second.1) : first = second :=
  unique_key handles.addrs member member' same

theorem Handles.find (handles : Handles fs) (member : (addr, inode) ∈ fs.openInodes) :
    fs.openInodes.find? (fun entry => entry.2.sector == inode.sector) = some (addr, inode) := by
  cases found : fs.openInodes.find? fun entry => entry.2.sector == inode.sector with
  | none =>
    have missing := List.find?_eq_none.mp found _ member
    simp at missing
  | some entry =>
    have same := List.find?_some found
    rw [handles.same_sector (List.mem_of_find?_eq_some found) member (eq_of_beq same)]

theorem Handles.curData (handles : Handles fs) (member : (addr, inode) ∈ fs.openInodes) :
    Fs.curData fs inode.sector = inode.data := by
  rw [Fs.curData, handles.find member]

theorem find_closed (closed : ∀ entry ∈ fs.openInodes, entry.2.sector ≠ sector) :
    fs.openInodes.find? (fun entry => entry.2.sector == sector) = none := by
  rw [List.find?_eq_none]
  intro entry member
  simpa using closed entry member

theorem curData_closed (closed : ∀ entry ∈ fs.openInodes, entry.2.sector ≠ sector) :
    curData fs sector = .ofBlock (fs.disk.view sector) := by
  rw [curData, find_closed closed]

theorem open_or_closed (fs : FileSystem) (sector : Sector) :
    (∃ entry ∈ fs.openInodes, entry.2.sector = sector) ∨ ∀ entry ∈ fs.openInodes, entry.2.sector ≠ sector := by
  by_cases opened : ∃ entry ∈ fs.openInodes, entry.2.sector = sector
  · exact .inl opened
  · exact .inr fun entry member same => opened ⟨entry, member, same⟩

/-- The entries of open inodes with one of them given other data. -/
def setData (fs : FileSystem) (addr : Addr) (data : InodeDisk) : List (Addr × Inode) :=
  fs.openInodes.map fun entry => if entry.1 = addr then (addr, { entry.2 with data }) else entry

theorem mem_setData {data : InodeDisk} {entry : Addr × Inode} :
    entry ∈ setData fs addr data ↔
      (entry ∈ fs.openInodes ∧ entry.1 ≠ addr) ∨
        ∃ inode, (addr, inode) ∈ fs.openInodes ∧ entry = (addr, { inode with data }) := by
  unfold setData
  rw [List.mem_map]
  constructor
  · rintro ⟨⟨a, inode⟩, member, rfl⟩
    by_cases same : a = addr
    · subst same
      exact .inr ⟨inode, member, if_pos rfl⟩
    · rw [if_neg same]
      exact .inl ⟨member, same⟩
  · rintro (⟨member, differs⟩ | ⟨inode, member, rfl⟩)
    · exact ⟨entry, member, if_neg differs⟩
    · exact ⟨_, member, if_pos rfl⟩

theorem inode?_setData {data : InodeDisk} {other : Addr} (differs : other ≠ addr) :
    (setData fs addr data).lookup other = fs.inode? other := by
  unfold Fs.setData FileSystem.inode?
  induction fs.openInodes with
  | nil => rfl
  | cons entry rest ih =>
    rw [List.map_cons]
    split
    next same =>
      rw [List.lookup_cons, List.lookup_cons, same, beq_eq_false_iff_ne.mpr differs]
      exact ih
    next =>
      obtain ⟨key, inode⟩ := entry
      rw [List.lookup_cons, List.lookup_cons, ih]

theorem Handles.setData (handles : Handles fs) (data : InodeDisk) (entries : fs'.openInodes = setData fs addr data)
    (next : fs'.nextAddr = fs.nextAddr) : Handles fs' := by
  have keys : fs'.openInodes.map (·.1) = fs.openInodes.map (·.1) := by
    rw [entries, Fs.setData, List.map_map]
    refine List.map_congr_left fun entry _ => ?_
    simp only [Function.comp_apply]
    split
    next same => exact same.symm
    next => rfl
  have sectors : fs'.openInodes.map (·.2.sector) = fs.openInodes.map (·.2.sector) := by
    rw [entries, Fs.setData, List.map_map]
    refine List.map_congr_left fun entry _ => ?_
    simp only [Function.comp_apply]
    split <;> rfl
  refine ⟨keys ▸ handles.addrs, sectors ▸ handles.sectors, fun entry member => ?_, fun entry member => ?_⟩ <;>
    rw [entries, mem_setData] at member
  · rw [next]
    rcases member with ⟨member, _⟩ | ⟨inode, member, rfl⟩
    · exact handles.below entry member
    · exact handles.below (addr, inode) member
  · rcases member with ⟨member, _⟩ | ⟨inode, member, rfl⟩
    · exact handles.plain entry member
    · exact handles.plain (addr, inode) member

/-- What is in memory counts, and what is only on the disk is as it was there. -/
def Settled (fs fs' : FileSystem) (sector : Sector) : Prop :=
  (∃ entry ∈ fs.openInodes, entry.2.sector = sector) ∨
    InodeDisk.ofBlock (fs'.disk.view sector) = .ofBlock (fs.disk.view sector)

theorem Handles.curData_setData (handles : Handles fs) {data : InodeDisk} (opened : (addr, inode) ∈ fs.openInodes)
    (entries : fs'.openInodes = Fs.setData fs addr data) (next : fs'.nextAddr = fs.nextAddr) :
    Fs.curData fs' inode.sector = data ∧
      ∀ sector, sector ≠ inode.sector → Settled fs fs' sector → Fs.curData fs' sector = Fs.curData fs sector := by
  have handles' := handles.setData data entries next
  have mine : (addr, { inode with data }) ∈ fs'.openInodes := by
    rw [entries, mem_setData]
    exact .inr ⟨inode, opened, rfl⟩
  refine ⟨handles'.curData mine, fun sector differs settled => ?_⟩
  rcases open_or_closed fs sector with ⟨entry, member, rfl⟩ | closed
  · have away : entry.1 ≠ addr := by
      intro same
      rw [handles.same_addr member opened same] at differs
      exact differs rfl
    have member' : (entry.1, entry.2) ∈ fs'.openInodes := by
      rw [entries, mem_setData]
      exact .inl ⟨member, away⟩
    rw [handles'.curData member', handles.curData (show (entry.1, entry.2) ∈ fs.openInodes from member)]
  · have closed' : ∀ entry ∈ fs'.openInodes, entry.2.sector ≠ sector := by
      intro entry member
      rw [entries, mem_setData] at member
      rcases member with ⟨member, _⟩ | ⟨other, member, rfl⟩
      · exact closed entry member
      · exact closed (addr, other) member
    have stored := settled.resolve_left fun ⟨entry, member, same⟩ => closed entry member same
    rw [curData_closed closed', curData_closed closed, stored]

theorem Handles.setData_self (handles : Handles fs) (opened : (addr, inode) ∈ fs.openInodes) :
    Fs.setData fs addr inode.data = fs.openInodes := by
  unfold Fs.setData
  conv => rhs; rw [← List.map_id fs.openInodes]
  refine List.map_congr_left fun entry member => ?_
  split
  next same => rw [handles.same_addr member opened same]; rfl
  next => rfl

theorem SameHeap.curData (heap : SameHeap fs fs') (settled : Settled fs fs' sector) :
    curData fs' sector = curData fs sector := by
  unfold Fs.curData
  rw [heap.openInodes]
  rcases open_or_closed fs sector with ⟨entry, member, same⟩ | closed
  · cases found : fs.openInodes.find? fun entry => entry.2.sector == sector with
    | none =>
      have missing := List.find?_eq_none.mp found entry member
      simp [same] at missing
    | some entry => rfl
  · rw [settled.resolve_left fun ⟨entry, member, same⟩ => closed entry member same]

theorem SameHeap.handles (heap : SameHeap fs fs') (handles : Handles fs) : Handles fs' := by
  obtain ⟨addrs, sectors, below, plain⟩ := handles
  rw [← heap.openInodes] at addrs sectors below plain
  rw [← heap.nextAddr] at below
  exact ⟨addrs, sectors, below, plain⟩

end Comp310.Fs
