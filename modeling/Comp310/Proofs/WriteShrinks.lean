import Comp310.Fs.Runs

/-! A write of no bytes looks for the byte before its offset. Where there is none it takes the file for one to be
extended to the offset, and the length follows. -/

namespace Comp310.Proofs.WriteShrinks
open Comp310.Fs Comp310.Lib

/-- An open inode that a number of bytes can be written to from `start` on: one whose writes are denied, or one of a
sound file system. `map` restricts the free map's own file, which only `bitmap_write` writes: some bytes, and none past its end. -/
inductive WellFormed (fs : FileSystem) (addr : Addr) (inode : Inode) (start size : Nat) : Prop where
  | denied (found : fs.inode? addr = some inode) (denied : inode.denyWriteCnt ≠ 0)
  | sound (blocks : Blocks live fs) (opened : (addr, inode) ∈ fs.openInodes)
      (map : inode.sector = 0 → 0 < size ∧ (start + size : Nat) ≤ inode.data.length)

/-- The file has not become shorter, and is the same if nothing was written. -/
def NeverShrinks (fs fs' : FileSystem) (inode inode' : Inode) (written : Int) : Prop :=
  inode.data.length ≤ inode'.data.length ∧ (written = 0 → inode'.data.length = inode.data.length ∧
    ∀ i : Nat, i < inode.data.length → fileByte fs'.disk.view inode'.data i = fileByte fs.disk.view inode.data i)

/-- There is something to write, or the byte before the offset is in the file, or the end does not move. -/
def Harmless (fs : FileSystem) (inode : Inode) (start size : Nat) : Prop :=
  inode.denyWriteCnt ≠ 0 ∨ 0 < size ∨ (start = 0 ∧ inode.data.length = 0) ∨ (0 < start ∧ start ≤ inode.data.length) ∨
    (inode.data.length < start ∧ ¬ Fits fs inode.data start)

variable {live : Sector → Prop} {fs fs' : FileSystem} {addr : Addr} {inode : Inode} {data : InodeDisk} {start : Nat}
  {buffer : List UInt8} {written : Int} {ok : Bool}

/-- The call has run, and the file is as it should be exactly under the condition. -/
private abbrev Outcome (condition : Prop) (fs : FileSystem) (addr : Addr) (inode : Inode) (written : Int) (fs' : FileSystem) :
    Prop :=
  ∃ inode', fs'.inode? addr = some inode' ∧ (NeverShrinks fs fs' inode inode' written ↔ condition)

private theorem NeverShrinks.refl : NeverShrinks fs fs inode inode written :=
  ⟨Int.le_refl _, fun _ => ⟨rfl, fun _ _ => rfl⟩⟩

private theorem inode?_setData_self (found : fs.inode? addr = some inode) (entries : fs'.openInodes = setData fs addr data) :
    fs'.inode? addr = some { inode with data } := by
  unfold FileSystem.inode? at found ⊢
  rw [entries, setData]
  generalize fs.openInodes = all at found
  induction all with
  | nil => cases found
  | cons entry rest ih =>
    rw [List.lookup_cons] at found
    rw [List.map_cons, List.lookup_cons]
    by_cases same : entry.1 = addr
    · rw [if_pos same]
      simp only [same, beq_self_eq_true, Option.some.injEq] at found ⊢
      rw [found]
    · rw [if_neg same]
      have differs : (addr == entry.1) = false := beq_eq_false_iff_ne.mpr (Ne.symm same)
      simp only [differs] at found ⊢
      exact ih found

private theorem written_inode (blocks : Blocks live fs) (opened : (addr, inode) ∈ fs.openInodes)
    (wrote : WriteAt live fs fs' addr inode start buffer ok) :
    fs'.inode? addr = some { inode with data := curData fs' inode.sector } :=
  inode?_setData_self (blocks.handles.inode? opened) wrote.heap.openInodes

private theorem some_bytes (blocks : Blocks live fs) (opened : (addr, inode) ∈ fs.openInodes) (nonzero : inode.sector ≠ 0)
    (positive : 0 < buffer.length) (bound : start + buffer.length < 2147483648) :
    Wp (inodeWriteAt addr buffer start) (Outcome True fs addr inode) fs := by
  have readable := blocks.handles.curData opened ▸ blocks.readable (blocks.opens _ opened)
  have limit := readable.limit
  refine (inodeWriteAt_wp blocks opened nonzero positive bound).mono fun written fs' ⟨ok, _, all, wrote⟩ => ?_
  have length := wrote.length
  refine ⟨_, written_inode blocks opened wrote, iff_of_true ⟨?_, fun nothing => ?_⟩ trivial⟩
  · dsimp only
    rw [length]
    split <;> omega
  · cases ok with
    | true =>
      rw [if_pos rfl] at all
      omega
    | false =>
      refine ⟨length, fun i inside => ?_⟩
      dsimp only
      rw [wrote.bytes i (by omega), if_neg (by simp)]

private theorem inside_map (blocks : Blocks live fs) (opened : (addr, inode) ∈ fs.openInodes)
    (positive : 0 < buffer.length) (inside : (start + buffer.length : Nat) ≤ inode.data.length) :
    Wp (inodeWriteAt addr buffer start) (Outcome True fs addr inode) fs := by
  have member := blocks.opens _ opened
  have same := blocks.handles.curData opened
  have found := blocks.handles.inode? opened
  refine (inodeWriteAtWith_inside (freeMapAllocate 1) found (blocks.handles.plain _ opened).2.2 (same ▸ blocks.readable member)
    (same ▸ blocks.distinct member) positive inside).mono fun written fs' ⟨all, wrote⟩ => ?_
  refine ⟨inode, ?_, iff_of_true ⟨Int.le_refl _, fun nothing => absurd nothing (by omega)⟩ trivial⟩
  rw [wrote.only]
  exact found

private theorem nothing_inside (blocks : Blocks live fs) (opened : (addr, inode) ∈ fs.openInodes) (positive : 0 < start)
    (inside : start ≤ inode.data.length) : inodeWriteAt addr [] start fs = some (0, fs) := by
  have readable := blocks.handles.curData opened ▸ blocks.readable (blocks.opens _ opened)
  have limit := readable.limit
  have last : offsetT ((start : Int) + (([] : List UInt8).length : Int) - 1) = ((start - 1 : Nat) : Int) := by
    rw [List.length_nil, offsetT_eq (by omega) (by omega)]
    omega
  obtain ⟨found, allocated⟩ := byteToSector_eq readable (show ((start - 1 : Nat) : Int) < inode.data.length by omega)
  have writable : inode.denyWriteCnt = 0 := (blocks.handles.plain _ opened).2.2
  rw [inodeWriteAt, inodeWriteAtWith, run_bind (getInode_eq (blocks.handles.inode? opened))]
  dsimp only
  rw [if_neg (by simp [writable]), last, run_bind found, if_neg (ne_noSector (readable.inRange _ allocated))]
  rfl

private theorem nothing_at_start (blocks : Blocks live fs) (opened : (addr, inode) ∈ fs.openInodes) :
    Wp (inodeWriteAt addr [] (0 : Nat)) (fun written fs' => written = 0 ∧
      fs'.inode? addr = some { inode with data := { inode.data with length := 0 } }) fs := by
  have found := blocks.handles.inode? opened
  have writable : inode.denyWriteCnt = 0 := (blocks.handles.plain _ opened).2.2
  have last : offsetT (((0 : Nat) : Int) + (([] : List UInt8).length : Int) - 1) = -1 := by decide
  have total : offsetT (((0 : Nat) : Int) + (([] : List UInt8).length : Int)) = 0 := by decide
  have reserved : inodeReserve (freeMapAllocate 1) inode.data 0 fs = some ((true, inode.data), fs) := rfl
  have range : inode.sector.toNat < fs.disk.size := blocks.inRange (inode.sector, none) (blocks.opens _ opened) filled_inode
  rw [inodeWriteAt, inodeWriteAtWith, wp_bind]
  refine Wp.of_eq (getInode_eq found) ?_
  dsimp only
  rw [if_neg (by simp [writable]), last, total, wp_bind]
  refine Wp.of_eq (byteToSector_outside (.inl (by decide))) ?_
  rw [if_pos rfl, wp_bind]
  refine Wp.of_eq reserved ?_
  simp only [if_true]
  rw [wp_bind, modifyInode, wp_modify, wp_bind]
  exact wp_bufferCacheWrite range fun disk _ _ _ => (wp_pure _).mpr ⟨rfl, inode?_setData_self found rfl⟩

private theorem emptied_kept_iff :
    NeverShrinks fs fs' inode { inode with data := { inode.data with length := 0 } } 0 ↔ inode.data.length = 0 := by
  constructor
  · exact fun kept => (kept.2 rfl).1.symm
  · intro empty
    exact ⟨Int.le_of_eq empty, fun _ => ⟨empty.symm, fun i inside => absurd inside (by omega)⟩⟩

private theorem nothing_past (blocks : Blocks live fs) (opened : (addr, inode) ∈ fs.openInodes) (nonzero : inode.sector ≠ 0)
    (past : inode.data.length < start) (bound : start < 2147483648) :
    Wp (inodeWriteAt addr [] start) (Outcome (¬ Fits fs inode.data start) fs addr inode) fs := by
  refine (inodeWriteAt_past blocks opened nonzero past bound).mono fun written fs' ⟨ok, fits, nothing, wrote⟩ => ?_
  have readable := blocks.handles.curData opened ▸ blocks.readable (blocks.opens _ opened)
  have limit := readable.limit
  have length := wrote.length
  have none_written : written = 0 := nothing.trans (by split <;> rfl)
  refine ⟨_, written_inode blocks opened wrote, ?_⟩
  rw [List.length_nil, Nat.add_zero] at fits length
  rw [← fits, none_written]
  cases ok with
  | true =>
    refine iff_of_false (fun kept => ?_) (by simp)
    have same := (kept.2 rfl).1
    dsimp only at same
    rw [length, if_pos rfl] at same
    omega
  | false =>
    refine iff_of_true ⟨Int.le_of_eq length.symm, fun _ => ⟨length, fun i inside => ?_⟩⟩ (by simp)
    dsimp only
    rw [wrote.bytes i (by omega), if_neg (by simp)]

/-- A write leaves the file as it should be exactly under the condition, whatever is written where. -/
theorem write_keeps_iff (formed : WellFormed fs addr inode start buffer.length) (bound : start + buffer.length < 2147483648) :
    ∃ written fs' inode', inodeWriteAt addr buffer start fs = some (written, fs') ∧ fs'.inode? addr = some inode' ∧
      (NeverShrinks fs fs' inode inode' written ↔ Harmless fs inode start buffer.length) := by
  have assemble {condition : Prop} (same : condition ↔ Harmless fs inode start buffer.length)
      (runs : Wp (inodeWriteAt addr buffer start) (Outcome condition fs addr inode) fs) :
      ∃ written fs' inode', inodeWriteAt addr buffer start fs = some (written, fs') ∧ fs'.inode? addr = some inode' ∧
        (NeverShrinks fs fs' inode inode' written ↔ Harmless fs inode start buffer.length) := by
    obtain ⟨written, fs', ran, inode', found, kept⟩ := runs
    exact ⟨written, fs', inode', ran, found, kept.trans same⟩
  cases formed with
  | denied found denied =>
    refine ⟨0, fs, inode, ?_, found, iff_of_true .refl (.inl denied)⟩
    rw [inodeWriteAt, inodeWriteAtWith, run_bind (getInode_eq found)]
    dsimp only
    rw [if_pos denied]
    rfl
  | sound blocks opened map =>
    have writable : inode.denyWriteCnt = 0 := (blocks.handles.plain _ opened).2.2
    rcases Nat.eq_zero_or_pos buffer.length with empty | positive
    · obtain rfl := List.length_eq_zero_iff.mp empty
      have nonzero : inode.sector ≠ 0 := fun zero => absurd (map zero).1 (Nat.lt_irrefl 0)
      rcases Int.lt_or_le inode.data.length start with past | inside
      · refine assemble ⟨fun full => .inr (.inr (.inr (.inr ⟨past, full⟩))), ?_⟩ (nothing_past blocks opened nonzero past bound)
        have nonneg := (blocks.handles.curData opened ▸ blocks.readable (blocks.opens _ opened)).nonneg
        rintro (denied | positive | ⟨rfl, _⟩ | ⟨_, inside⟩ | ⟨_, full⟩)
        · exact absurd writable denied
        · cases positive
        · omega
        · omega
        · exact full
      · rcases Nat.eq_zero_or_pos start with rfl | later
        · have nonneg := (blocks.handles.curData opened ▸ blocks.readable (blocks.opens _ opened)).nonneg
          refine assemble ⟨fun empty => .inr (.inr (.inl ⟨rfl, empty⟩)), ?_⟩ ((nothing_at_start blocks opened).mono ?_)
          · rintro (denied | positive | ⟨_, empty⟩ | ⟨positive, _⟩ | ⟨past, _⟩)
            · exact absurd writable denied
            · cases positive
            · exact empty
            · cases positive
            · omega
          · rintro written fs' ⟨rfl, found⟩
            exact ⟨_, found, emptied_kept_iff⟩
        · refine ⟨0, fs, inode, nothing_inside blocks opened later inside, blocks.handles.inode? opened, ?_⟩
          exact iff_of_true .refl (.inr (.inr (.inr (.inl ⟨later, inside⟩))))
    · have harmless : True ↔ Harmless fs inode start buffer.length := iff_of_true trivial (.inr (.inl positive))
      by_cases zero : inode.sector = 0
      · exact assemble harmless (inside_map blocks opened positive (map zero).2)
      · exact assemble harmless (some_bytes blocks opened zero positive bound)

theorem write_keeps_iff_small : ∃ fs addr, ∃ inode : Inode, inode.data.length = 5 ∧
    ∃ written fs' inode', inodeWriteAt addr [66] (2 : Nat) fs = some (written, fs') ∧ fs'.inode? addr = some inode' ∧
      NeverShrinks fs fs' inode inode' written := by
  obtain ⟨fs, addr, inode, objects, opened, nonzero, _, _, length, _⟩ := smallDevice_open (show 5 ≤ 8517120 by decide)
    (by rw [wanted_eq (by decide), sectorsNeeded_eq (by decide)]; decide)
  have formed : WellFormed fs addr inode 2 [(66 : UInt8)].length := .sound objects.blocks opened fun zero => absurd zero nonzero
  obtain ⟨written, fs', inode', ran, found, kept⟩ := write_keeps_iff formed (by decide)
  exact ⟨fs, addr, inode, length, written, fs', inode', ran, found, kept.mpr (.inr (.inl (by decide)))⟩

/-- The file of five bytes is empty after no byte was written to its start. -/
theorem write_shrinks : ∃ start created fs addr fs' inode', ∃ inode : Inode,
    filesysInit smallDevice smallDevice_size true = some start ∧ fsutilCreate [97] 5 start = some (1, created) ∧
    inodeOpen inode.sector created = some (addr, fs) ∧ WellFormed fs addr inode 0 0 ∧ inode.data.length = 5 ∧
    inodeWriteAt addr [] 0 fs = some (0, fs') ∧ fs'.inode? addr = some inode' ∧ inode'.data.length = 0 ∧
    ¬ NeverShrinks fs fs' inode inode' 0 := by
  obtain ⟨fs, addr, inode, objects, opened, nonzero, _, _, length, _, start, created, ran, made, open_⟩ :=
    smallDevice_open (show 5 ≤ 8517120 by decide) (by rw [wanted_eq (by decide), sectorsNeeded_eq (by decide)]; decide)
  have formed : WellFormed fs addr inode 0 0 := .sound objects.blocks opened fun zero => absurd zero nonzero
  obtain ⟨_, fs', wrote, rfl, found⟩ := nothing_at_start objects.blocks opened
  refine ⟨start, created, fs, addr, fs', _, inode, ran, made, open_, formed, length, wrote, found, rfl, fun kept => ?_⟩
  have same := emptied_kept_iff.mp kept
  omega

end Comp310.Proofs.WriteShrinks
