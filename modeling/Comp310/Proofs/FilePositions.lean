import Comp310.Fs.Enduring
import Comp310.Fs.Shell

/-! The positions of open files. `file_write` moves a position two bytes short of
the end of what was written, so a write that ends before the second byte of the
file leaves a negative one. -/

namespace Comp310.Proofs.FilePositions
open Comp310.Fs Comp310.Lib

/-- What `inode_write_at` needs to write everything: nobody denies it, the end is an offset, and
the last byte is in the file or the sectors up to it can be reserved. -/
def Room (fs : FileSystem) (addr : Addr) (offset size : Int) : Prop :=
  offset + size < 2147483648 ∧ ∀ inode, fs.inode? addr = some inode → inode.denyWriteCnt = 0 ∧
    ((∃ sector, byteToSector inode.data (offset + size - 1) fs = some (sector, fs) ∧ sector ≠ noSector) ∨
      ∃ data fs', inodeReserve (freeMapAllocate 1) inode.data (offset + size) fs = some ((true, data), fs'))

/-- A write that starts at the third byte or later, or that ends after the second one and has room. -/
def SafeAt (fs : FileSystem) (file : File) (size : Int) : Prop :=
  2 ≤ file.pos ∨ (2 ≤ file.pos + size ∧ Room fs file.inode file.pos size)

def SafeWrite (fname : CString) (size : Int) (fs : FileSystem) : Prop :=
  ∀ file fs', openByFname fname fs = some (some file, fs') → SafeAt fs' file size

/-- The write that `copy_in` makes to the file that it has created. -/
def SafeCopyIn (fname : CString) (source : Option (List UInt8)) (fs : FileSystem) : Prop :=
  ∀ bytes, source = some bytes →
    let newSize := copyInSize (numFreeSectors fs) (offsetT bytes.length)
    ∀ fs', fsutilCreate fname (newSize % 4294967296).toNat fs = some (1, fs') →
      SafeWrite fname (hostBuffer bytes newSize.toNat ++ [0]).length fs'

/-- The writes that `defragment` makes, each where it is made. -/
def SafeRewrites : List NewFile → FileSystem → Prop
  | [], _ => True
  | file :: rest, fs => ∀ created fs₁, fsutilCreate file.name (file.size % 4294967296).toNat fs = some (created, fs₁) →
      SafeWrite file.name file.content.length fs₁ ∧
        ∀ written fs₂, fsutilWrite file.name file.content fs₁ = some (written, fs₂) → SafeRewrites rest fs₂

/-- `defragment` up to where every file has been read and removed. -/
def emptied : M (List NewFile) := do
  let dir ← dirOpenRoot
  let d ← getDir dir
  let fuel ← entriesOf d.inode
  let nFiles ← countFiles dir fuel
  dirClose dir
  if nFiles = 0 then pure []
  else do
    let dir ← dirOpenRoot
    let files ← collectFiles dir nFiles
    dirClose dir
    removeFiles files
    pure files

/-- The commands of the list that keep positions, and when. -/
def Safe (fs : FileSystem) : Shell → Prop
  | .file (.create _ _) | .file (.read _ _) | .file (.size _) | .file (.rm _) => True
  | .file (.write fname buffer) => 1 ≤ buffer.length ∧ SafeWrite fname buffer.length fs
  | .file (.seek _ offset) => 0 ≤ offset ∧ offset < 2147483648
  | .copyIn fname source => SafeCopyIn fname source fs
  | .copyOut _ _ | .findFile _ => True
  | .defragment => ∀ files fs', emptied fs = some (files, fs') → SafeRewrites files fs'
  -- no command of the list
  | .ls | .fragmentationDegree | .recover _ => False

def InRange (pos : Int) : Prop := 0 ≤ pos ∧ pos < 2147483648

/-- No position in the table is negative, and lengths are values of their type. -/
structure NonNegative (fs : FileSystem) : Prop where
  positions : ∀ entry ∈ fs.fileTable, InRange entry.2.pos
  lengths : ∀ entry ∈ fs.openInodes, entry.2.data.length < 2147483648

variable {fs fs' : FileSystem} {addr : Addr} {file : File} {fname : CString} {buffer : List UInt8}

theorem ofBlock_length (block : Block) : (InodeDisk.ofBlock block).length < 2147483648 := by
  unfold InodeDisk.ofBlock InodeDisk.ofWords
  dsimp only
  unfold toSigned
  exact (offsetT_range _).2

theorem enduring : Enduring (· < 2147483648) NonNegative where
  disk _ _ holds := ⟨holds.positions, holds.lengths⟩
  freeMap _ _ _ holds := ⟨holds.positions, holds.lengths⟩
  dirs _ _ _ _ holds := ⟨holds.positions, holds.lengths⟩
  data fs addr data holds fits := by
    refine ⟨holds.positions, ?_⟩
    intro entry member
    obtain ⟨before, there, rfl⟩ := List.mem_map.mp member
    split
    · exact fits
    · exact holds.lengths before there
  opened fs addr inode holds found := holds.lengths (addr, inode) (mem_of_inode? found)
  wraps value := (offsetT_range value).2
  loaded fs addr inode holds fits := by
    refine ⟨holds.positions, ?_⟩
    intro entry member
    rcases List.mem_cons.mp member with rfl | there
    · exact fits
    · exact holds.lengths entry there
  stored := ofBlock_length
  closed fs addr holds := ⟨holds.positions, fun entry member => holds.lengths entry (List.mem_filter.mp member).1⟩
  header fs addr change same holds := by
    refine ⟨holds.positions, ?_⟩
    intro entry member
    obtain ⟨before, there, rfl⟩ := List.mem_map.mp member
    split
    · dsimp only
      rw [same]
      exact holds.lengths before there
    · exact holds.lengths before there

section Loops

private theorem chunk_bounds (size inodeLeft sectorOfs : Int) :
    let minLeft := if inodeLeft < 512 - sectorOfs then inodeLeft else 512 - sectorOfs
    let chunkSize := if size < minLeft then size else minLeft
    chunkSize ≤ size ∧ chunkSize ≤ inodeLeft ∧ (0 < size → 0 < inodeLeft → sectorOfs < 512 → 0 < chunkSize) := by
  dsimp only
  omega

theorem readLoop_inside (data : InodeDisk) (fuel : Nat) (size offset : Int) :
    Preserves (fun _ => True) (readLoop data fuel size offset) fun bytes => bytes = [] ∨ offset + bytes.length ≤ data.length := by
  induction fuel generalizing size offset with
  | zero => exact .ite (fun _ => .fault) fun _ => .pure (.inl rfl)
  | succ fuel ih =>
    unfold readLoop
    apply Preserves.ite (fun _ => ?_) fun _ => .pure (.inl rfl)
    apply Preserves.any.next
    intro sector
    extract_lets sectorOfs inodeLeft sectorLeft minLeft chunkSize
    have inside : chunkSize ≤ data.length - offset := (chunk_bounds size inodeLeft sectorOfs).2.1
    apply Preserves.ite (fun _ => .pure (.inl rfl))
    intro positive
    apply Preserves.any.next
    intro bounce
    apply (ih _ _).bind
    intro rest remains
    apply Preserves.pure
    right
    have short : ((if sectorOfs = 0 ∧ chunkSize = 512 then bounce.toList
        else memcpyOut bounce sectorOfs.toNat chunkSize.toNat).length : Int) ≤ chunkSize := by
      split
      next whole =>
        rw [Vector.length_toList]
        omega
      next =>
        rw [memcpyOut, List.length_take]
        omega
    rw [List.length_append]
    rcases remains with rfl | remains
    · rw [List.length_nil]
      omega
    · omega

/-- Writing inside the file writes everything, and no write goes past its end. -/
theorem writeLoop_counts (data : InodeDisk) (fuel : Nat) (buffer : List UInt8) (offset : Int) (nonneg : 0 ≤ offset) :
    Preserves (fun _ => True) (writeLoop data fuel buffer offset) fun written =>
      0 ≤ written ∧ (0 < written → offset + written ≤ data.length) ∧
        (offset + buffer.length ≤ data.length → written = buffer.length) := by
  induction fuel generalizing buffer offset with
  | zero =>
    apply Preserves.ite
    · exact fun _ => .fault
    · intro empty
      exact .pure ⟨by omega, by omega, by omega⟩
  | succ fuel ih =>
    unfold writeLoop
    apply Preserves.ite
    · intro some
      apply Preserves.any.next
      intro sector
      have within : offset.tmod 512 < 512 := Int.tmod_lt_of_pos _ (by decide)
      extract_lets sectorOfs inodeLeft sectorLeft minLeft chunkSize chunk rest write
      have bounds : chunkSize ≤ buffer.length ∧ chunkSize ≤ data.length - offset ∧
          (0 < (buffer.length : Int) → 0 < data.length - offset → offset.tmod 512 < 512 → 0 < chunkSize) :=
        chunk_bounds buffer.length inodeLeft sectorOfs
      obtain ⟨most, inside, moves⟩ := bounds
      apply Preserves.ite
      · intro stuck
        exact .pure ⟨by omega, by omega, fun _ => by omega⟩
      intro positive
      have rests (value : PUnit) : Preserves (fun _ => True) (rest value) fun written =>
          0 ≤ written ∧ (0 < written → offset + written ≤ data.length) ∧
            (offset + buffer.length ≤ data.length → written = buffer.length) := by
        apply (ih _ (offset + chunkSize) (by omega)).bind
        intro rest counts
        rw [List.length_drop] at counts
        apply Preserves.pure
        omega
      have writes (bounce : Block) : Preserves (fun _ => True) (write bounce) _ := Preserves.any.next rests
      apply Preserves.ite
      · exact fun _ => Preserves.any.next rests
      · exact fun _ => .ite (fun _ => Preserves.any.next writes) fun _ => writes zeros
    · intro empty
      exact .pure ⟨by omega, by omega, by omega⟩

end Loops

section Files

theorem inodeReadAt_inside (addr : Addr) (size offset : Int) :
    Preserves NonNegative (inodeReadAt addr size offset) fun bytes => bytes = [] ∨ offset + bytes.length < 2147483648 := by
  apply (enduring.getInode addr).bind
  intro inode fits
  apply ((enduring.readLoop inode.data _ size offset).also (readLoop_inside inode.data _ size offset)).mono
  intro bytes inside
  rcases inside.2 with none | inside
  · exact .inl none
  · right
    omega

theorem offsetT_inRange {value : Int} (range : InRange value) : offsetT value = value :=
  offsetT_eq (by have := range.1; omega) range.2

/-- Reading moves the position forward, to the end of the file at most. -/
theorem fileRead_keeps (range : InRange file.pos) (size : Int) :
    Preserves NonNegative (fileRead file size) fun result => InRange result.2.pos := by
  apply (inodeReadAt_inside file.inode size file.pos).bind
  intro bytes inside
  apply Preserves.pure
  have moved : InRange (file.pos + bytes.length) := by
    obtain ⟨low, high⟩ := range
    rcases inside with rfl | inside
    · rw [List.length_nil]
      exact ⟨by omega, by omega⟩
    · exact ⟨by omega, inside⟩
  dsimp only
  rw [offsetT_inRange moved]
  exact moved

theorem byteToSector_same {data : InodeDisk} {pos : Int} {sector : Sector}
    (ran : byteToSector data pos fs = some (sector, fs')) : fs' = fs := by
  have reads (sector : Sector) : Stays (fun current => current = fs) (bufferCacheRead sector) := by
    intro current block after same ran
    exact ⟨(bufferCacheRead_same ran).trans same, trivial⟩
  exact (Stable.byteToSector_of reads data pos fs sector fs' rfl ran).1

theorem inodeWriteAt_counts {offset written : Int} (holds : NonNegative fs) (nonneg : 0 ≤ offset)
    (ran : inodeWriteAt addr buffer offset fs = some (written, fs')) :
    NonNegative fs' ∧ 0 ≤ written ∧ (0 < written → offset + written < 2147483648) ∧
      (Room fs addr offset buffer.length → written = buffer.length) := by
  refine ⟨(enduring.inodeWriteAt addr buffer offset fs written fs' holds ran).1, ?_⟩
  obtain ⟨inode, fs₁, got, ran⟩ := bind_some ran
  obtain ⟨inode', found, done⟩ := Option.map_eq_some_iff.mp got
  cases done
  have length : inode.data.length < 2147483648 := enduring.opened fs addr inode holds found
  split at ran
  next denied =>
    cases ran
    refine ⟨Int.le_refl 0, fun positive => by omega, fun room => ?_⟩
    exact absurd (room.2 inode found).1 denied
  next =>
    obtain ⟨last, fs₁, looked, ran⟩ := bind_some ran
    cases byteToSector_same looked
    have counts (data : InodeDisk) (bound : data.length < 2147483648) (fits : Room fs addr offset buffer.length →
          offset + buffer.length ≤ data.length) {before : FileSystem}
        (ran : writeLoop data buffer.length buffer offset before = some (written, fs')) :
        0 ≤ written ∧ (0 < written → offset + written < 2147483648) ∧
          (Room fs addr offset buffer.length → written = buffer.length) := by
      obtain ⟨_, least, most, whole⟩ := writeLoop_counts data _ buffer offset nonneg before written fs' trivial ran
      refine ⟨least, fun positive => ?_, fun room => whole (fits room)⟩
      have := most positive
      omega
    have ends (room : Room fs addr offset buffer.length) : offsetT (offset + buffer.length) = offset + buffer.length ∧
        offsetT (offset + buffer.length - 1) = offset + buffer.length - 1 := by
      have bound := room.1
      exact ⟨offsetT_eq (by omega) (by omega), offsetT_eq (by omega) (by omega)⟩
    split at ran
    next missing =>
      obtain ⟨⟨success, data⟩, fs₂, reserved, ran⟩ := bind_some ran
      dsimp only at ran
      split at ran
      next =>
        obtain ⟨_, fs₃, _, ran⟩ := bind_some ran
        obtain ⟨_, fs₄, _, ran⟩ := bind_some ran
        apply counts _ (offsetT_range _).2 _ ran
        intro room
        exact Int.le_of_eq (ends room).1.symm
      next failed =>
        obtain ⟨_, fs₃, _, ran⟩ := bind_some ran
        cases ran
        refine ⟨Int.le_refl 0, fun positive => by omega, fun room => ?_⟩
        obtain ⟨whole, last'⟩ := ends room
        rw [last'] at looked
        rw [whole] at reserved
        rcases (room.2 inode found).2 with ⟨sector, looked', known⟩ | ⟨data', fs', reserved'⟩
        · cases looked.symm.trans looked'
          exact absurd missing known
        · cases reserved.symm.trans reserved'
          exact absurd rfl failed
    next known =>
      apply counts _ length _ ran
      intro room
      rw [(ends room).2] at looked
      apply Int.le_of_sub_one_lt
      apply Int.not_le.mp
      intro outside
      cases (byteToSector_outside (.inr outside)).symm.trans looked
      exact known rfl

theorem fileWrite_keeps {written : Int} {file' : File} (holds : NonNegative fs) (range : InRange file.pos)
    (safe : SafeAt fs file buffer.length) (ran : fileWrite file buffer fs = some ((written, file'), fs')) :
    NonNegative fs' ∧ InRange file'.pos := by
  obtain ⟨_, fs₁, wrote, done⟩ := bind_some ran
  cases done
  obtain ⟨kept, least, most, whole⟩ := inodeWriteAt_counts holds range.1 wrote
  rw [List.length_set] at whole
  refine ⟨kept, ?_⟩
  have moved : InRange (file.pos + (written - 2)) := by
    obtain ⟨low, high⟩ := range
    have enough : 2 ≤ file.pos + written := by
      rcases safe with far | ⟨ends, room⟩
      · omega
      · rw [whole room]
        exact ends
    refine ⟨by omega, ?_⟩
    rcases Int.lt_or_le 0 written with some | none
    · have := most some
      omega
    · omega
  dsimp only
  rw [offsetT_inRange moved]
  exact moved

end Files

section Table

theorem getFileByFname_keeps (fname : CString) :
    Preserves NonNegative (getFileByFname fname) fun found => ∀ file, found = some file → InRange file.pos := by
  intro fs found fs' holds ran
  cases ran
  refine ⟨holds, ?_⟩
  intro file found
  exact holds.positions (fname, file) ((lookup_perm found).mem_iff.mpr List.mem_cons_self)

theorem addToFileTable_keeps (range : InRange file.pos) (fname : CString) : Stays NonNegative (addToFileTable file fname) := by
  apply (getFileByFname_keeps fname).stays.next
  intro found
  split
  · exact .done
  · apply Preserves.modify
    intro fs holds
    refine ⟨?_, holds.lengths⟩
    intro entry member
    rcases List.mem_append.mp member with there | new
    · exact holds.positions entry there
    · rw [List.mem_singleton.mp new]
      exact range

theorem removeFromFileTable_keeps (fname : CString) : Stays NonNegative (removeFromFileTable fname) := by
  apply (getFileByFname_keeps fname).stays.next
  intro found
  split
  · exact .done
  · apply (enduring.fileClose _).next
    intro _
    apply Preserves.next _ fun _ => .done
    apply Preserves.modify
    intro fs holds
    exact ⟨fun entry member => holds.positions entry (List.mem_of_mem_eraseP member), holds.lengths⟩

theorem storeFile_keeps (range : InRange file.pos) (fname : CString) : Stays NonNegative (storeFile fname file) := by
  apply Preserves.modify
  intro fs holds
  refine ⟨?_, holds.lengths⟩
  intro entry member
  obtain ⟨before, there, rfl⟩ := List.mem_map.mp member
  split
  · exact range
  · exact holds.positions before there

theorem zero_inRange : InRange 0 := ⟨Int.le_refl 0, by decide⟩

theorem openByFname_keeps (fname : CString) :
    Preserves NonNegative (openByFname fname) fun found => ∀ file, found = some file → InRange file.pos := by
  apply (getFileByFname_keeps fname).bind
  intro listed range
  cases listed with
  | some file => exact .pure range
  | none =>
    apply (enduring.filesysOpen fname).bind
    intro opened fresh
    cases opened with
    | none => exact .pure nofun
    | some file =>
      have start : InRange file.pos := by
        rw [fresh file rfl]
        exact zero_inRange
      apply (addToFileTable_keeps start fname).next
      intro _
      apply Preserves.pure
      intro found same
      cases same
      exact start

end Table

section Commands

theorem fsutilRm_keeps (fname : CString) : Stays NonNegative (fsutilRm fname) := by
  apply (removeFromFileTable_keeps fname).next
  intro _
  exact (enduring.filesysRemove fname).next fun _ => .done

theorem fsutilCreate_keeps (fname : CString) (isize : Nat) : Stays NonNegative (fsutilCreate fname isize) := by
  apply Preserves.ite
  · exact fun _ => .done
  · exact fun _ => (enduring.filesysCreate _ _).next fun _ => .done

theorem fsutilRead_keeps (fname : CString) (size : Nat) : Stays NonNegative (fsutilRead fname size) := by
  apply (openByFname_keeps fname).bind
  intro found range
  cases found with
  | none => exact .done
  | some file =>
    apply (fileRead_keeps (range file rfl) _).bind
    intro (bytes, moved) range
    exact (storeFile_keeps range fname).next fun _ => .done

theorem fsutilSize_keeps (fname : CString) : Stays NonNegative (fsutilSize fname) := by
  apply (openByFname_keeps fname).stays.next
  intro found
  cases found with
  | none => exact .done
  | some file => exact (enduring.getInode _).stays.next fun _ => .done

theorem fsutilSeek_keeps (fname : CString) {offset : Int} (range : InRange offset) : Stays NonNegative (fsutilSeek fname offset) := by
  apply (openByFname_keeps fname).stays.next
  intro found
  cases found with
  | none => exact .done
  | some file => exact (storeFile_keeps range fname).next fun _ => .done

theorem fsutilWrite_keeps {written : Int} (holds : NonNegative fs) (safe : SafeWrite fname buffer.length fs)
    (ran : fsutilWrite fname buffer fs = some (written, fs')) : NonNegative fs' := by
  obtain ⟨found, fs₁, opened, ran⟩ := bind_some ran
  obtain ⟨kept, range⟩ := openByFname_keeps fname fs found fs₁ holds opened
  cases found with
  | none =>
    cases ran
    exact kept
  | some file =>
    obtain ⟨⟨count, moved⟩, fs₂, wrote, ran⟩ := bind_some ran
    obtain ⟨kept, range⟩ := fileWrite_keeps kept (range file rfl) (safe file fs₁ opened) wrote
    obtain ⟨_, fs₃, stored, done⟩ := bind_some ran
    cases done
    exact (storeFile_keeps range fname fs₂ _ fs' kept stored).1

theorem copyOut_keeps (fname : CString) (writable : Bool) : Stays NonNegative (copyOut fname writable) := by
  apply (enduring.filesysOpen fname).bind
  intro f fresh
  apply (fsutilSize_keeps fname).next
  intro size
  have back : InRange (f.elim 0 (·.pos)) := by
    cases f with
    | none => exact zero_inRange
    | some file =>
      rw [fresh file rfl]
      exact zero_inRange
  apply (fsutilSeek_keeps fname zero_inRange).next
  intro _
  apply (fsutilRead_keeps fname _).next
  intro (_, buffer)
  apply Preserves.ite
  · intro _
    apply Preserves.ite
    · exact fun _ => .fault
    · exact fun _ => (fsutilSeek_keeps fname back).next fun _ => .done
  · exact fun _ => (fsutilSeek_keeps fname back).next fun _ => .done

theorem matchesPattern_keeps (pattern name : CString) : Stays NonNegative (matchesPattern pattern name) := by
  apply (fsutilSize_keeps name).next
  intro size
  apply Preserves.ite
  · exact fun _ => .fault
  intro _
  apply (fsutilRead_keeps name _).next
  intro (_, before)
  apply (fsutilSeek_keeps name zero_inRange).next
  intro _
  exact (fsutilRead_keeps name _).next fun _ => .done

theorem findFile_keeps (pattern : CString) : Stays NonNegative (findFile pattern) := by
  have body (name : CString) : Stays NonNegative (do
      let hit ← matchesPattern pattern name
      pure (name, hit)) := (matchesPattern_keeps pattern name).next fun _ => .done
  exact (enduring.scanRoot body).next fun _ => .done

theorem copyIn_keeps {source : Option (List UInt8)} {result : Int} (holds : NonNegative fs) (safe : SafeCopyIn fname source fs)
    (ran : copyIn fname source fs = some (result, fs')) : NonNegative fs' := by
  cases source with
  | none =>
    cases ran
    exact holds
  | some bytes =>
    obtain ⟨_, fs₁, counted, ran⟩ := bind_some ran
    cases counted
    obtain ⟨res, fs₂, created, ran⟩ := bind_some ran
    have kept := (fsutilCreate_keeps fname _ fs res fs₂ holds created).1
    split at ran
    · cases ran
      exact kept
    next made =>
      obtain ⟨_, fs₃, wrote, done⟩ := bind_some ran
      cases done
      obtain rfl := Decidable.not_not.mp made
      exact fsutilWrite_keeps kept (safe bytes rfl fs₂ created) wrote

end Commands

section Defragment

theorem countFiles_keeps (dir : Addr) (fuel : Nat) : Stays NonNegative (countFiles dir fuel) := by
  induction fuel with
  | zero => exact .fault
  | succ fuel ih =>
    apply (enduring.dirReaddir dir).next
    intro found
    cases found with
    | none => exact .done
    | some _ => exact ih.next fun _ => .done

theorem collectFiles_keeps (dir : Addr) (left : Nat) : Stays NonNegative (collectFiles dir left) := by
  induction left with
  | zero => exact (enduring.dirReaddir dir).next fun _ => .done
  | succ left ih =>
    apply (enduring.dirReaddir dir).next
    intro found
    cases found with
    | none => exact .done
    | some fname =>
      apply (fsutilSize_keeps fname).next
      intro size
      apply (enduring.filesysOpen fname).stays.next
      intro opened
      cases opened with
      | none => exact .fault
      | some file =>
        apply (fileRead_keeps zero_inRange size).stays.next
        intro (content, _)
        apply Preserves.ite
        · exact fun _ => .fault
        · exact fun _ => ih.next fun _ => .done

theorem removeFiles_keeps (files : List NewFile) : Stays NonNegative (removeFiles files) := by
  induction files with
  | nil => exact .done
  | cons file rest ih => exact (fsutilRm_keeps file.name).next fun _ => ih

theorem emptied_keeps : Stays NonNegative emptied := by
  apply enduring.dirOpenRoot.next
  intro dir
  apply (Enduring.getDir dir).next
  intro d
  apply (enduring.entriesOf _).next
  intro fuel
  apply (countFiles_keeps dir fuel).next
  intro nFiles
  apply (enduring.dirClose dir).next
  intro _
  apply Preserves.ite
  · exact fun _ => .done
  intro _
  apply enduring.dirOpenRoot.next
  intro dir
  apply (collectFiles_keeps dir nFiles).next
  intro files
  apply (enduring.dirClose dir).next
  intro _
  exact (removeFiles_keeps files).next fun _ => .done

/-- `defragment` writes the files again that it has removed. -/
theorem defragment_parts {result : Int} (ran : defragment fs = some (result, fs')) :
    ∃ files middle value, emptied fs = some (files, middle) ∧ rewriteFiles files middle = some (value, fs') := by
  obtain ⟨dir, fs₁, opened, ran⟩ := bind_some ran
  obtain ⟨d, fs₂, got, ran⟩ := bind_some ran
  obtain ⟨fuel, fs₃, entries, ran⟩ := bind_some ran
  obtain ⟨nFiles, fs₄, counted, ran⟩ := bind_some ran
  obtain ⟨_, fs₅, closed, ran⟩ := bind_some ran
  unfold emptied
  rw [run_bind opened, run_bind got, run_bind entries, run_bind counted, run_bind closed]
  split at ran
  next none =>
    cases ran
    rw [if_pos none]
    exact ⟨[], fs', ⟨⟩, rfl, rfl⟩
  next some =>
    rw [if_neg some]
    obtain ⟨dir, fs₆, opened, ran⟩ := bind_some ran
    obtain ⟨files, fs₇, collected, ran⟩ := bind_some ran
    obtain ⟨_, fs₈, closed, ran⟩ := bind_some ran
    obtain ⟨_, fs₉, removed, ran⟩ := bind_some ran
    obtain ⟨value, fs₁₀, rewritten, done⟩ := bind_some ran
    cases done
    rw [run_bind opened, run_bind collected, run_bind closed, run_bind removed]
    exact ⟨files, fs₉, value, rfl, rewritten⟩

theorem rewriteFiles_keeps {value : PUnit} (files : List NewFile) (fs : FileSystem) (holds : NonNegative fs)
    (safe : SafeRewrites files fs) (ran : rewriteFiles files fs = some (value, fs')) : NonNegative fs' := by
  induction files generalizing fs with
  | nil =>
    cases ran
    exact holds
  | cons file rest ih =>
    obtain ⟨created, fs₁, made, ran⟩ := bind_some ran
    obtain ⟨written, fs₂, wrote, ran⟩ := bind_some ran
    obtain ⟨safeWrite, safeRest⟩ := safe created fs₁ made
    have kept := (fsutilCreate_keeps file.name _ fs created fs₁ holds made).1
    exact ih fs₂ (fsutilWrite_keeps kept safeWrite wrote) (safeRest written fs₂ wrote) ran

end Defragment

section Runs

theorem safe_keeps {shell : Shell} (holds : NonNegative fs) (safe : Safe fs shell) (ran : shell.run fs = some (⟨⟩, fs')) :
    NonNegative fs' := by
  cases shell with
  | file command =>
    obtain ⟨reply, ran⟩ := run_unit ran
    cases command with
    | create name isize =>
      obtain ⟨result, fs₁, ran, done⟩ := bind_some ran
      cases done
      exact (fsutilCreate_keeps name isize fs result fs' holds ran).1
    | write name buffer =>
      obtain ⟨result, fs₁, ran, done⟩ := bind_some ran
      cases done
      exact fsutilWrite_keeps holds safe.2 ran
    | read name count => exact (fsutilRead_keeps name count fs reply fs' holds ran).1
    | seek name offset =>
      obtain ⟨result, fs₁, ran, done⟩ := bind_some ran
      cases done
      exact (fsutilSeek_keeps name safe fs result fs' holds ran).1
    | size name =>
      obtain ⟨result, fs₁, ran, done⟩ := bind_some ran
      cases done
      exact (fsutilSize_keeps name fs result fs' holds ran).1
    | rm name =>
      obtain ⟨result, fs₁, ran, done⟩ := bind_some ran
      cases done
      exact (fsutilRm_keeps name fs result fs' holds ran).1
  | ls => exact safe.elim
  | copyIn name source =>
    obtain ⟨result, ran⟩ := run_unit ran
    exact copyIn_keeps holds safe ran
  | copyOut name writable =>
    obtain ⟨result, ran⟩ := run_unit ran
    exact (copyOut_keeps name writable fs result fs' holds ran).1
  | findFile pattern =>
    obtain ⟨result, ran⟩ := run_unit ran
    exact (findFile_keeps pattern fs result fs' holds ran).1
  | fragmentationDegree => exact safe.elim
  | defragment =>
    obtain ⟨result, ran⟩ := run_unit ran
    obtain ⟨files, middle, value, collected, rewritten⟩ := defragment_parts ran
    have kept := (emptied_keeps fs files middle holds collected).1
    exact rewriteFiles_keeps files middle kept (safe files middle collected) rewritten
  | recover flag => exact safe.elim

theorem formatted_nonNegative {size : Nat} (formatted : Formatted fs size) : NonNegative fs := by
  have blocks := formatted.volume.objects.blocks
  constructor
  · rw [formatted.fileTable]
    nofun
  · intro entry member
    have limit := (blocks.sound entry.2.sector (blocks.opens entry member)).limit
    rw [blocks.handles.curData member] at limit
    omega

/-- In a run of safe commands no position is ever negative, and no command reads or writes a file at a negative one. -/
theorem positions_nonnegative {device : Array Block} {bounded : device.size < 2 ^ 32}
    (reached : ShellReached Safe device bounded fs) : (∀ entry ∈ fs.fileTable, 0 ≤ entry.2.pos) ∧
      ∀ fname file fs', openByFname fname fs = some (some file, fs') → 0 ≤ file.pos := by
  have holds : NonNegative fs := by
    induction reached with
    | formatted ran => exact formatted_nonNegative (filesysInit_formatted bounded ran)
    | step before may ran ih => exact safe_keeps ih may ran
  constructor
  · intro entry member
    exact (holds.positions entry member).1
  · intro fname file fs' opened
    exact ((openByFname_keeps fname fs (some file) fs' holds opened).2 file rfl).1

private theorem file_run {command : Command} {reply : Reply} (ran : command.run fs = some (reply, fs')) :
    (Shell.file command).run fs = some (⟨⟩, fs') := run_bind ran _

/-- A file of five bytes is written to from its third byte on. -/
theorem positions_nonnegative_small : ∃ fs, ShellReached Safe smallDevice smallDevice_size fs ∧ posOf fs [97] = 3 ∧
    (∀ entry ∈ fs.fileTable, 0 ≤ entry.2.pos) ∧
      ∀ fname file fs', openByFname fname fs = some (some file, fs') → 0 ≤ file.pos := by
  have needed : wanted (5 : Nat) < 325 := by
    rw [wanted_eq (by decide), sectorsNeeded_eq (by decide)]
    decide
  obtain ⟨start, created, sector, ran, _, _, made, done, running₁, _⟩ := smallDevice_create (show 5 ≤ 8517120 by decide) needed
  have named₁ : Named created [97] sector := (done.named [97] sector).mpr (.inr ⟨rfl, rfl⟩)
  have notRoot := (running₁.volume.root.plain [97] sector named₁).2.2.2
  obtain ⟨result, sought, seeking, looked, ⟨_, absent, _⟩ | ⟨_, _, pos⟩⟩ :=
    fsutilSeek_wp running₁ plain_a (show -2147483648 ≤ (2 : Int) by decide) (by decide)
  · exact absurd named₁ (absent sector)
  have named : Named sought [97] sector := looked.named ▸ named₁
  have length : (curData sought sector).length = 5 := by
    rw [looked.data sector notRoot, done.fresh.length]
    rfl
  let buffer : List UInt8 := [98, 99, 0]
  have small : buffer.length = 3 := rfl
  obtain ⟨written, fs, wrote, ⟨_, absent, _⟩ | ⟨sector', ok, fits, counted, outcome, moved⟩⟩ :=
    fsutilWrite_wp looked.running plain_a (show 0 < buffer.length by decide) (by omega) (by omega)
  · exact absurd named (absent sector)
  obtain rfl := looked.running.volume.root.functional named outcome.named
  have room : ok = true := by
    rw [fits, pos, small]
    exact fits_inside (looked.running.volume.objects.blocks.readable named.live) (by rw [length]; decide)
  rw [if_pos room, small] at counted
  have safe : SafeWrite [97] buffer.length sought := by
    intro file opened found
    obtain ⟨_, _, present⟩ := (openByFname_wp looked.running plain_a).result found
    have third : file.pos = 2 := (present file rfl).2.trans pos
    exact .inl (by omega)
  have reached : ShellReached Safe smallDevice smallDevice_size fs := by
    apply ShellReached.step _ (show Safe sought (.file (.write [97] buffer)) from ⟨by decide, safe⟩)
    · exact file_run (run_bind wrote _)
    apply ShellReached.step _ (show Safe created (.file (.seek [97] 2)) from ⟨by decide, by decide⟩)
    · exact file_run (run_bind seeking _)
    apply ShellReached.step (.formatted ran) (show Safe start (.file (.create [97] 5)) from trivial)
    exact file_run (run_bind made _)
  refine ⟨fs, reached, ?_, positions_nonnegative reached⟩
  rw [moved, pos, counted]
  decide

/-- A single byte is written at the start of a file, and its position is -1. -/
theorem position_negative : ∃ start created fs file, filesysInit smallDevice smallDevice_size true = some start ∧
    fsutilCreate [97] 5 start = some (1, created) ∧ fsutilWrite [97] [98] created = some (1, fs) ∧
    ([97], file) ∈ fs.fileTable ∧ file.pos = -1 := by
  have needed : wanted (5 : Nat) < 325 := by
    rw [wanted_eq (by decide), sectorsNeeded_eq (by decide)]
    decide
  obtain ⟨start, created, sector, ran, _, _, made, done, running, empty⟩ := smallDevice_create (show 5 ≤ 8517120 by decide) needed
  have named : Named created [97] sector := (done.named [97] sector).mpr (.inr ⟨rfl, rfl⟩)
  have pos : posOf created [97] = 0 := by
    rw [posOf, empty]
    rfl
  let buffer : List UInt8 := [98]
  have small : buffer.length = 1 := rfl
  obtain ⟨written, fs, wrote, ⟨_, absent, _⟩ | ⟨sector', ok, fits, counted, outcome, moved⟩⟩ :=
    fsutilWrite_wp running plain_a (show 0 < buffer.length by decide) (by omega) (by omega)
  · exact absurd named (absent sector)
  obtain rfl := running.volume.root.functional named outcome.named
  have room : ok = true := by
    rw [fits, pos, small]
    exact fits_inside (running.volume.objects.blocks.readable named.live) (by rw [done.fresh.length]; decide)
  rw [if_pos room, small] at counted
  obtain rfl := counted
  rw [pos] at moved
  cases found : fs.fileTable.lookup [97] with
  | none =>
    rw [posOf, found] at moved
    exact absurd moved (by decide)
  | some file =>
    rw [posOf, found] at moved
    refine ⟨start, created, fs, file, ran, made, wrote, (lookup_perm found).mem_iff.mpr List.mem_cons_self, ?_⟩
    exact moved.trans (by decide)

end Runs

end Comp310.Proofs.FilePositions
