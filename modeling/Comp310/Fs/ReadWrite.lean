import Comp310.Fs.Frame

/-! The loops of `inode_read_at` and `inode_write_at` on a file whose block map
is in order: chunk by chunk they copy exactly the bytes asked for. -/

namespace Comp310.Fs
open Comp310.Lib

/-- Bytes `start` to `start + count - 1` of a file. -/
def fileRange (v : View) (data : InodeDisk) (start count : Nat) : List UInt8 :=
  (List.range count).map fun i => fileByte v data (start + i)

/-- The block map reaches every byte of the file, and stays on the device. -/
structure Readable (fs : FileSystem) (data : InodeDisk) : Prop where
  nonneg : 0 ≤ data.length
  limit : data.length ≤ 8517120
  inRange : ∀ p, blockAt fs.disk.view data p ≠ 0 → (blockAt fs.disk.view data p).toNat < fs.disk.size
  mapped : ∀ p : InodePos, (p.first * 512 : Nat) < data.length → blockAt fs.disk.view data p ≠ 0

variable {fs : FileSystem} {data : InodeDisk} {v : View}

@[simp] theorem fileRange_length (start count : Nat) : (fileRange v data start count).length = count := by
  simp [fileRange]

theorem fileRange_getD {start count i : Nat} (below : i < count) :
    (fileRange v data start count).getD i 0 = fileByte v data (start + i) := by
  rw [fileRange, List.getD_eq_getElem?_getD, List.getElem?_map, List.getElem?_range below]
  rfl

theorem fileRange_append (start first second : Nat) :
    fileRange v data start (first + second) =
      fileRange v data start first ++ fileRange v data (start + first) second := by
  simp only [fileRange, List.range_add, List.map_append, List.map_map, Function.comp_def, Nat.add_assoc]

theorem copyOut_eq {start count : Nat} (allocated : blockAt v data (.data (start / 512)) ≠ 0)
    (within : start % 512 + count ≤ 512) :
    memcpyOut (v (blockAt v data (.data (start / 512)))) (start % 512) count = fileRange v data start count := by
  apply List.ext_getElem
  · simp only [memcpyOut, List.length_take, List.length_drop, Vector.length_toList, fileRange_length]
    omega
  · intro i inside inside'
    rw [fileRange_length] at inside'
    have sector : (start + i) / 512 = start / 512 := by omega
    have place : (start + i) % 512 = start % 512 + i := by omega
    have bound : start % 512 + i < 512 := by omega
    simp [memcpyOut, fileRange, fileByte, sector, place, allocated, byteAt, bound]

theorem copyOut_all (block : Block) : memcpyOut block 0 512 = block.toList := by
  simp only [memcpyOut, List.drop_zero]
  exact List.take_of_length_le (by simp)

private theorem ofs_eq (start : Nat) : (start : Int).tmod 512 = ((start % 512 : Nat) : Int) := Int.ofNat_tmod start 512

theorem byteToSector_eq (readable : Readable fs data) {start : Nat} (inside : (start : Int) < data.length) :
    byteToSector data start fs = some (blockAt fs.disk.view data (.data (start / 512)), fs) ∧
      blockAt fs.disk.view data (.data (start / 512)) ≠ 0 := by
  have limit := readable.limit
  have index : ((start : Int) / 512).toNat = start / 512 := by omega
  have small : start / 512 < 16635 := by omega
  have allocated := readable.mapped (.data (start / 512)) (by rw [data_first small]; omega)
  unfold byteToSector
  rw [if_pos ⟨by omega, inside⟩, index]
  exact ⟨indexToSector_eq small (fun p _ present => readable.inRange p present) allocated, allocated⟩

theorem byteToSector_outside {pos : Int} (outside : pos < 0 ∨ data.length ≤ pos) :
    byteToSector data pos fs = some (noSector, fs) := by
  unfold byteToSector
  rw [if_neg (by omega)]
  rfl

/-- The bytes that one round moves: no more than asked for, than the file has
left and than the sector has left. -/
def chunk (size left start : Nat) : Nat := min size (min left (512 - start % 512))

private theorem chunk_eq {length : Int} {size start left : Nat} (rest : length - start = left) :
    (if (size : Int) < (if length - start < 512 - ((start % 512 : Nat) : Int) then length - start
        else 512 - ((start % 512 : Nat) : Int)) then (size : Int)
      else if length - start < 512 - ((start % 512 : Nat) : Int) then length - start
        else 512 - ((start % 512 : Nat) : Int)) = (chunk size left start : Int) := by
  unfold chunk
  rw [rest]
  split <;> split <;> omega

theorem readLoop_eq (readable : Readable fs data) (fuel size start : Nat) (enough : size ≤ fuel) :
    readLoop data fuel size start fs =
      some (fileRange fs.disk.view data start (min size (data.length.toNat - start)), fs) := by
  have nonneg := readable.nonneg
  induction fuel generalizing size start with
  | zero =>
    obtain rfl : size = 0 := by omega
    simp only [readLoop, Nat.zero_min]
    rfl
  | succ fuel ih =>
    rw [readLoop]
    rcases Nat.eq_zero_or_pos size with rfl | positive
    · rw [if_neg (by omega), Nat.zero_min]
      rfl
    rw [if_pos (by omega)]
    rcases Nat.lt_or_ge start data.length.toNat with inside | outside
    · obtain ⟨found, allocated⟩ := byteToSector_eq readable (show (start : Int) < data.length by omega)
      have rest : data.length - start = ((data.length.toNat - start : Nat) : Int) := by omega
      have some_left : 0 < chunk size (data.length.toNat - start) start := by unfold chunk; omega
      have within : start % 512 + chunk size (data.length.toNat - start) start ≤ 512 := by unfold chunk; omega
      have bounded : chunk size (data.length.toNat - start) start ≤ min size (data.length.toNat - start) := by
        unfold chunk
        omega
      rw [run_bind found]
      simp only [ofs_eq, chunk_eq rest]
      generalize chunk size (data.length.toNat - start) start = count at some_left within bounded ⊢
      have copied : (if ((start % 512 : Nat) : Int) = 0 ∧ (count : Int) = 512
          then (fs.disk.view (blockAt fs.disk.view data (.data (start / 512)))).toList
          else memcpyOut (fs.disk.view (blockAt fs.disk.view data (.data (start / 512)))) (start % 512) count) =
            fileRange fs.disk.view data start count := by
        rw [← copyOut_eq allocated within]
        split
        next full =>
          obtain ⟨aligned, whole⟩ := full
          rw [Int.ofNat_eq_zero.mp aligned, Int.ofNat_inj.mp whole, copyOut_all]
        next => rfl
      have next := ih (size - count) (start + count) (by omega)
      rw [Int.natCast_add, Int.natCast_sub (by omega)] at next
      rw [if_neg (by omega), run_bind (bufferCacheRead_eq (readable.inRange _ allocated)), run_bind next]
      simp only [Int.toNat_natCast, copied]
      rw [show min size (data.length.toNat - start) =
        count + min (size - count) (data.length.toNat - (start + count)) by omega, fileRange_append]
      rfl
    · rw [run_bind (byteToSector_outside (Or.inr (by omega)))]
      simp only [ofs_eq]
      rw [if_pos (by split <;> split <;> omega), show data.length.toNat - start = 0 by omega, Nat.min_zero]
      rfl

theorem byteAt_copyInto (block : Block) {ofs index : Nat} (bytes : List UInt8) (inside : index < 512) :
    byteAt (copyInto block ofs bytes) index =
      if ofs ≤ index ∧ index < ofs + bytes.length then bytes.getD (index - ofs) 0 else byteAt block index := by
  have held : block.toList[index]? = some block[index] := by simp [inside]
  simp only [byteAt, List.getD_eq_getElem?_getD, held, copyInto]
  simp only [Vector.toList_ofFn, List.getElem?_ofFn, inside, dif_pos, Option.getD_some]
  by_cases low : ofs ≤ index
  · rw [if_pos low]
    by_cases high : index < ofs + bytes.length
    · have there : index - ofs < bytes.length := by omega
      simp [low, high, there]
    · have past : bytes.length ≤ index - ofs := by omega
      simp [low, high, past]
  · simp [low]

/-- The data sectors of a file that hold its bytes. -/
def DataSector (v : View) (data : InodeDisk) (sector : Sector) : Prop :=
  ∃ index : Nat, (index * 512 : Nat) < data.length ∧ sector = blockAt v data (.data index)

/-- What a write of `buffer` at `start` does to the file with this block map. -/
structure Wrote (fs fs' : FileSystem) (data : InodeDisk) (start : Nat) (buffer : List UInt8) : Prop where
  only : fs' = { fs with disk := fs'.disk }
  touches : Touches (DataSector fs.disk.view data) fs fs'
  map : blockAt fs'.disk.view data = blockAt fs.disk.view data
  bytes : ∀ k < 8517120, fileByte fs'.disk.view data k =
    if start ≤ k ∧ k < start + buffer.length then buffer.getD (k - start) 0 else fileByte fs.disk.view data k

private theorem wrote_one (readable : Readable fs data) (distinct : Distinct (blockAt fs.disk.view data))
    {start : Nat} {buffer : List UInt8} {block : Block} {disk : Disk}
    (inside : (start + buffer.length : Nat) ≤ data.length) (positive : 0 < buffer.length)
    (within : start % 512 + buffer.length ≤ 512)
    (contents : ∀ index < 512, byteAt block index =
      if start % 512 ≤ index ∧ index < start % 512 + buffer.length then buffer.getD (index - start % 512) 0
      else byteAt (fs.disk.view (blockAt fs.disk.view data (.data (start / 512)))) index)
    (view : ∀ other, disk.view other =
      if other = blockAt fs.disk.view data (.data (start / 512)) then block else fs.disk.view other)
    (size : disk.size = fs.disk.size)
    (written : disk.written = blockAt fs.disk.view data (.data (start / 512)) :: fs.disk.written) :
    Wrote fs { fs with disk } data start buffer := by
  have limit := readable.limit
  have small : start / 512 < 16635 := by omega
  have allocated := readable.mapped (.data (start / 512)) (by rw [data_first small]; omega)
  have map : blockAt disk.view data = blockAt fs.disk.view data := by
    funext p
    refine blockAt_congr p fun q inner present => ?_
    rw [view]
    refine if_neg fun same => ?_
    have atData := data_isData (start / 512)
    rw [← distinct q _ present same, inner] at atData
    cases atData
  refine ⟨rfl, .write ⟨start / 512, by omega, rfl⟩ size written view, map, fun k bound => ?_⟩
  unfold fileByte
  simp only [map]
  rcases Decidable.em (k / 512 = start / 512) with same | elsewhere
  · rw [same, if_neg allocated, if_neg allocated, view, if_pos rfl, contents _ (Nat.mod_lt _ (by decide))]
    by_cases covered : start ≤ k ∧ k < start + buffer.length
    · rw [if_pos covered, if_pos (by omega), show k % 512 - start % 512 = k - start by omega]
    · rw [if_neg covered, if_neg (by omega)]
  · rw [if_neg (by omega : ¬ (start ≤ k ∧ k < start + buffer.length))]
    split
    next => rfl
    next present =>
      rw [view, if_neg]
      intro same
      exact elsewhere (data_injective (by omega) small (distinct _ _ present same))

theorem Wrote.readable {fs' : FileSystem} {start : Nat} {buffer : List UInt8}
    (wrote : Wrote fs fs' data start buffer) (readable : Readable fs data) : Readable fs' data := by
  refine ⟨readable.nonneg, readable.limit, ?_, ?_⟩
  · rw [wrote.map, wrote.touches.size]
    exact readable.inRange
  · rw [wrote.map]
    exact readable.mapped

private theorem Wrote.nil {start : Nat} : Wrote fs fs data start [] :=
  ⟨rfl, .refl, rfl, fun k _ => by rw [if_neg (by simp only [List.length_nil]; omega)]⟩

private theorem Wrote.append {middle fs' : FileSystem} {start next : Nat} {first second : List UInt8}
    (early : Wrote fs middle data start first) (late : Wrote middle fs' data next second)
    (seam : next = start + first.length) : Wrote fs fs' data start (first ++ second) := by
  subst seam
  refine ⟨?_, early.touches.trans ?_, late.map.trans early.map, fun k bound => ?_⟩
  · rw [late.only, early.only]
  · refine late.touches.mono fun sector member => ?_
    rwa [DataSector, early.map] at member
  · rw [late.bytes k bound, early.bytes k bound, List.length_append]
    by_cases low : start ≤ k
    · by_cases mid : k < start + first.length
      · have there : k - start < first.length := by omega
        rw [if_neg (by omega), if_pos (by omega), if_pos (by omega)]
        simp only [List.getD_eq_getElem?_getD, List.getElem?_append_left there]
      · have past : first.length ≤ k - start := by omega
        by_cases high : k < start + first.length + second.length
        · rw [if_pos (by omega), if_pos (by omega)]
          simp only [List.getD_eq_getElem?_getD, List.getElem?_append_right past]
          rw [show k - (start + first.length) = k - start - first.length by omega]
        · rw [if_neg (by omega), if_neg (by omega), if_neg (by omega)]
    · rw [if_neg (by omega), if_neg (by omega), if_neg (by omega)]

/-- A write changes exactly the bytes of its range, when the range is allocated. -/
theorem writeLoop_wp (fuel : Nat) (buffer : List UInt8) (start : Nat) (fs : FileSystem) (readable : Readable fs data)
    (distinct : Distinct (blockAt fs.disk.view data)) (enough : buffer.length ≤ fuel)
    (inside : (start + buffer.length : Nat) ≤ data.length) :
    Wp (writeLoop data fuel buffer start)
      (fun written fs' => written = buffer.length ∧ Wrote fs fs' data start buffer) fs := by
  induction fuel generalizing buffer start fs with
  | zero =>
    obtain rfl : buffer = [] := List.eq_nil_of_length_eq_zero (by omega)
    exact Wp.of_eq rfl ⟨rfl, Wrote.nil⟩
  | succ fuel ih =>
    rw [writeLoop]
    rcases Nat.eq_zero_or_pos buffer.length with empty | positive
    · obtain rfl := List.eq_nil_of_length_eq_zero empty
      exact Wp.of_eq rfl ⟨rfl, Wrote.nil⟩
    rw [if_pos positive]
    obtain ⟨found, allocated⟩ := byteToSector_eq readable (show (start : Int) < data.length by omega)
    have rest : data.length - start = ((data.length.toNat - start : Nat) : Int) := by omega
    have some_left : 0 < chunk buffer.length (data.length.toNat - start) start := by unfold chunk; omega
    have within : start % 512 + chunk buffer.length (data.length.toNat - start) start ≤ 512 := by unfold chunk; omega
    have bounded : chunk buffer.length (data.length.toNat - start) start ≤ buffer.length := by unfold chunk; omega
    rw [wp_bind]
    refine Wp.of_eq found ?_
    simp only [ofs_eq, chunk_eq rest]
    generalize chunk buffer.length (data.length.toNat - start) start = count at some_left within bounded ⊢
    rw [if_neg (by omega)]
    have taken : (buffer.take count).length = count := by rw [List.length_take]; omega
    have onDevice := readable.inRange _ allocated
    have finish {block : Block} (contents : ∀ index < 512, byteAt block index =
        if start % 512 ≤ index ∧ index < start % 512 + (buffer.take count).length
        then (buffer.take count).getD (index - start % 512) 0
        else byteAt (fs.disk.view (blockAt fs.disk.view data (.data (start / 512)))) index) :
        Wp (bufferCacheWrite (blockAt fs.disk.view data (.data (start / 512))) block) (fun _ middle =>
          Wp (writeLoop data fuel (buffer.drop count) ((start : Int) + count)) (fun rest fs' =>
            (count : Int) + rest = buffer.length ∧ Wrote fs fs' data start buffer) middle) fs := by
      refine wp_bufferCacheWrite onDevice fun disk view size written => ?_
      have wrote := wrote_one readable distinct (by omega) (by omega) (by omega) contents view size written
      have follows := ih (buffer.drop count) (start + count) { fs with disk } (wrote.readable readable)
        (by rwa [wrote.map]) (by rw [List.length_drop]; omega) (by rw [List.length_drop]; omega)
      rw [Int.natCast_add] at follows
      refine follows.mono fun rest fs' ⟨all, later⟩ => ⟨?_, ?_⟩
      · rw [all, List.length_drop]
        omega
      · have whole := wrote.append later (by rw [taken])
        rwa [List.take_append_drop] at whole
    split
    next full =>
      simp only [wp_bind, wp_pure, Int.toNat_natCast]
      refine finish fun index inside => ?_
      rw [byteAt_copyInto _ _ inside, Int.ofNat_eq_zero.mp full.1, if_pos (by omega), if_pos (by omega)]
    next partly =>
      have read : ((start % 512 : Nat) : Int) > 0 ∨ (count : Int) < 512 - ((start % 512 : Nat) : Int) := by omega
      rw [if_pos read, wp_bind]
      refine Wp.of_eq (bufferCacheRead_eq onDevice) ?_
      simp only [wp_bind, wp_pure, Int.toNat_natCast]
      exact finish fun index inside => byteAt_copyInto _ _ inside

end Comp310.Fs
