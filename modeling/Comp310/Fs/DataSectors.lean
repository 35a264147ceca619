import Comp310.Fs.Reserve

/-! `get_inode_data_sectors` lists the sectors of a file in the order of its bytes. -/

namespace Comp310.Fs
open Comp310.Lib

/-- The data sectors of the indices from `start` on. -/
def sectorsFrom (v : View) (data : InodeDisk) (start count : Nat) : List Sector :=
  (List.range count).map fun i => blockAt v data (.data (start + i))

variable {fs : FileSystem} {v : View} {data : InodeDisk} {start count : Nat}

@[simp] theorem sectorsFrom_length : (sectorsFrom v data start count).length = count := by simp [sectorsFrom]

theorem sectorsFrom_getElem {i : Nat} (inside : i < (sectorsFrom v data start count).length) :
    (sectorsFrom v data start count)[i] = blockAt v data (.data (start + i)) := by simp [sectorsFrom]

theorem sectorsFrom_append (first second : Nat) :
    sectorsFrom v data start (first + second) = sectorsFrom v data start first ++ sectorsFrom v data (start + first) second := by
  simp only [sectorsFrom, List.range_add, List.map_append, List.map_map, Function.comp_def, Nat.add_assoc]

private theorem entries_eq {n : Nat} (blocks : Vector Sector n) (small : count ≤ n)
    (same : ∀ j : Fin n, j.val < count → blocks.get j = blockAt v data (.data (start + j.val))) :
    blocks.toList.take count = sectorsFrom v data start count := by
  apply List.ext_getElem
  · rw [List.length_take, Vector.length_toList, sectorsFrom_length]
    omega
  · intro i inside inside'
    rw [sectorsFrom_length] at inside'
    rw [List.getElem_take, sectorsFrom_getElem]
    exact same ⟨i, by omega⟩ inside'

/-- What is known of a file of `n` sectors while its sectors are listed. -/
private structure Mapped (fs : FileSystem) (data : InodeDisk) (n : Nat) : Prop where
  limit : n ≤ 16635
  inRange : ∀ p, blockAt fs.disk.view data p ≠ 0 → (blockAt fs.disk.view data p).toNat < fs.disk.size
  mapped : ∀ p : InodePos, p.first < n → blockAt fs.disk.view data p ≠ 0

private theorem direct_sectors (v : View) (data : InodeDisk) (small : count ≤ 123) :
    data.directBlocks.toList.take count = sectorsFrom v data 0 count :=
  entries_eq _ small fun j _ => by
    rw [Nat.zero_add, InodePos.data, dif_pos j.isLt]
    rfl

private theorem single_sectors (mapped : Mapped fs data n) (small : count ≤ 128) (inside : 123 + count ≤ n) :
    (blocksOf (fs.disk.view data.indirectBlock)).toList.take count = sectorsFrom fs.disk.view data 123 count :=
  entries_eq _ small fun j before => by
    have place : InodePos.data (123 + j.val) = .single (.leaf 1 j.val) := by
      rw [InodePos.data, dif_neg (by omega), if_pos (by omega), Nat.add_sub_cancel_left]
    have present := mapped.mapped (.single (.leaf 1 j.val)) (by
      rw [InodePos.first, leaf_first 1 (by simp only [capacity]; omega)]
      omega)
    rw [blockAt, treeAt_leaf_one _ _ j.isLt] at present
    rw [place, blockAt, treeAt_leaf_one _ _ j.isLt, (childEntry_present present).2]

private theorem under_sectors (mapped : Mapped fs data n) (i : Fin 128) (small : count ≤ 128) (positive : 0 < count)
    (inside : 251 + 128 * i.val + count ≤ n) :
    bufferCacheRead ((blocksOf (fs.disk.view data.doublyIndirectBlock)).get i) fs =
        some (fs.disk.view ((blocksOf (fs.disk.view data.doublyIndirectBlock)).get i), fs) ∧
      (blocksOf (fs.disk.view ((blocksOf (fs.disk.view data.doublyIndirectBlock)).get i))).toList.take count =
        sectorsFrom fs.disk.view data (251 + 128 * i.val) count := by
  have present : childEntry fs.disk.view data.doublyIndirectBlock i ≠ 0 := mapped.mapped (.double (.child i .here)) (by
    simp only [InodePos.first, TreePos.first, capacity]
    omega)
  have entry := (childEntry_present present).2
  have bound := mapped.inRange (.double (.child i .here)) present
  rw [blockAt, treeAt, treeAt_here, entry] at bound
  refine ⟨bufferCacheRead_eq bound, entries_eq _ small fun j before => ?_⟩
  have slot : (128 * i.val + j.val) / 128 = i.val := by omega
  have rest : (128 * i.val + j.val) % 128 = j.val := by omega
  have place : InodePos.data (251 + 128 * i.val + j.val) = .double (.leaf 2 (128 * i.val + j.val)) := by
    rw [InodePos.data, dif_neg (by omega), if_neg (by omega), Nat.add_assoc, Nat.add_sub_cancel_left]
  have leaf : treeAt fs.disk.view data.doublyIndirectBlock (.leaf 2 (128 * i.val + j.val)) =
      childEntry fs.disk.view (childEntry fs.disk.view data.doublyIndirectBlock i) j := by
    rw [treeAt_leaf_two _ _ (by omega)]
    simp only [slot, rest]
  have there := mapped.mapped (.double (.leaf 2 (128 * i.val + j.val))) (by
    rw [InodePos.first, leaf_first 2 (by simp only [capacity]; omega)]
    omega)
  rw [blockAt, leaf] at there
  rw [place, blockAt, leaf, (childEntry_present there).2, entry]

private theorem dataSectorsUnder_eq (mapped : Mapped fs data n) (left i numSectors : Nat) (rounds : divRoundUp numSectors 128 = left)
    (last : 251 + 128 * i + numSectors ≤ n ∨ numSectors = 0) :
    dataSectorsUnder (blocksOf (fs.disk.view data.doublyIndirectBlock)) i left numSectors fs =
      some (sectorsFrom fs.disk.view data (251 + 128 * i) numSectors, fs) := by
  induction left generalizing i numSectors with
  | zero =>
    have empty : numSectors = 0 := by
      unfold divRoundUp at rounds
      rw [Nat.div_eq_zero_iff] at rounds
      omega
    rw [empty]
    rfl
  | succ left ih =>
    obtain ⟨some_left, rest⟩ := rounds_next (by decide) rounds
    have limit := mapped.limit
    have inside : i < 128 := by
      clear rest ih
      omega
    have fits : 251 + 128 * i + min numSectors 128 ≤ n := by omega
    obtain ⟨read, here⟩ := under_sectors mapped ⟨i, inside⟩ (Nat.min_le_right numSectors 128)
      (Nat.lt_min.2 ⟨some_left, by decide⟩) fits
    have later := ih (i + 1) (numSectors - min numSectors 128) rest (by omega)
    rw [dataSectorsUnder, dif_pos inside]
    rw [run_bind read, run_bind later, here]
    have whole : sectorsFrom fs.disk.view data (251 + 128 * i) numSectors =
        sectorsFrom fs.disk.view data (251 + 128 * i) (min numSectors 128) ++
          sectorsFrom fs.disk.view data (251 + 128 * (i + 1)) (numSectors - min numSectors 128) := by
      rcases Nat.le_total numSectors 128 with small | large
      · rw [Nat.min_eq_left small, Nat.sub_self]
        exact (List.append_nil _).symm
      · rw [Nat.min_eq_right large, show 251 + 128 * (i + 1) = 251 + 128 * i + 128 by omega, ← sectorsFrom_append,
          Nat.add_sub_cancel' large]
    rw [whole]
    rfl

private theorem single_part {α : Type} (next : List Sector → M α) (mapped : Mapped fs data n) (small : count ≤ 128)
    (inside : 123 + count ≤ n ∨ count = 0) :
    (if 0 < count then do
        let indirectBlock ← bufferCacheRead data.indirectBlock
        let single ← pure ((blocksOf indirectBlock).toList.take count)
        next single
      else do
        let single ← pure []
        next single) fs = next (sectorsFrom fs.disk.view data 123 count) fs := by
  rcases Nat.eq_zero_or_pos count with rfl | positive
  · rfl
  · have inside : 123 + count ≤ n := by omega
    have present := mapped.mapped (.single .here) (by simp only [InodePos.first, TreePos.first]; omega)
    have inRange : data.indirectBlock.toNat < fs.disk.size := mapped.inRange (.single .here) present
    rw [if_pos positive, run_bind (bufferCacheRead_eq inRange), single_sectors mapped small inside]
    rfl

private theorem double_part {α : Type} (next : List Sector → M α) (mapped : Mapped fs data n)
    (inside : 251 + count ≤ n ∨ count = 0) :
    (if 0 < count then do
        let indirectBlock ← bufferCacheRead data.doublyIndirectBlock
        let double ← dataSectorsUnder (blocksOf indirectBlock) 0 (divRoundUp count 128) count
        next double
      else do
        let double ← pure []
        next double) fs = next (sectorsFrom fs.disk.view data 251 count) fs := by
  rcases Nat.eq_zero_or_pos count with rfl | positive
  · rfl
  · have inside : 251 + count ≤ n := by omega
    have present := mapped.mapped (.double .here) (by simp only [InodePos.first, TreePos.first]; omega)
    have inRange : data.doublyIndirectBlock.toNat < fs.disk.size := mapped.inRange (.double .here) present
    rw [if_pos positive, run_bind (bufferCacheRead_eq inRange), run_bind (dataSectorsUnder_eq mapped _ 0 count rfl (.inl inside))]

private theorem ranges_eq (v : View) (data : InodeDisk) (limit : n ≤ 16635) :
    sectorsFrom v data 0 (min n 123) ++ sectorsFrom v data 123 (min (n - min n 123) 128) ++
        sectorsFrom v data 251 (min (n - min n 123 - min (n - min n 123) 128) (128 * 128)) = sectorsFrom v data 0 n := by
  rcases Nat.le_total n 123 with direct | more
  · simp only [Nat.min_eq_left direct, Nat.sub_self, Nat.zero_min]
    simp [sectorsFrom]
  · obtain ⟨m, rfl⟩ := Nat.exists_eq_add_of_le more
    rw [Nat.min_eq_right more, Nat.add_sub_cancel_left, Nat.min_eq_left (by omega : m - min m 128 ≤ 128 * 128),
      sectorsFrom_append 123 m, List.append_assoc, Nat.zero_add]
    rcases Nat.le_total m 128 with single | many
    · rw [Nat.min_eq_left single, Nat.sub_self]
      simp [sectorsFrom]
    · obtain ⟨k, rfl⟩ := Nat.exists_eq_add_of_le many
      rw [Nat.min_eq_right many, Nat.add_sub_cancel_left, sectorsFrom_append 128 k]

theorem getInodeDataSectors_eq (readable : Readable fs data) :
    getInodeDataSectors data fs = some (some (sectorsFrom fs.disk.view data 0 (bytesToSectors data.length)), fs) := by
  have nonneg := readable.nonneg
  have high := readable.limit
  have sectors := bytesToSectors_eq nonneg (by omega)
  generalize count_eq : bytesToSectors data.length = n at sectors ⊢
  have mapped : Mapped fs data n := ⟨by omega, readable.inRange, fun p inside => readable.mapped p (by omega)⟩
  have limit := mapped.limit
  rw [getInodeDataSectors, if_neg (by omega), count_eq]
  refine (single_part _ mapped (Nat.min_le_right _ 128) (by omega)).trans ?_
  refine (double_part _ mapped (by omega)).trans ?_
  rw [direct_sectors fs.disk.view data (Nat.min_le_right n 123), ranges_eq _ _ limit]
  rfl

end Comp310.Fs
