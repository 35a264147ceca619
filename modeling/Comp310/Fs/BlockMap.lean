import Comp310.Fs.Inode

/-! The block map of an inode as one function from positions to sectors. A
position is a path down one of the trees that the inode roots; it is a data
sector at the bottom and an index block above it. -/

namespace Comp310.Fs
open Comp310.Lib

abbrev View := Sector → Block

/-- The data sectors under an entry of the given level. -/
def capacity (level : Nat) : Nat := 128 ^ level

/-- A place in the tree under an entry. -/
inductive TreePos : Nat → Type where
  | here : TreePos level
  | child (index : Fin 128) (below : TreePos level) : TreePos (level + 1)

namespace TreePos

def isData : TreePos level → Bool
  | @here level => level == 0
  | child _ below => below.isData

/-- The first data sector at or below a position, counted from the left. -/
def first : TreePos level → Nat
  | here => 0
  | @child level index below => index.val * capacity level + below.first

def leaf : (level : Nat) → Nat → TreePos level
  | 0, _ => here
  | level + 1, index =>
    child ⟨index / capacity level % 128, Nat.mod_lt _ (by decide)⟩ (leaf level (index % capacity level))

end TreePos

def childEntry (v : View) (entry : Sector) (index : Fin 128) : Sector :=
  if entry = 0 then 0 else (blocksOf (v entry)).get index

/-- The sector at a position, 0 where nothing is allocated. -/
def treeAt (v : View) (entry : Sector) : TreePos level → Sector
  | .here => entry
  | .child index below => treeAt v (childEntry v entry index) below

inductive InodePos where
  | direct (index : Fin 123)
  | single (below : TreePos 1)
  | double (below : TreePos 2)

namespace InodePos

def isData : InodePos → Bool
  | direct _ => true
  | single below => below.isData
  | double below => below.isData

def first : InodePos → Nat
  | direct index => index
  | single below => 123 + below.first
  | double below => 251 + below.first

/-- The position where the sector of an index is found. -/
def data (index : Nat) : InodePos :=
  if inside : index < 123 then direct ⟨index, inside⟩
  else if index < 251 then single (.leaf 1 (index - 123))
  else double (.leaf 2 (index - 251))

end InodePos

def blockAt (v : View) (data : InodeDisk) : InodePos → Sector
  | .direct index => data.directBlocks.get index
  | .single below => treeAt v data.indirectBlock below
  | .double below => treeAt v data.doublyIndirectBlock below

def byteAt (block : Block) (index : Nat) : UInt8 := block.toList.getD index 0

/-- Byte `k` of a file; what is not allocated reads as zero. -/
def fileByte (v : View) (data : InodeDisk) (k : Nat) : UInt8 :=
  if blockAt v data (.data (k / 512)) = 0 then 0 else byteAt (v (blockAt v data (.data (k / 512)))) (k % 512)

def Distinct (map : α → Sector) : Prop := ∀ p q, map p ≠ 0 → map p = map q → p = q

section Trees
variable {v v' : View} {entry : Sector}

@[simp] theorem treeAt_here : treeAt v entry (.here : TreePos level) = entry := rfl

@[simp] theorem childEntry_zero (index : Fin 128) : childEntry v 0 index = 0 := if_pos rfl

@[simp] theorem treeAt_zero (p : TreePos level) : treeAt v 0 p = 0 := by
  induction p with
  | here => rfl
  | child index below ih => rw [treeAt, childEntry_zero, ih]

theorem treeAt_congr (p : TreePos level)
    (same : ∀ q : TreePos level, q.isData = false → treeAt v entry q ≠ 0 → v' (treeAt v entry q) = v (treeAt v entry q)) :
    treeAt v' entry p = treeAt v entry p := by
  induction p generalizing entry with
  | here => rfl
  | child index below ih =>
    have root : childEntry v' entry index = childEntry v entry index := by
      unfold childEntry
      split
      next => rfl
      next allocated =>
        have rootBlock := same .here rfl allocated
        rw [treeAt_here] at rootBlock
        rw [rootBlock]
    rw [treeAt, treeAt, root]
    exact ih fun q inner allocated => same (.child index q) inner allocated

theorem leaf_isData (level index : Nat) : (TreePos.leaf level index).isData = true := by
  induction level generalizing index with
  | zero => rfl
  | succ level ih => exact ih _

theorem leaf_first (level : Nat) {index : Nat} (inside : index < capacity level) :
    (TreePos.leaf level index).first = index := by
  induction level generalizing index with
  | zero => simp only [capacity, Nat.pow_zero, Nat.lt_one_iff] at inside; exact inside.symm
  | succ level ih =>
    have positive : 0 < capacity level := Nat.pow_pos (by decide)
    have small : index / capacity level < 128 := by
      rw [Nat.div_lt_iff_lt_mul positive, Nat.mul_comm]
      exact inside
    simp only [TreePos.leaf, TreePos.first, Nat.mod_eq_of_lt small]
    rw [ih (Nat.mod_lt _ positive), Nat.mul_comm]
    exact Nat.div_add_mod index (capacity level)

theorem first_lt (p : TreePos level) : p.first < capacity level := by
  induction p with
  | here => exact Nat.pow_pos (by decide)
  | @child level index below ih =>
    have grown : capacity (level + 1) = 128 * capacity level := by
      simp only [capacity, Nat.pow_succ]
      omega
    have room := Nat.mul_le_mul_right (capacity level) index.isLt
    rw [Nat.succ_mul] at room
    simp only [TreePos.first]
    omega

end Trees

section Inodes
variable {v v' : View} {data : InodeDisk}

theorem blockAt_congr (p : InodePos)
    (same : ∀ q : InodePos, q.isData = false → blockAt v data q ≠ 0 → v' (blockAt v data q) = v (blockAt v data q)) :
    blockAt v' data p = blockAt v data p := by
  cases p with
  | direct index => rfl
  | single below => exact treeAt_congr below fun q inner allocated => same (.single q) inner allocated
  | double below => exact treeAt_congr below fun q inner allocated => same (.double q) inner allocated

theorem data_isData (index : Nat) : (InodePos.data index).isData = true := by
  unfold InodePos.data
  split
  next => rfl
  next =>
    split
    · exact leaf_isData 1 _
    · exact leaf_isData 2 _

theorem data_first {index : Nat} (inside : index < 16635) : (InodePos.data index).first = index := by
  unfold InodePos.data
  split
  next => rfl
  next =>
    split
    next =>
      rw [InodePos.first, leaf_first 1 (by simp only [capacity]; omega)]
      omega
    next =>
      rw [InodePos.first, leaf_first 2 (by simp only [capacity]; omega)]
      omega

theorem data_injective {i j : Nat} (first : i < 16635) (second : j < 16635)
    (same : InodePos.data i = InodePos.data j) : i = j := by
  rw [← data_first first, same, data_first second]

/-- Bytes are unchanged when the index blocks and the sector of the byte are. -/
theorem fileByte_congr (k : Nat)
    (same : ∀ q : InodePos, blockAt v data q ≠ 0 → v' (blockAt v data q) = v (blockAt v data q)) :
    fileByte v' data k = fileByte v data k := by
  unfold fileByte
  rw [blockAt_congr _ fun q _ allocated => same q allocated]
  split
  next => rfl
  next allocated => rw [same _ allocated]

theorem bufferCacheRead_eq {fs : FileSystem} {sector : Sector} (inside : sector.toNat < fs.disk.size) :
    bufferCacheRead sector fs = some (fs.disk.view sector, fs) := by
  simp [bufferCacheRead, fs.disk.read_inside inside]

theorem treeAt_leaf_one (v : View) (root : Sector) {index : Nat} (inside : index < 128) :
    treeAt v root (.leaf 1 index) = childEntry v root ⟨index, inside⟩ := by
  have slot : index / capacity 0 % 128 = index := by simp only [capacity]; omega
  simp only [TreePos.leaf, treeAt, slot]

theorem treeAt_leaf_two (v : View) (root : Sector) {index : Nat} (inside : index / 128 < 128) :
    treeAt v root (.leaf 2 index) =
      childEntry v (childEntry v root ⟨index / 128, inside⟩) ⟨index % 128, Nat.mod_lt _ (by decide)⟩ := by
  have slot : index / capacity 1 % 128 = index / 128 := by simp only [capacity]; omega
  have rest : index % capacity 1 = index % 128 := rfl
  rw [TreePos.leaf, treeAt, rest, treeAt_leaf_one _ _ (Nat.mod_lt _ (by decide))]
  simp only [slot]

theorem childEntry_present {v : View} {root : Sector} {slot : Fin 128} (allocated : childEntry v root slot ≠ 0) :
    root ≠ 0 ∧ childEntry v root slot = (blocksOf (v root)).get slot := by
  have present : root ≠ 0 := fun absent => allocated (by rw [absent, childEntry_zero])
  exact ⟨present, if_neg present⟩

/-- `index_to_sector` finds the sector at the position of the index. -/
theorem indexToSector_eq {fs : FileSystem} {index : Nat} (inside : index < 16635)
    (reached : ∀ p, p.isData = false → blockAt fs.disk.view data p ≠ 0 →
      (blockAt fs.disk.view data p).toNat < fs.disk.size)
    (allocated : blockAt fs.disk.view data (.data index) ≠ 0) :
    indexToSector data index fs = some (blockAt fs.disk.view data (.data index), fs) := by
  unfold InodePos.data at allocated ⊢
  unfold indexToSector
  split
  next => rfl
  next direct =>
    rw [dif_neg direct] at allocated
    split
    next single =>
      rw [if_pos single, blockAt, treeAt_leaf_one _ _ (by omega)] at allocated
      obtain ⟨present, child⟩ := childEntry_present allocated
      have inRange : data.indirectBlock.toNat < fs.disk.size := reached (.single .here) rfl present
      rw [run_bind (bufferCacheRead_eq inRange), blockAt, treeAt_leaf_one _ _ (by omega), child]
      rfl
    next single =>
      rw [if_neg single, blockAt, treeAt_leaf_two _ _ (by omega)] at allocated
      obtain ⟨present', child'⟩ := childEntry_present allocated
      obtain ⟨present, child⟩ := childEntry_present present'
      have inRange : data.doublyIndirectBlock.toNat < fs.disk.size := reached (.double .here) rfl present
      let slot : Fin 128 := ⟨(index - 251) / 128, by omega⟩
      have inRange' := reached (.double (.child slot .here)) rfl present'
      rw [blockAt, treeAt, treeAt_here, child] at inRange'
      rw [run_bind (bufferCacheRead_eq inRange), run_bind (bufferCacheRead_eq inRange'), blockAt,
        treeAt_leaf_two _ _ (by omega), child', child]
      rfl

end Inodes

end Comp310.Fs
