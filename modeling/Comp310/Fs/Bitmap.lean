import Mathlib.Algebra.Ring.Nat

/-! Bitmaps (bitmap.c). Bit `k` of the bitmap is element `k` of the list, whose
length is `bit_cnt`. In the file the bits lie eight to a byte, the lowest first,
in whole 64-bit elements; the bits past the last one are zero. -/

namespace Comp310.Fs

abbrev Bitmap := List Bool

/-- DIV_ROUND_UP. -/
def divRoundUp (x step : Nat) : Nat := (x + step - 1) / step

/-- `byte_cnt`: eight bytes for each element of 64 bits. -/
def byteCnt (bitCnt : Nat) : Nat := 8 * divRoundUp bitCnt 64

def bitmapCreate (bitCnt : Nat) : Bitmap := List.replicate bitCnt false

def bitmapMark (b : Bitmap) (idx : Nat) : Bitmap := b.set idx true

def bitmapTest (b : Bitmap) (idx : Nat) : Bool := b.getD idx false

def bitmapSetMultiple (b : Bitmap) (start : Nat) : Nat → Bool → Bitmap
  | 0, _ => b
  | cnt + 1, value => (bitmapSetMultiple b start cnt value).set (start + cnt) value

def bitmapCount (b : Bitmap) (start cnt : Nat) (value : Bool) : Nat :=
  (List.range cnt).countP fun i => bitmapTest b (start + i) == value

def bitmapContains (b : Bitmap) (start cnt : Nat) (value : Bool) : Bool :=
  (List.range cnt).any fun i => bitmapTest b (start + i) == value

def bitmapAll (b : Bitmap) (start cnt : Nat) : Bool := !bitmapContains b start cnt false

/-- The first group of `cnt` bits set to `value`; `none` is BITMAP_ERROR. -/
def bitmapScan (b : Bitmap) (start cnt : Nat) (value : Bool) : Option Nat :=
  if cnt ≤ b.length then
    (List.range' start (b.length - cnt + 1 - start)).find? fun i => !bitmapContains b i cnt (!value)
  else none

def bitmapScanAndFlip (b : Bitmap) (start cnt : Nat) (value : Bool) : Option (Nat × Bitmap) :=
  (bitmapScan b start cnt value).map fun idx => (idx, bitmapSetMultiple b idx cnt (!value))

def bitmapFileSize (b : Bitmap) : Nat := byteCnt b.length

/-- The byte of the file that holds bits `8 * index` and the seven after it. -/
def bitmapByte (b : Bitmap) (index : Nat) : UInt8 :=
  UInt8.ofNat ((List.range 8).foldr (fun i rest => (bitmapTest b (8 * index + i)).toNat + 2 * rest) 0)

/-- The memory of the bitmap's elements, as `bitmap_write` hands it to the file. -/
def bitmapBytes (b : Bitmap) : List UInt8 :=
  (List.range (bitmapFileSize b)).map (bitmapByte b)

/-- The bits that `bitmap_read` finds in the bytes of the file. -/
def bitmapOfBytes (bitCnt : Nat) (bytes : List UInt8) : Bitmap :=
  (List.range bitCnt).map fun i => (bytes.getD (i / 8) 0).toNat.testBit (i % 8)

@[simp] theorem bitmapBytes_length (b : Bitmap) : (bitmapBytes b).length = byteCnt b.length := by
  simp [bitmapBytes, bitmapFileSize]

@[simp] theorem bitmapSetMultiple_one (b : Bitmap) (start : Nat) (value : Bool) :
    bitmapSetMultiple b start 1 value = b.set start value := by
  simp [bitmapSetMultiple]

theorem byteCnt_bounds (bitCnt : Nat) : bitCnt ≤ 8 * byteCnt bitCnt ∧ byteCnt bitCnt ≤ bitCnt / 8 + 8 := by
  unfold byteCnt divRoundUp
  omega

theorem bitmapTest_eq {b : Bitmap} {idx : Nat} : bitmapTest b idx = true ↔ b[idx]? = some true := by
  unfold bitmapTest
  rw [List.getD_eq_getElem?_getD]
  cases b[idx]? <;> simp

theorem bitmapCount_all (b : Bitmap) (value : Bool) : bitmapCount b 0 b.length value = b.count value := by
  have bits : (List.range b.length).map (bitmapTest b) = b := by
    apply List.ext_getElem
    · simp
    · intro idx first second
      simp [bitmapTest, List.getD_eq_getElem?_getD, List.getElem?_eq_getElem second]
  have counted := List.countP_map (p := (· == value)) (f := bitmapTest b) (l := List.range b.length)
  rw [bits] at counted
  rw [List.count, counted, bitmapCount]
  simp only [Nat.zero_add]
  rfl

theorem bitmapAll_one {b : Bitmap} {idx : Nat} (set : b[idx]? = some true) : bitmapAll b idx 1 = true := by
  simp [bitmapAll, bitmapContains, bitmapTest, List.getD_eq_getElem?_getD, set]

theorem bitmapScan_some {b : Bitmap} {idx : Nat} (found : bitmapScan b 0 1 false = some idx) :
    b[idx]? = some false := by
  unfold bitmapScan at found
  split at found
  next nonempty =>
    have inside := List.mem_of_find?_eq_some found
    have clear := List.find?_some found
    have bound : idx < b.length := by
      rw [List.mem_range'_1] at inside
      omega
    simp only [bitmapContains, bitmapTest, List.range_one, List.any_cons, List.any_nil, Nat.add_zero,
      List.getD_eq_getElem?_getD, List.getElem?_eq_getElem bound] at clear
    rw [List.getElem?_eq_getElem bound]
    simpa using clear
  next => cases found

theorem bitmapScan_least {b : Bitmap} {idx i : Nat} (found : bitmapScan b 0 1 false = some idx) (before : i < idx) :
    b[i]? = some true := by
  have bound := (List.getElem?_eq_some_iff.mp (bitmapScan_some found)).1
  unfold bitmapScan at found
  rw [if_pos (by omega)] at found
  obtain ⟨_, k, inside, same, earlier⟩ := List.find?_eq_some_iff_getElem.mp found
  rw [List.getElem_range'] at same
  have passed := earlier i (by omega)
  rw [List.getElem_range'] at passed
  rw [List.getElem?_eq_getElem (by omega)]
  simpa [bitmapContains, bitmapTest, List.getD_eq_getElem?_getD, List.getElem?_eq_getElem (show i < b.length by omega)] using passed

/-- A scan for one clear bit fails only when every bit is set. -/
theorem bitmapScan_none {b : Bitmap} (missing : bitmapScan b 0 1 false = none) : b.count false = 0 := by
  rw [List.count_eq_zero]
  intro member
  obtain ⟨idx, bound, clear⟩ := List.mem_iff_getElem.mp member
  unfold bitmapScan at missing
  rw [if_pos (by omega)] at missing
  have full := List.find?_eq_none.mp missing idx (List.mem_range'_1.mpr (by omega))
  simp [bitmapContains, bitmapTest, List.getD_eq_getElem?_getD, List.getElem?_eq_getElem bound, clear] at full

theorem bitmapScan_isSome {b : Bitmap} (free : 0 < b.count false) : ∃ idx, bitmapScan b 0 1 false = some idx := by
  cases found : bitmapScan b 0 1 false with
  | some idx => exact ⟨idx, rfl⟩
  | none => exact absurd (bitmapScan_none found) (by omega)

/-- Setting a clear bit uses up one of the free ones, and clearing it gives one back. -/
theorem count_set_true {b : Bitmap} {idx : Nat} (clear : b[idx]? = some false) :
    (b.set idx true).count false + 1 = b.count false := by
  obtain ⟨bound, value⟩ := List.getElem?_eq_some_iff.mp clear
  have positive : 0 < b.count false := List.count_pos_iff.mpr (value ▸ List.getElem_mem bound)
  rw [List.count_set bound]
  simp [value]
  omega

theorem count_set_false {b : Bitmap} {idx : Nat} (used : b[idx]? = some true) :
    (b.set idx false).count false = b.count false + 1 := by
  obtain ⟨bound, value⟩ := List.getElem?_eq_some_iff.mp used
  rw [List.count_set bound]
  simp [value]

/-- The bits that are set are the first ones. -/
def Packed (b : Bitmap) : Prop := ∀ i j : Nat, i < j → b[j]? = some true → b[i]? = some true

/-- So many of the first bits are set as there are set bits. -/
theorem Packed.set_iff {b : Bitmap} (packed : Packed b) {i : Nat} : b[i]? = some true ↔ i < b.count true := by
  induction b generalizing i with
  | nil => simp
  | cons bit rest ih =>
    have tail : Packed rest := fun i j before => packed (i + 1) (j + 1) (Nat.succ_lt_succ before)
    cases bit with
    | true =>
      cases i with
      | zero => simp
      | succ i =>
        rw [List.getElem?_cons_succ, ih tail, List.count_cons_self]
        omega
    | false =>
      have clear : rest.count true = 0 := by
        rw [List.count_eq_zero]
        intro member
        obtain ⟨j, there⟩ := List.mem_iff_getElem?.mp member
        cases packed 0 (j + 1) (Nat.zero_lt_succ j) there
      rw [List.count_cons_of_ne (by decide), clear]
      constructor
      · intro set
        cases i with
        | zero => cases set
        | succ i =>
          rw [List.getElem?_cons_succ, ih tail, clear] at set
          omega
      · omega

theorem Packed.scan {b : Bitmap} (packed : Packed b) {idx : Nat} (found : bitmapScan b 0 1 false = some idx) : idx = b.count true := by
  have clear := bitmapScan_some found
  have low : ¬ idx < b.count true := by
    rw [← packed.set_iff, clear]
    simp
  have high : ¬ b.count true < idx := by
    intro before
    exact Nat.lt_irrefl _ (packed.set_iff.mp (bitmapScan_least found before))
  omega

theorem Packed.mark {b : Bitmap} (packed : Packed b) : Packed (b.set (b.count true) true) := by
  intro i j before set
  have inside := (List.getElem?_eq_some_iff.mp set).1
  rw [List.length_set] at inside
  rw [List.getElem?_set] at set ⊢
  split
  next => rw [if_pos (by omega)]
  next differs =>
    rw [packed.set_iff]
    split at set
    next same => omega
    next => exact Nat.lt_trans before (packed.set_iff.mp set)

/-- A list of bits as a number, the first one least significant. -/
private def packBits : List Bool → Nat
  | [] => 0
  | bit :: rest => bit.toNat + 2 * packBits rest

private theorem foldr_pack (f : Nat → Bool) (l : List Nat) : l.foldr (fun i rest => (f i).toNat + 2 * rest) 0 = packBits (l.map f) := by
  induction l with
  | nil => rfl
  | cons i rest ih => rw [List.foldr_cons, ih]; rfl

private theorem testBit_pack (bits : List Bool) (k : Nat) : (packBits bits).testBit k = bits.getD k false := by
  induction bits generalizing k with
  | nil => simp [packBits]
  | cons bit rest ih =>
    cases k with
    | zero => cases bit <;> simp [packBits, Nat.testBit_zero]
    | succ k =>
      rw [Nat.testBit_succ, show packBits (bit :: rest) / 2 = packBits rest by cases bit <;> simp [packBits] <;> omega, ih]
      rfl

private theorem pack_lt (bits : List Bool) : packBits bits < 2 ^ bits.length := by
  induction bits with
  | nil => decide
  | cons bit rest ih =>
    rw [List.length_cons, Nat.pow_succ, packBits]
    cases bit <;> simp <;> omega

theorem bitmapByte_testBit (b : Bitmap) (index : Nat) {k : Nat} (small : k < 8) :
    (bitmapByte b index).toNat.testBit k = bitmapTest b (8 * index + k) := by
  have bound := pack_lt ((List.range 8).map fun i => bitmapTest b (8 * index + i))
  rw [List.length_map, List.length_range] at bound
  rw [bitmapByte, foldr_pack (fun i => bitmapTest b (8 * index + i)), UInt8.toNat_ofNat_of_lt' bound, testBit_pack,
    List.getD_eq_getElem?_getD]
  simp [small]

theorem bitmapOfBytes_bitmapBytes (b : Bitmap) : bitmapOfBytes b.length (bitmapBytes b) = b := by
  apply List.ext_getElem
  · simp [bitmapOfBytes]
  · intro i inside inside'
    have room := byteCnt_bounds b.length
    have stored : (bitmapBytes b).getD (i / 8) 0 = bitmapByte b (i / 8) := by
      rw [List.getD_eq_getElem?_getD, bitmapBytes, List.getElem?_map, List.getElem?_range (by rw [bitmapFileSize]; omega)]
      rfl
    simp only [bitmapOfBytes, List.getElem_map, List.getElem_range]
    rw [stored, bitmapByte_testBit _ _ (by omega), show 8 * (i / 8) + i % 8 = i by omega, bitmapTest,
      List.getD_eq_getElem?_getD, List.getElem?_eq_getElem inside']
    rfl

private theorem count_mono {b b' : List Bool} (length : b'.length = b.length)
    (mono : ∀ i : Nat, b[i]? = some true → b'[i]? = some true) : b'.count false ≤ b.count false := by
  induction b generalizing b' with
  | nil => exact Nat.le_of_eq (by rw [List.eq_nil_of_length_eq_zero length])
  | cons bit rest ih =>
    cases b' with
    | nil => cases length
    | cons bit' rest' =>
      have fewer := ih (Nat.succ.inj length) fun i => mono (i + 1)
      have first := mono 0
      simp only [List.getElem?_cons_zero, Option.some.injEq] at first
      cases bit <;> cases bit' <;> simp at first ⊢ <;> omega

/-- Maps of the same size with as many free bits, in which no bit was cleared, are the same. -/
theorem bitmap_ext {b b' : List Bool} (length : b'.length = b.length)
    (mono : ∀ i : Nat, b[i]? = some true → b'[i]? = some true) (count : b'.count false = b.count false) : b' = b := by
  induction b generalizing b' with
  | nil => exact List.eq_nil_of_length_eq_zero length
  | cons bit rest ih =>
    cases b' with
    | nil => cases length
    | cons bit' rest' =>
      have fewer := count_mono (Nat.succ.inj length) fun i => mono (i + 1)
      have first := mono 0
      simp only [List.getElem?_cons_zero, Option.some.injEq] at first
      have same : bit' = bit ∧ rest'.count false = rest.count false := by
        cases bit <;> cases bit' <;> simp at first count ⊢ <;> omega
      rw [same.1, ih (Nat.succ.inj length) (fun i => mono (i + 1)) same.2]

end Comp310.Fs
