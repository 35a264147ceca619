import Comp310.Fs.ElemBitmap
import Comp310.Lib.Bytes

/-! The elements of a bitmap hold the list of its bits, and nothing behind the last one. -/

namespace Comp310.Fs.ElemBitmap
open Comp310.Lib

/-- The elements hold these bits; the rest of the last element is clear, and no assertion has failed. -/
structure Shows (b : Elems) (bits : Bitmap) : Prop where
  bitCnt : b.bitCnt = bits.length
  size : b.bits.length = elemCnt bits.length
  bit : ∀ k, wordBit b.bits k = Fs.bitmapTest bits k
  quiet : b.panics = 0

variable {b : Elems} {bits bits' : Bitmap} {idx start cnt left i : Nat} {value : Bool}

theorem Shows.congr (shows : Shows b bits) (length : bits'.length = bits.length) (same : ∀ k, Fs.bitmapTest bits' k = Fs.bitmapTest bits k) :
    Shows b bits' := by
  refine ⟨shows.bitCnt.trans length.symm, ?_, fun k => (shows.bit k).trans (same k).symm, shows.quiet⟩
  rw [length]
  exact shows.size

theorem assert_run {condition : Elems → Bool} (holds : condition b = true) : assert condition b = some (⟨⟩, b) := by
  change some (PUnit.unit, if condition b = true then b else _) = _
  rw [if_pos holds]

theorem readElem_run (inside : idx < b.bits.length) : readElem idx b = some (b.bits.getD idx 0, b) := by
  rw [readElem, List.getElem?_eq_getElem inside, List.getD_eq_getElem?_getD, List.getElem?_eq_getElem inside]
  rfl

theorem writeElem_run (inside : idx < b.bits.length) (elem : ElemType) :
    writeElem idx elem b = some (⟨⟩, { b with bits := b.bits.set idx elem }) := if_pos inside

theorem test_set (inside : idx < bits.length) (k : Nat) : Fs.bitmapTest (bits.set idx value) k = if k = idx then value else Fs.bitmapTest bits k := by
  unfold Fs.bitmapTest
  rw [List.getD_eq_getElem?_getD, List.getD_eq_getElem?_getD, List.getElem?_set]
  by_cases same : idx = k
  · subst same
    rw [if_pos rfl, if_pos inside, if_pos rfl]
    rfl
  · rw [if_neg same, if_neg (Ne.symm same)]

section Bits
variable (shows : Shows b bits) (inside : idx < bits.length)
include shows inside

theorem Shows.elem_inside : elemIdx idx < b.bits.length := by
  rw [shows.size, elemIdx, elemCnt, divRoundUp]
  omega

theorem Shows.readElem_run : readElem (elemIdx idx) b = some (b.bits.getD (idx / 64) 0, b) := ElemBitmap.readElem_run (shows.elem_inside inside)

theorem Shows.write {elem : ElemType} (same : ∀ k, wordBit (b.bits.set (idx / 64) elem) k = if k = idx then value else wordBit b.bits k) :
    Wp (writeElem (elemIdx idx) elem) (fun _ b' => Shows b' (bits.set idx value)) b := by
  refine .of_eq (writeElem_run (shows.elem_inside inside) elem) ⟨?_, ?_, fun k => ?_, shows.quiet⟩
  · rw [List.length_set]
    exact shows.bitCnt
  · have length : (bits.set idx value).length = bits.length := List.length_set
    rw [length]
    exact List.length_set.trans shows.size
  · rw [test_set inside, ← shows.bit]
    exact same k

theorem bitmapMark_wp : Wp (bitmapMark idx) (fun _ b' => Shows b' (bits.set idx true)) b := by
  rw [bitmapMark, wp_bind]
  refine .of_eq (shows.readElem_run inside) (shows.write inside fun k => ?_)
  exact wordBit_or (by decide) (shows.elem_inside inside) k

theorem bitmapReset_wp : Wp (bitmapReset idx) (fun _ b' => Shows b' (bits.set idx false)) b := by
  rw [bitmapReset, wp_bind]
  refine .of_eq (shows.readElem_run inside) (shows.write inside fun k => ?_)
  exact wordBit_andNot (by decide) (shows.elem_inside inside) k

theorem bitmapFlip_wp : Wp (bitmapFlip idx) (fun _ b' => Shows b' (bits.set idx (!Fs.bitmapTest bits idx))) b := by
  rw [bitmapFlip, wp_bind]
  refine .of_eq (shows.readElem_run inside) (shows.write inside fun k => ?_)
  rw [← shows.bit]
  exact wordBit_xor (by decide) (shows.elem_inside inside) k

theorem Shows.assert_inside : assert (fun b => decide (idx < b.bitCnt)) b = some (⟨⟩, b) :=
  assert_run (decide_eq_true (shows.bitCnt ▸ inside))

theorem bitmapSet_wp (value : Bool) : Wp (bitmapSet idx value) (fun _ b' => Shows b' (bits.set idx value)) b := by
  rw [bitmapSet, wp_bind]
  refine .of_eq (shows.assert_inside inside) ?_
  cases value with
  | true => exact bitmapMark_wp shows inside
  | false => exact bitmapReset_wp shows inside

theorem bitmapTest_run : bitmapTest idx b = some (Fs.bitmapTest bits idx, b) := by
  have bit : ((b.bits.getD (idx / 64) 0 &&& bitMask idx) != 0#64) = Fs.bitmapTest bits idx := by
    rw [← shows.bit]
    exact and_mask_ne (by decide) _ idx
  rw [bitmapTest, run_bind (shows.assert_inside inside), run_bind (shows.readElem_run inside), bit]
  rfl

end Bits

section Ranges

theorem Shows.assertRange_run (shows : Shows b bits) (range : start + cnt ≤ bits.length) : assertRange start cnt b = some (⟨⟩, b) := by
  have first : start ≤ b.bitCnt := by
    rw [shows.bitCnt]
    omega
  have second : start + cnt ≤ b.bitCnt := by rwa [shows.bitCnt]
  rw [assertRange, run_bind (assert_run (decide_eq_true first)), assert_run (decide_eq_true second)]

theorem setMultiple_length (bits : Bitmap) (start cnt : Nat) (value : Bool) : (Fs.bitmapSetMultiple bits start cnt value).length = bits.length := by
  induction cnt with
  | zero => rfl
  | succ cnt ih => rw [Fs.bitmapSetMultiple, List.length_set, ih]

theorem test_setMultiple (range : start + cnt ≤ bits.length) (k : Nat) :
    Fs.bitmapTest (Fs.bitmapSetMultiple bits start cnt value) k = if start ≤ k ∧ k < start + cnt then value else Fs.bitmapTest bits k := by
  induction cnt with
  | zero => rw [Fs.bitmapSetMultiple, if_neg (by omega)]
  | succ cnt ih =>
    have inside : start + cnt < (Fs.bitmapSetMultiple bits start cnt value).length := by
      rw [setMultiple_length]
      omega
    rw [Fs.bitmapSetMultiple, test_set inside, ih (by omega)]
    by_cases last : k = start + cnt
    · rw [if_pos last, if_pos (by omega)]
    · rw [if_neg last]
      by_cases within : start ≤ k ∧ k < start + cnt
      · rw [if_pos within, if_pos (by omega)]
      · rw [if_neg within, if_neg (by omega)]

/-- The loop sets the bits from the first one on, the model from the last one on. -/
theorem setLoop_wp (shows : Shows b bits) (range : start + left ≤ bits.length) :
    Wp (setLoop value left start) (fun _ b' => Shows b' (Fs.bitmapSetMultiple bits start left value)) b := by
  induction left generalizing b bits start with
  | zero => exact (wp_pure _).mpr shows
  | succ left ih =>
    have inside : start < bits.length := by omega
    rw [setLoop, wp_bind]
    refine (bitmapSet_wp shows inside value).mono fun _ middle shows => ?_
    refine (ih shows (by rw [List.length_set]; omega)).mono fun _ after shows => ?_
    refine shows.congr ?_ fun k => ?_
    · rw [setMultiple_length, setMultiple_length, List.length_set]
    · rw [test_setMultiple range, test_setMultiple (by rw [List.length_set]; omega), test_set inside]
      by_cases first : k = start
      · rw [if_pos (by omega), if_neg (by omega), if_pos first]
      · rw [if_neg first]
        by_cases within : start + 1 ≤ k ∧ k < start + 1 + left
        · rw [if_pos within, if_pos (by omega)]
        · rw [if_neg within, if_neg (by omega)]

theorem bitmapSetMultiple_wp (shows : Shows b bits) (range : start + cnt ≤ bits.length) :
    Wp (bitmapSetMultiple start cnt value) (fun _ b' => Shows b' (Fs.bitmapSetMultiple bits start cnt value)) b := by
  rw [bitmapSetMultiple, wp_bind]
  exact .of_eq (shows.assertRange_run range) (setLoop_wp shows range)

theorem bitmapSetAll_wp (shows : Shows b bits) (value : Bool) :
    Wp (bitmapSetAll value) (fun _ b' => Shows b' (Fs.bitmapSetMultiple bits 0 bits.length value)) b := by
  rw [bitmapSetAll, wp_bind, wp_get, shows.bitCnt]
  exact bitmapSetMultiple_wp shows (by omega)

theorem count_succ : Fs.bitmapCount bits start (left + 1) value =
    (if Fs.bitmapTest bits start = value then 1 else 0) + Fs.bitmapCount bits (start + 1) left value := by
  unfold Fs.bitmapCount
  rw [List.range_succ_eq_map, List.countP_cons, List.countP_map, Nat.add_zero, Nat.add_comm]
  congr 1
  · simp only [beq_iff_eq]
  · refine List.countP_congr fun i _ => ?_
    rw [Function.comp_apply, Nat.succ_eq_add_one, Nat.add_right_comm, Nat.add_assoc]

theorem contains_succ : Fs.bitmapContains bits start (left + 1) value =
    (Fs.bitmapTest bits start == value || Fs.bitmapContains bits (start + 1) left value) := by
  unfold Fs.bitmapContains
  rw [List.range_succ_eq_map, List.any_cons, List.any_map, Nat.add_zero]
  congr 2
  funext i
  rw [Function.comp_apply, Nat.succ_eq_add_one, Nat.add_right_comm, Nat.add_assoc]

theorem countLoop_run (valueCnt : Nat) (shows : Shows b bits) (range : start + left ≤ bits.length) :
    countLoop value left start valueCnt b = some (valueCnt + Fs.bitmapCount bits start left value, b) := by
  induction left generalizing start valueCnt with
  | zero => rfl
  | succ left ih =>
    rw [countLoop, run_bind (bitmapTest_run shows (by omega)), ih _ (by omega), count_succ]
    split
    · rw [Nat.add_assoc]
    · rw [Nat.zero_add]

theorem containsLoop_run (shows : Shows b bits) (range : start + left ≤ bits.length) :
    containsLoop value left start b = some (Fs.bitmapContains bits start left value, b) := by
  induction left generalizing start with
  | zero => rfl
  | succ left ih =>
    rw [containsLoop, run_bind (bitmapTest_run shows (by omega)), contains_succ]
    by_cases same : Fs.bitmapTest bits start = value
    · rw [if_pos same, beq_iff_eq.mpr same, Bool.true_or]
      rfl
    · rw [if_neg same, ih (by omega), beq_eq_false_iff_ne.mpr same, Bool.false_or]

theorem bitmapCount_run (shows : Shows b bits) (range : start + cnt ≤ bits.length) :
    bitmapCount start cnt value b = some (Fs.bitmapCount bits start cnt value, b) := by
  rw [bitmapCount, run_bind (shows.assertRange_run range), countLoop_run 0 shows range, Nat.zero_add]

theorem bitmapContains_run (shows : Shows b bits) (range : start + cnt ≤ bits.length) :
    bitmapContains start cnt value b = some (Fs.bitmapContains bits start cnt value, b) := by
  rw [bitmapContains, run_bind (shows.assertRange_run range), containsLoop_run shows range]

end Ranges

section Scanning

theorem scanLoop_run (shows : Shows b bits) (range : i + left + cnt ≤ bits.length + 1) :
    scanLoop cnt value left i b =
      some (((List.range' i left).find? fun i => !Fs.bitmapContains bits i cnt (!value)).getD bitmapError, b) := by
  induction left generalizing i with
  | zero => rfl
  | succ left ih =>
    rw [scanLoop, run_bind (bitmapContains_run shows (by omega)), List.range'_succ, List.find?_cons]
    cases Fs.bitmapContains bits i cnt (!value) with
    | true => exact ih (by omega)
    | false => rfl

theorem bitmapScan_run (shows : Shows b bits) (inside : start ≤ bits.length) :
    bitmapScan start cnt value b = some ((Fs.bitmapScan bits start cnt value).getD bitmapError, b) := by
  have holds : decide (start ≤ b.bitCnt) = true := decide_eq_true (by rwa [shows.bitCnt])
  have current : (get : E Elems) b = some (b, b) := rfl
  rw [bitmapScan, run_bind (assert_run holds), run_bind current, Fs.bitmapScan, shows.bitCnt]
  by_cases fits : cnt ≤ bits.length
  · rw [if_pos fits, if_pos fits]
    by_cases later : start ≤ bits.length - cnt + 1
    · exact scanLoop_run shows (by omega)
    · rw [show bits.length - cnt + 1 - start = 0 by omega]
      rfl
  · rw [if_neg fits, if_neg fits]
    rfl

theorem scan_range (found : Fs.bitmapScan bits start cnt value = some idx) : idx + cnt ≤ bits.length := by
  unfold Fs.bitmapScan at found
  split at found
  next fits =>
    have inside := List.mem_of_find?_eq_some found
    rw [List.mem_range'_1] at inside
    omega
  next => cases found

/-- An index that is BITMAP_ERROR is behind the last bit, so there is nothing to flip. -/
theorem bitmapScanAndFlip_wp (shows : Shows b bits) (small : bits.length < 4294967296) (inside : start ≤ bits.length) :
    Wp (bitmapScanAndFlip start cnt value) (fun idx b' =>
      idx = ((Fs.bitmapScanAndFlip bits start cnt value).map (·.1)).getD bitmapError ∧
      Shows b' (((Fs.bitmapScanAndFlip bits start cnt value).map (·.2)).getD bits)) b := by
  rw [bitmapScanAndFlip, wp_bind]
  refine .of_eq (bitmapScan_run shows inside) ?_
  unfold Fs.bitmapScanAndFlip
  cases found : Fs.bitmapScan bits start cnt value with
  | none => exact (wp_pure _).mpr ⟨rfl, shows⟩
  | some idx =>
    change Wp (if idx ≠ bitmapError then do
        bitmapSetMultiple idx cnt (!value)
        pure idx
      else pure idx) _ b
    by_cases error : idx = bitmapError
    · have range := scan_range found
      obtain rfl : cnt = 0 := by
        rw [error, bitmapError] at range
        omega
      rw [if_neg (fun differs => differs error)]
      exact (wp_pure _).mpr ⟨rfl, shows⟩
    · rw [if_pos error, wp_bind]
      exact (bitmapSetMultiple_wp shows (scan_range found)).mono fun _ b' shows => (wp_pure _).mpr ⟨rfl, shows⟩

end Scanning

theorem bitmapCreate_wp (quiet : b.panics = 0) (bitCnt : Nat) : Wp (bitmapCreate bitCnt) (fun _ b' => Shows b' (Fs.bitmapCreate bitCnt)) b := by
  have length : (Fs.bitmapCreate bitCnt).length = bitCnt := List.length_replicate
  have clear (k : Nat) : Fs.bitmapTest (Fs.bitmapCreate bitCnt) k = false := by
    rw [Fs.bitmapTest, Fs.bitmapCreate, List.getD_eq_getElem?_getD, List.getElem?_replicate]
    split <;> rfl
  have shows : Shows { b with bitCnt := bitCnt, bits := List.replicate (elemCnt bitCnt) 0 } (Fs.bitmapCreate bitCnt) := by
    refine ⟨length.symm, ?_, fun k => ?_, quiet⟩
    · rw [length]
      exact List.length_replicate
    · rw [clear]
      exact wordBit_zero _ k
  rw [bitmapCreate, wp_bind, wp_modify]
  refine (bitmapSetAll_wp shows false).mono fun _ b' shows => shows.congr (setMultiple_length ..).symm fun k => ?_
  rw [test_setMultiple (by omega), clear]
  split <;> rfl

section Bytes

/-- Bit `k` of some memory, the lowest byte and the lowest bit first. -/
def byteBit (bytes : List UInt8) (k : Nat) : Bool := (bytes.getD (k / 8) 0).toNat.testBit (k % 8)

theorem byteBit_ext {bytes bytes' : List UInt8} (length : bytes.length = bytes'.length) (same : ∀ k, byteBit bytes k = byteBit bytes' k) :
    bytes = bytes' := by
  apply bytes_ext length
  intro i _
  apply UInt8.toNat_inj.mp
  apply Nat.eq_of_testBit_eq
  intro j
  by_cases small : j < 8
  · have bit := same (8 * i + j)
    rwa [byteBit, byteBit, show (8 * i + j) / 8 = i by omega, show (8 * i + j) % 8 = j by omega] at bit
  · have beyond (byte : UInt8) : byte.toNat.testBit j = false := by
      apply Nat.testBit_lt_two_pow
      exact Nat.lt_of_lt_of_le byte.toNat_lt (Nat.pow_le_pow_right (by decide) (Nat.le_of_not_lt small))
    rw [beyond, beyond]

theorem elemBytes_length (elems : List ElemType) : (elemBytes elems).length = 8 * elems.length := by
  rw [elemBytes, List.length_map, List.length_range]

theorem byteBit_elemBytes (elems : List ElemType) (k : Nat) : byteBit (elemBytes elems) k = wordBit elems k := by
  by_cases inside : k / 8 < 8 * elems.length
  · have place : 8 * (k / 8 % 8) + k % 8 = k % 64 := by omega
    rw [byteBit, elemBytes, List.getD_eq_getElem?_getD, List.getElem?_map, List.getElem?_range inside, wordBit,
      show k / 64 = k / 8 / 8 by omega]
    change (((elems.getD (k / 8 / 8) 0).extractLsb' (8 * (k / 8 % 8)) 8).toNat).testBit (k % 8) = _
    rw [BitVec.testBit_toNat, BitVec.getLsbD_extractLsb', decide_eq_true (show k % 8 < 8 by omega), Bool.true_and, place]
  · rw [wordBit_beyond (by decide) (by omega), byteBit, List.getD_eq_getElem?_getD, List.getElem?_eq_none (by rw [elemBytes_length]; omega)]
    exact Nat.zero_testBit _

theorem elemOfBytes_bit (bytes : List UInt8) {i : Nat} (small : i < 64) : (elemOfBytes bytes).getLsbD i = byteBit bytes i := by
  induction bytes generalizing i with
  | nil => exact BitVec.getLsbD_zero.trans (Nat.zero_testBit _).symm
  | cons byte rest ih =>
    rw [elemOfBytes, BitVec.getLsbD_or, BitVec.getLsbD_shiftLeft, BitVec.getLsbD_setWidth, decide_eq_true small, Bool.true_and, Bool.true_and]
    by_cases first : i < 8
    · rw [decide_eq_true first, Bool.not_true, Bool.false_and, Bool.false_or, byteBit, Nat.div_eq_of_lt first, Nat.mod_eq_of_lt first]
      exact (BitVec.testBit_toNat _).symm
    · have beyond : byte.toBitVec.getLsbD i = false := BitVec.getLsbD_of_ge _ _ (Nat.le_of_not_lt first)
      rw [decide_eq_false first, Bool.not_false, Bool.true_and, beyond, Bool.or_false, ih (by omega), byteBit, byteBit,
        show i / 8 = (i - 8) / 8 + 1 by omega, show i % 8 = (i - 8) % 8 by omega]
      rfl

theorem wordBit_elemsOfBytes (cnt : Nat) (bytes : List UInt8) (k : Nat) :
    wordBit (elemsOfBytes cnt bytes) k = (decide (k < 64 * cnt) && byteBit bytes k) := by
  rw [wordBit, elemsOfBytes, List.getD_eq_getElem?_getD, List.getElem?_map]
  by_cases inside : k / 64 < cnt
  · rw [List.getElem?_range inside, decide_eq_true (by omega), Bool.true_and]
    change (elemOfBytes ((bytes.drop (8 * (k / 64))).take 8)).getLsbD (k % 64) = _
    rw [elemOfBytes_bit _ (by omega), byteBit, byteBit, List.getD_eq_getElem?_getD, List.getD_eq_getElem?_getD,
      List.getElem?_take_of_lt (by omega), List.getElem?_drop, show 8 * (k / 64) + k % 64 / 8 = k / 8 by omega,
      show k % 64 % 8 = k % 8 by omega]
  · rw [List.getElem?_eq_none (by rw [List.length_range]; omega), decide_eq_false (by omega), Bool.false_and]
    exact BitVec.getLsbD_zero

theorem byteBit_bitmapBytes (bits : Bitmap) (k : Nat) : byteBit (bitmapBytes bits) k = Fs.bitmapTest bits k := by
  by_cases inside : k / 8 < byteCnt bits.length
  · rw [byteBit, bitmapBytes, List.getD_eq_getElem?_getD, List.getElem?_map, bitmapFileSize, List.getElem?_range inside]
    change (bitmapByte bits (k / 8)).toNat.testBit (k % 8) = _
    rw [bitmapByte_testBit _ _ (by omega), show 8 * (k / 8) + k % 8 = k by omega]
  · have room := byteCnt_bounds bits.length
    rw [byteBit, List.getD_eq_getElem?_getD, List.getElem?_eq_none (by rw [bitmapBytes_length]; omega), Fs.bitmapTest,
      List.getD_eq_getElem?_getD, List.getElem?_eq_none (by omega)]
    exact Nat.zero_testBit _

theorem test_ofBytes (bitCnt : Nat) (bytes : List UInt8) (k : Nat) :
    Fs.bitmapTest (bitmapOfBytes bitCnt bytes) k = (decide (k < bitCnt) && byteBit bytes k) := by
  rw [Fs.bitmapTest, bitmapOfBytes, List.getD_eq_getElem?_getD, List.getElem?_map]
  by_cases inside : k < bitCnt
  · rw [List.getElem?_range inside, decide_eq_true inside, Bool.true_and]
    rfl
  · rw [List.getElem?_eq_none (by rw [List.length_range]; omega), decide_eq_false inside, Bool.false_and]
    rfl

theorem Shows.byteCnt (shows : Shows b bits) : 8 * b.bits.length = Fs.byteCnt bits.length := by
  rw [shows.size, elemCnt, Fs.byteCnt]

theorem Shows.elemBytes_eq (shows : Shows b bits) : elemBytes b.bits = bitmapBytes bits := by
  apply byteBit_ext
  · rw [elemBytes_length, shows.byteCnt, bitmapBytes_length]
  · intro k
    rw [byteBit_elemBytes, byteBit_bitmapBytes, shows.bit]

/-- The bytes of fewer than 2^32 bits have a size that is an `offset_t`. -/
theorem fileSize_eq {bitCnt : Nat} (small : bitCnt < 4294967296) : fileSize bitCnt = Fs.byteCnt bitCnt := by
  have bound := (byteCnt_bounds bitCnt).2
  exact Int.bmod_eq_of_le (by omega) (by omega)

theorem bitmapWrite_run (shows : Shows b bits) (small : bits.length < 4294967296) : bitmapWrite b = some (bitmapBytes bits, b) := by
  have current : (get : E Elems) b = some (b, b) := rfl
  rw [bitmapWrite, run_bind current, shows.elemBytes_eq, shows.bitCnt, fileSize_eq small, Int.toNat_natCast, ← bitmapBytes_length,
    List.take_length]
  rfl

theorem lastMask_bit (bitCnt : Nat) {i : Nat} (small : i < 64) : (lastMask bitCnt).getLsbD i = decide (bitCnt % 64 = 0 ∨ i < bitCnt % 64) := by
  rw [lastMask]
  by_cases whole : bitCnt % 64 = 0
  · rw [if_neg (fun differs => differs whole), BitVec.getLsbD_allOnes, decide_eq_decide]
    exact ⟨fun _ => .inl whole, fun _ => small⟩
  · have small' : bitCnt % 64 < 64 := Nat.mod_lt _ (by decide)
    rw [if_pos whole]
    generalize bitCnt % 64 = lastBits at whole small' ⊢
    have power : 2 ^ lastBits < 2 ^ 64 := Nat.pow_lt_pow_right (by decide) small'
    have positive : 0 < 2 ^ lastBits := Nat.two_pow_pos lastBits
    have number : ((1#64 <<< lastBits) - 1#64).toNat = 2 ^ lastBits - 1 := by
      rw [BitVec.toNat_sub, BitVec.toNat_shiftLeft, BitVec.toNat_one (by decide), Nat.one_shiftLeft, Nat.mod_eq_of_lt power]
      omega
    rw [← BitVec.testBit_toNat, number, Nat.testBit_two_pow_sub_one, decide_eq_decide]
    exact ⟨.inr, fun used => used.resolve_left whole⟩

/-- A read replaces as many bytes as the file has, and clears what is behind the last bit. -/
theorem bitmapRead_wp (shows : Shows b bits) (small : bits.length < 4294967296) (bytes : List UInt8) :
    Wp (bitmapRead bytes) (fun success b' => success = (bits.isEmpty || bytes.length == Fs.byteCnt bits.length) ∧
      Shows b' (bitmapOfBytes bits.length (bytes ++ (bitmapBytes bits).drop bytes.length))) b := by
  have length : (bitmapOfBytes bits.length (bytes ++ (bitmapBytes bits).drop bytes.length)).length = bits.length := by
    rw [bitmapOfBytes, List.length_map, List.length_range]
  rw [bitmapRead, wp_bind, wp_get]
  by_cases some : b.bitCnt > 0
  · have positive : 0 < bits.length := shows.bitCnt ▸ some
    have memory := shows.elemBytes_eq
    obtain ⟨bitCnt, size, bit, quiet⟩ := shows
    rw [memory, if_pos some, wp_bind, wp_set, wp_bind]
    have read := wordBit_elemsOfBytes b.bits.length (bytes ++ (bitmapBytes bits).drop bytes.length)
    have elems : (elemsOfBytes b.bits.length (bytes ++ (bitmapBytes bits).drop bytes.length)).length = elemCnt bits.length := by
      rw [elemsOfBytes, List.length_map, List.length_range, size]
    generalize elemsOfBytes b.bits.length (bytes ++ (bitmapBytes bits).drop bytes.length) = anew at read elems ⊢
    have last : elemCnt b.bitCnt - 1 < anew.length := by
      rw [elems, bitCnt, elemCnt, divRoundUp]
      omega
    refine .of_eq (readElem_run (b := { b with bits := anew }) last) ?_
    rw [wp_bind]
    refine .of_eq (writeElem_run (b := { b with bits := anew }) last _) ((wp_pure _).mpr ⟨?_, ?_, ?_, fun k => ?_, quiet⟩)
    · rw [bitCnt, fileSize_eq small, List.isEmpty_eq_false_iff.mpr (List.ne_nil_of_length_pos positive), Bool.false_or, Bool.eq_iff_iff,
        beq_iff_eq, beq_iff_eq, Int.natCast_inj]
    · rw [length]
      exact bitCnt
    · rw [length]
      exact List.length_set.trans elems
    · have masked : wordBit (anew.set (anew.length - 1) (anew.getD (anew.length - 1) 0 &&& lastMask bits.length)) k =
          (decide (k < bits.length) && wordBit anew k) :=
        wordBit_maskLast (by decide) elems positive (fun i small => lastMask_bit bits.length small) k
      rw [test_ofBytes]
      refine (show _ = _ from ?_).trans (masked.trans ?_)
      · rw [bitCnt, elems]
      · rw [read]
        by_cases within : k < bits.length
        · have inside : k < 64 * b.bits.length := by
            rw [size, elemCnt, divRoundUp]
            omega
          rw [decide_eq_true within, decide_eq_true inside, Bool.true_and, Bool.true_and]
        · rw [decide_eq_false within, Bool.false_and, Bool.false_and]
  · have none : bits = [] := List.eq_nil_of_length_eq_zero (by rw [← shows.bitCnt]; omega)
    subst none
    rw [if_neg some]
    exact (wp_pure _).mpr ⟨rfl, shows⟩

end Bytes

end Comp310.Fs.ElemBitmap
