import Mathlib.Algebra.Ring.Nat

/-! Bits that are kept in words of any width, bit 0 of each word first. -/

namespace Comp310.Lib
variable {w : Nat}

/-- Bit `k` of the words. What is behind them is clear. -/
def wordBit (words : List (BitVec w)) (k : Nat) : Bool := (words.getD (k / w) 0).getLsbD (k % w)

/-- The bit of a position in its word. -/
def maskOf (w k : Nat) : BitVec w := 1#w <<< (k % w)

variable {words words' : List (BitVec w)} {word : BitVec w} {k idx index : Nat}

theorem maskOf_bit (positive : 0 < w) (idx i : Nat) : (maskOf w idx).getLsbD i = decide (i = idx % w) := by
  have inside := Nat.mod_lt idx positive
  rw [maskOf, ← BitVec.twoPow_eq, BitVec.getLsbD_twoPow, decide_eq_true inside, Bool.true_and]
  exact decide_eq_decide.mpr eq_comm

theorem getD_set (inside : index < words.length) (word : BitVec w) (i : Nat) :
    (words.set index word).getD i 0 = if i = index then word else words.getD i 0 := by
  rw [List.getD_eq_getElem?_getD, List.getD_eq_getElem?_getD, List.getElem?_set]
  by_cases same : index = i
  · subst same
    rw [if_pos rfl, if_pos inside, if_pos rfl]
    rfl
  · rw [if_neg same, if_neg (Ne.symm same)]

/-- The positions are different when the words or the places in them are. -/
theorem place_ne (differs : k ≠ idx) (same : k / w = idx / w) : k % w ≠ idx % w := by
  intro rest
  apply differs
  rw [← Nat.div_add_mod k w, ← Nat.div_add_mod idx w, same, rest]

theorem wordBit_set (inside : idx / w < words.length) (value : Bool) (same : word.getLsbD (idx % w) = value)
    (others : ∀ i ≠ idx % w, word.getLsbD i = (words.getD (idx / w) 0).getLsbD i) (k : Nat) :
    wordBit (words.set (idx / w) word) k = if k = idx then value else wordBit words k := by
  rw [wordBit, wordBit, getD_set inside]
  by_cases here : k = idx
  · rw [here, if_pos rfl, if_pos rfl, same]
  · rw [if_neg here]
    by_cases there : k / w = idx / w
    · rw [if_pos there, others _ (place_ne here there), there]
    · rw [if_neg there]

section Writing
variable (positive : 0 < w) (inside : idx / w < words.length)
include positive inside

theorem wordBit_or (k : Nat) : wordBit (words.set (idx / w) (words.getD (idx / w) 0 ||| maskOf w idx)) k =
    if k = idx then true else wordBit words k := by
  refine wordBit_set inside true ?_ (fun i other => ?_) k
  · rw [BitVec.getLsbD_or, maskOf_bit positive, decide_eq_true rfl, Bool.or_true]
  · rw [BitVec.getLsbD_or, maskOf_bit positive, decide_eq_false other, Bool.or_false]

theorem wordBit_andNot (k : Nat) : wordBit (words.set (idx / w) (words.getD (idx / w) 0 &&& ~~~maskOf w idx)) k =
    if k = idx then false else wordBit words k := by
  refine wordBit_set inside false ?_ (fun i other => ?_) k
  · rw [BitVec.getLsbD_and, BitVec.getLsbD_not, maskOf_bit positive, decide_eq_true rfl, Bool.not_true, Bool.and_false, Bool.and_false]
  · rw [BitVec.getLsbD_and, BitVec.getLsbD_not, maskOf_bit positive, decide_eq_false other]
    by_cases small : i < w
    · rw [decide_eq_true small, Bool.true_and, Bool.not_false, Bool.and_true]
    · rw [BitVec.getLsbD_of_ge _ _ (Nat.le_of_not_lt small), Bool.false_and]

theorem wordBit_xor (k : Nat) : wordBit (words.set (idx / w) (words.getD (idx / w) 0 ^^^ maskOf w idx)) k =
    if k = idx then !wordBit words idx else wordBit words k := by
  refine wordBit_set inside _ ?_ (fun i other => ?_) k
  · rw [BitVec.getLsbD_xor, maskOf_bit positive, decide_eq_true rfl, Bool.xor_true, wordBit]
  · rw [BitVec.getLsbD_xor, maskOf_bit positive, decide_eq_false other, Bool.xor_false]

end Writing

theorem and_mask_ne (positive : 0 < w) (word : BitVec w) (idx : Nat) : ((word &&& maskOf w idx) != 0#w) = word.getLsbD (idx % w) := by
  cases held : word.getLsbD (idx % w) with
  | true =>
    rw [bne_iff_ne]
    intro zero
    have bit := congrArg (BitVec.getLsbD · (idx % w)) zero
    rw [BitVec.getLsbD_and, maskOf_bit positive, held, decide_eq_true rfl, BitVec.getLsbD_zero] at bit
    cases bit
  | false =>
    rw [bne_eq_false_iff_eq]
    apply BitVec.eq_of_getLsbD_eq
    intro i _
    rw [BitVec.getLsbD_and, maskOf_bit positive, BitVec.getLsbD_zero]
    by_cases same : i = idx % w
    · rw [same, held, Bool.false_and]
    · rw [decide_eq_false same, Bool.and_false]

theorem wordBit_beyond (positive : 0 < w) (beyond : w * words.length ≤ k) : wordBit words k = false := by
  have outside : words.length ≤ k / w := (Nat.le_div_iff_mul_le positive).mpr (Nat.mul_comm w _ ▸ beyond)
  rw [wordBit, List.getD_eq_getElem?_getD, List.getElem?_eq_none outside]
  exact BitVec.getLsbD_zero

theorem wordBit_zero (n k : Nat) : wordBit (List.replicate n (0 : BitVec w)) k = false := by
  rw [wordBit, List.getD_eq_getElem?_getD, List.getElem?_replicate]
  split <;> exact BitVec.getLsbD_zero

/-- In the word of the last of `n` bits, those that are used. -/
theorem used_iff (positive : 0 < w) {n : Nat} (some : 0 < n) (last : k / w = (n - 1) / w) : n % w = 0 ∨ k % w < n % w ↔ k < n := by
  have whole := Nat.div_add_mod (n - 1) w
  have mine := Nat.div_add_mod k w
  have small := Nat.mod_lt (n - 1) positive
  have small' := Nat.mod_lt k positive
  rw [last] at mine
  by_cases full : (n - 1) % w + 1 = w
  · have none : n % w = 0 := by
      have length : n = w * ((n - 1) / w + 1) := by
        rw [Nat.mul_add, Nat.mul_one]
        omega
      rw [length, Nat.mul_mod_right]
    omega
  · have rest : n % w = (n - 1) % w + 1 := by
      have length : n = w * ((n - 1) / w) + ((n - 1) % w + 1) := by omega
      calc n % w = (w * ((n - 1) / w) + ((n - 1) % w + 1)) % w := congrArg (· % w) length
        _ = ((n - 1) % w + 1) % w := Nat.mul_add_mod ..
        _ = (n - 1) % w + 1 := Nat.mod_eq_of_lt (by omega)
    omega

/-- The bits from position `n` on are cleared by a mask for the last word. -/
theorem wordBit_maskLast (positive : 0 < w) {n : Nat} {mask : BitVec w} (length : words.length = (n + w - 1) / w) (some : 0 < n)
    (bits : ∀ i < w, mask.getLsbD i = decide (n % w = 0 ∨ i < n % w)) (k : Nat) :
    wordBit (words.set (words.length - 1) (words.getD (words.length - 1) 0 &&& mask)) k = (decide (k < n) && wordBit words k) := by
  have filled : words.length = (n - 1) / w + 1 := by
    rw [length, show n + w - 1 = n - 1 + w by omega, Nat.add_div_right _ positive]
  have last : words.length - 1 = (n - 1) / w := by
    rw [filled, Nat.add_sub_cancel]
  have inside : (n - 1) / w < words.length := by
    rw [filled]
    exact Nat.lt_succ_self _
  rw [wordBit, wordBit, last, getD_set inside]
  by_cases there : k / w = (n - 1) / w
  · rw [if_pos there, BitVec.getLsbD_and, bits _ (Nat.mod_lt k positive), decide_eq_decide.mpr (used_iff positive some there), there, Bool.and_comm]
  · rw [if_neg there]
    by_cases before : k / w < (n - 1) / w
    · have within : k < n := by
        have order := Nat.lt_of_div_lt_div before
        omega
      rw [decide_eq_true within, Bool.true_and]
    · have beyond : words.length ≤ k / w := by
        rw [filled]
        exact Nat.lt_of_le_of_ne (Nat.le_of_not_lt before) (Ne.symm there)
      have clear : (words.getD (k / w) 0).getLsbD (k % w) = false := by
        rw [List.getD_eq_getElem?_getD, List.getElem?_eq_none beyond]
        exact BitVec.getLsbD_zero
      rw [clear, Bool.and_false]

end Comp310.Lib
