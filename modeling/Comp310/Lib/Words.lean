import Mathlib.Algebra.Ring.Nat

/-! Little-endian 32-bit words in a byte vector. -/

namespace Comp310.Lib

/-- Byte `index` of a word, the least significant first. -/
def wordByte (word : UInt32) (index : Nat) : UInt8 := UInt8.ofNat (word.toNat / 256 ^ index)

def joinBytes (b₀ b₁ b₂ b₃ : UInt8) : UInt32 :=
  UInt32.ofNat (b₀.toNat + 256 * b₁.toNat + 65536 * b₂.toNat + 16777216 * b₃.toNat)

theorem joinBytes_wordByte (word : UInt32) :
    joinBytes (wordByte word 0) (wordByte word 1) (wordByte word 2) (wordByte word 3) = word := by
  apply UInt32.toNat_inj.mp
  have bound := word.toNat_lt
  simp only [joinBytes, wordByte, UInt32.toNat_ofNat', UInt8.toNat_ofNat']
  omega

@[simp] theorem joinBytes_zero : joinBytes 0 0 0 0 = 0 := by decide

def ofWords (words : Vector UInt32 n) : Vector UInt8 (4 * n) :=
  Vector.ofFn fun index => wordByte words[index.val / 4] (index.val % 4)

def toWords (bytes : Vector UInt8 (4 * n)) : Vector UInt32 n :=
  Vector.ofFn fun index =>
    joinBytes bytes[4 * index.val] bytes[4 * index.val + 1] bytes[4 * index.val + 2] bytes[4 * index.val + 3]

@[simp] theorem toWords_ofWords (words : Vector UInt32 n) : toWords (ofWords words) = words := by
  apply Vector.ext
  intro index inside
  have place (offset : Nat) (small : offset < 4) : (4 * index + offset) / 4 = index := by omega
  have rest (offset : Nat) (small : offset < 4) : (4 * index + offset) % 4 = offset := by omega
  simp only [toWords, ofWords, Vector.getElem_ofFn, place, rest, Nat.lt_add_one, Nat.reduceLT,
    Nat.mul_div_cancel_left index (by decide : 0 < 4), Nat.mul_mod_right]
  exact joinBytes_wordByte words[index]

@[simp] theorem toWords_zero : toWords (Vector.replicate (4 * n) 0) = Vector.replicate n 0 := by
  apply Vector.ext
  intro index inside
  simp [toWords]

/-- A signed 32-bit number and the word that stores it. -/
def ofSigned (value : Int) : UInt32 := UInt32.ofNat (value % 4294967296).toNat

def toSigned (word : UInt32) : Int := Int.bmod word.toNat 4294967296

theorem toSigned_ofSigned {value : Int} (low : -2147483648 ≤ value) (high : value < 2147483648) :
    toSigned (ofSigned value) = value := by
  have stored : (ofSigned value).toNat = (value % 4294967296).toNat := by
    simp only [ofSigned, UInt32.toNat_ofNat']
    omega
  have wrapped (x : Int) (nonneg : 0 ≤ x) (small : x < 4294967296) :
      Int.bmod x 4294967296 = if x < 2147483648 then x else x - 4294967296 := by
    rw [Int.bmod_def, Int.cast_ofNat_Int, Int.emod_eq_of_lt nonneg small]
    omega
  unfold toSigned
  rw [stored, wrapped _ (by omega) (by omega)]
  omega

end Comp310.Lib
