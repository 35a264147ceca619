import Comp310.Fs.Bitmap
import Comp310.Lib.BitWords
import Comp310.Lib.Wp

/-! The elements in which a bitmap keeps its bits (bitmap.c). An access outside of them is a
fault; an assertion that fails prints a panic and is passed. `malloc` does not fail. -/

namespace Comp310.Fs.ElemBitmap
open Comp310.Lib

/-- `elem_type`. -/
abbrev ElemType := BitVec 64

/-- `struct bitmap`, and the number of panics so far. -/
structure Elems where
  bitCnt : Nat
  bits : List ElemType
  panics : Nat
  deriving DecidableEq

abbrev E := Prog Elems

def elemIdx (bitIdx : Nat) : Nat := bitIdx / 64

def bitMask (bitIdx : Nat) : ElemType := 1#64 <<< (bitIdx % 64)

def elemCnt (bitCnt : Nat) : Nat := divRoundUp bitCnt 64

/-- The bits that are used in the last element. -/
def lastMask (bitCnt : Nat) : ElemType :=
  let lastBits := bitCnt % 64
  if lastBits ≠ 0 then (1#64 <<< lastBits) - 1#64 else BitVec.allOnes 64

def assert (condition : Elems → Bool) : E PUnit := modify fun b => if condition b then b else { b with panics := b.panics + 1 }

def readElem (idx : Nat) : E ElemType := fun b => (b.bits[idx]?).map fun elem => (elem, b)

def writeElem (idx : Nat) (elem : ElemType) : E PUnit := fun b =>
  if idx < b.bits.length then some (⟨⟩, { b with bits := b.bits.set idx elem }) else none

def bitmapMark (bitIdx : Nat) : E PUnit := do
  let elem ← readElem (elemIdx bitIdx)
  writeElem (elemIdx bitIdx) (elem ||| bitMask bitIdx)

def bitmapReset (bitIdx : Nat) : E PUnit := do
  let elem ← readElem (elemIdx bitIdx)
  writeElem (elemIdx bitIdx) (elem &&& ~~~bitMask bitIdx)

def bitmapFlip (bitIdx : Nat) : E PUnit := do
  let elem ← readElem (elemIdx bitIdx)
  writeElem (elemIdx bitIdx) (elem ^^^ bitMask bitIdx)

def bitmapSet (idx : Nat) (value : Bool) : E PUnit := do
  assert fun b => decide (idx < b.bitCnt)
  if value then bitmapMark idx else bitmapReset idx

def bitmapTest (idx : Nat) : E Bool := do
  assert fun b => decide (idx < b.bitCnt)
  let elem ← readElem (elemIdx idx)
  pure ((elem &&& bitMask idx) != 0#64)

def setLoop (value : Bool) : Nat → Nat → E PUnit
  | 0, _ => pure ⟨⟩
  | left + 1, idx => do
    bitmapSet idx value
    setLoop value left (idx + 1)

/-- The assertions on a range of bits. -/
def assertRange (start cnt : Nat) : E PUnit := do
  assert fun b => decide (start ≤ b.bitCnt)
  assert fun b => decide (start + cnt ≤ b.bitCnt)

def bitmapSetMultiple (start cnt : Nat) (value : Bool) : E PUnit := do
  assertRange start cnt
  setLoop value cnt start

def bitmapSetAll (value : Bool) : E PUnit := do
  let b ← get
  bitmapSetMultiple 0 b.bitCnt value

def countLoop (value : Bool) : Nat → Nat → Nat → E Nat
  | 0, _, valueCnt => pure valueCnt
  | left + 1, idx, valueCnt => do
    let bit ← bitmapTest idx
    countLoop value left (idx + 1) (if bit = value then valueCnt + 1 else valueCnt)

def bitmapCount (start cnt : Nat) (value : Bool) : E Nat := do
  assertRange start cnt
  countLoop value cnt start 0

def containsLoop (value : Bool) : Nat → Nat → E Bool
  | 0, _ => pure false
  | left + 1, idx => do
    let bit ← bitmapTest idx
    if bit = value then pure true else containsLoop value left (idx + 1)

def bitmapContains (start cnt : Nat) (value : Bool) : E Bool := do
  assertRange start cnt
  containsLoop value cnt start

def bitmapAny (start cnt : Nat) : E Bool := bitmapContains start cnt true

def bitmapNone (start cnt : Nat) : E Bool := (!·) <$> bitmapContains start cnt true

def bitmapAll (start cnt : Nat) : E Bool := (!·) <$> bitmapContains start cnt false

/-- BITMAP_ERROR: the greatest number of 32 bits, though an index has 64. -/
def bitmapError : Nat := 4294967295

def scanLoop (cnt : Nat) (value : Bool) : Nat → Nat → E Nat
  | 0, _ => pure bitmapError
  | left + 1, i => do
    let other ← bitmapContains i cnt (!value)
    if other then scanLoop cnt value left (i + 1) else pure i

def bitmapScan (start cnt : Nat) (value : Bool) : E Nat := do
  assert fun b => decide (start ≤ b.bitCnt)
  let b ← get
  if cnt ≤ b.bitCnt then scanLoop cnt value (b.bitCnt - cnt + 1 - start) start else pure bitmapError

def bitmapScanAndFlip (start cnt : Nat) (value : Bool) : E Nat := do
  let idx ← bitmapScan start cnt value
  if idx ≠ bitmapError then do
    bitmapSetMultiple idx cnt (!value)
    pure idx
  else pure idx

/-- The elements as they lie in memory, the lowest byte of each first. -/
def elemBytes (bits : List ElemType) : List UInt8 :=
  (List.range (8 * bits.length)).map fun i => UInt8.ofBitVec ((bits.getD (i / 8) 0).extractLsb' (8 * (i % 8)) 8)

def elemOfBytes : List UInt8 → ElemType
  | [] => 0#64
  | byte :: rest => (elemOfBytes rest <<< 8) ||| byte.toBitVec.setWidth 64

/-- The elements that lie in some memory. -/
def elemsOfBytes (cnt : Nat) (bytes : List UInt8) : List ElemType :=
  (List.range cnt).map fun idx => elemOfBytes ((bytes.drop (8 * idx)).take 8)

def bitmapCreate (bitCnt : Nat) : E PUnit := do
  modify fun b => { b with bitCnt, bits := List.replicate (elemCnt bitCnt) 0 }
  bitmapSetAll false

/-- The number of bytes in the file, in an `offset_t`. -/
def fileSize (bitCnt : Nat) : Int := Int.bmod (byteCnt bitCnt) 4294967296

/-- `bitmap_read`, where `file_read_at` reads the given bytes: at most as many as it is asked for. -/
def bitmapRead (bytes : List UInt8) : E Bool := do
  let b ← get
  if b.bitCnt > 0 then do
    let size := fileSize b.bitCnt
    set { b with bits := elemsOfBytes b.bits.length (bytes ++ (elemBytes b.bits).drop bytes.length) }
    let elem ← readElem (elemCnt b.bitCnt - 1)
    writeElem (elemCnt b.bitCnt - 1) (elem &&& lastMask b.bitCnt)
    pure ((bytes.length : Int) == size)
  else pure true

/-- The bytes that `bitmap_write` hands to `file_write_at`. -/
def bitmapWrite : E (List UInt8) := do
  let b ← get
  pure ((elemBytes b.bits).take (fileSize b.bitCnt).toNat)

end Comp310.Fs.ElemBitmap
