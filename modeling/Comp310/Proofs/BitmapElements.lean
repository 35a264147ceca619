import Comp310.Fs.ElemBits

/-! A bitmap's elements behave as the list of its bits, in memory and in the file. -/

namespace Comp310.Proofs.BitmapElements
open Comp310.Lib Comp310.Fs

/-- The calls of bitmap.h on one bitmap. `read` is given what the file holds, `write` answers with what the file is to hold. -/
inductive BitCall where
  | set (idx : Nat) (value : Bool)
  | mark (idx : Nat)
  | reset (idx : Nat)
  | flip (idx : Nat)
  | test (idx : Nat)
  | setAll (value : Bool)
  | setMultiple (start cnt : Nat) (value : Bool)
  | count (start cnt : Nat) (value : Bool)
  | contains (start cnt : Nat) (value : Bool)
  | any (start cnt : Nat)
  | none (start cnt : Nat)
  | all (start cnt : Nat)
  | scan (start cnt : Nat) (value : Bool)
  | scanAndFlip (start cnt : Nat) (value : Bool)
  | read (bytes : List UInt8)
  | write

inductive BitReply where
  | done
  | truth (answer : Bool)
  | number (cnt : Nat)
  | bytes (bytes : List UInt8)
  deriving DecidableEq

def BitCall.run : BitCall → ElemBitmap.E BitReply
  | set idx value => do
    ElemBitmap.bitmapSet idx value
    pure .done
  | mark idx => do
    ElemBitmap.bitmapMark idx
    pure .done
  | reset idx => do
    ElemBitmap.bitmapReset idx
    pure .done
  | flip idx => do
    ElemBitmap.bitmapFlip idx
    pure .done
  | test idx => .truth <$> ElemBitmap.bitmapTest idx
  | setAll value => do
    ElemBitmap.bitmapSetAll value
    pure .done
  | setMultiple start cnt value => do
    ElemBitmap.bitmapSetMultiple start cnt value
    pure .done
  | count start cnt value => .number <$> ElemBitmap.bitmapCount start cnt value
  | contains start cnt value => .truth <$> ElemBitmap.bitmapContains start cnt value
  | any start cnt => .truth <$> ElemBitmap.bitmapAny start cnt
  | none start cnt => .truth <$> ElemBitmap.bitmapNone start cnt
  | all start cnt => .truth <$> ElemBitmap.bitmapAll start cnt
  | scan start cnt value => .number <$> ElemBitmap.bitmapScan start cnt value
  | scanAndFlip start cnt value => .number <$> ElemBitmap.bitmapScanAndFlip start cnt value
  | read bytes => .truth <$> ElemBitmap.bitmapRead bytes
  | write => .bytes <$> ElemBitmap.bitmapWrite

/-- The bits that a call needs to be there. -/
def BitCall.Allowed (bits : Bitmap) : BitCall → Prop
  | set idx _ | mark idx | reset idx | flip idx | test idx => idx < bits.length
  | setAll _ | read _ | write => True
  | setMultiple start cnt _ | count start cnt _ | contains start cnt _ | any start cnt | none start cnt | all start cnt => start + cnt ≤ bits.length
  | scan start _ _ | scanAndFlip start _ _ => start ≤ bits.length

/-- The bits after a call. A file that is too short leaves the rest of them as they are. -/
def BitCall.after (bits : Bitmap) : BitCall → Bitmap
  | set idx value => bits.set idx value
  | mark idx => bits.set idx true
  | reset idx => bits.set idx false
  | flip idx => bits.set idx !bitmapTest bits idx
  | setAll value => bitmapSetMultiple bits 0 bits.length value
  | setMultiple start cnt value => bitmapSetMultiple bits start cnt value
  | scanAndFlip start cnt value => ((bitmapScanAndFlip bits start cnt value).map (·.2)).getD bits
  | read bytes => bitmapOfBytes bits.length (bytes ++ (bitmapBytes bits).drop bytes.length)
  | test _ | count .. | contains .. | any .. | none .. | all .. | scan .. | write => bits

def BitCall.reply (bits : Bitmap) : BitCall → BitReply
  | set .. | mark _ | reset _ | flip _ | setAll _ | setMultiple .. => .done
  | test idx => .truth (bitmapTest bits idx)
  | count start cnt value => .number (bitmapCount bits start cnt value)
  | contains start cnt value => .truth (bitmapContains bits start cnt value)
  | any start cnt => .truth (bitmapContains bits start cnt true)
  | none start cnt => .truth (!bitmapContains bits start cnt true)
  | all start cnt => .truth (bitmapAll bits start cnt)
  | scan start cnt value => .number ((bitmapScan bits start cnt value).getD ElemBitmap.bitmapError)
  | scanAndFlip start cnt value => .number (((bitmapScanAndFlip bits start cnt value).map (·.1)).getD ElemBitmap.bitmapError)
  | read bytes => .truth (bits.isEmpty || bytes.length == byteCnt bits.length)
  | write => .bytes (bitmapBytes bits)

def runCalls : List BitCall → ElemBitmap.E (List BitReply)
  | [] => pure []
  | call :: calls => do
    let reply ← call.run
    let replies ← runCalls calls
    pure (reply :: replies)

def AllAllowed : Bitmap → List BitCall → Prop
  | _, [] => True
  | bits, call :: calls => call.Allowed bits ∧ AllAllowed (call.after bits) calls

def replies : Bitmap → List BitCall → List BitReply
  | _, [] => []
  | bits, call :: calls => call.reply bits :: replies (call.after bits) calls

def bitsAfter : Bitmap → List BitCall → Bitmap
  | bits, [] => bits
  | bits, call :: calls => bitsAfter (call.after bits) calls

variable {b : ElemBitmap.Elems} {bits : Bitmap}

open ElemBitmap (Shows)

theorem after_length (bits : Bitmap) (call : BitCall) : (call.after bits).length = bits.length := by
  cases call with
  | set idx value => exact List.length_set
  | mark idx => exact List.length_set
  | reset idx => exact List.length_set
  | flip idx => exact List.length_set
  | setAll value => exact ElemBitmap.setMultiple_length bits 0 bits.length value
  | setMultiple start cnt value => exact ElemBitmap.setMultiple_length bits start cnt value
  | scanAndFlip start cnt value =>
    rw [BitCall.after, bitmapScanAndFlip]
    cases bitmapScan bits start cnt value with
    | none => rfl
    | some idx => exact ElemBitmap.setMultiple_length bits idx cnt (!value)
  | read bytes =>
    rw [BitCall.after, bitmapOfBytes, List.length_map, List.length_range]
  | _ => rfl

theorem bitsAfter_length (bits : Bitmap) (calls : List BitCall) : (bitsAfter bits calls).length = bits.length := by
  induction calls generalizing bits with
  | nil => rfl
  | cons call calls ih => rw [bitsAfter, ih, after_length]

theorem call_shows (shows : Shows b bits) (small : bits.length < 4294967296) (call : BitCall) (allowed : call.Allowed bits) :
    Wp call.run (fun reply b' => reply = call.reply bits ∧ Shows b' (call.after bits)) b := by
  cases call with
  | set idx value =>
    rw [BitCall.run, wp_bind]
    exact (ElemBitmap.bitmapSet_wp shows allowed value).mono fun _ _ shows => (wp_pure _).mpr ⟨rfl, shows⟩
  | mark idx =>
    rw [BitCall.run, wp_bind]
    exact (ElemBitmap.bitmapMark_wp shows allowed).mono fun _ _ shows => (wp_pure _).mpr ⟨rfl, shows⟩
  | reset idx =>
    rw [BitCall.run, wp_bind]
    exact (ElemBitmap.bitmapReset_wp shows allowed).mono fun _ _ shows => (wp_pure _).mpr ⟨rfl, shows⟩
  | flip idx =>
    rw [BitCall.run, wp_bind]
    exact (ElemBitmap.bitmapFlip_wp shows allowed).mono fun _ _ shows => (wp_pure _).mpr ⟨rfl, shows⟩
  | test idx => exact wp_map.mpr (.of_eq (ElemBitmap.bitmapTest_run shows allowed) ⟨rfl, shows⟩)
  | setAll value =>
    rw [BitCall.run, wp_bind]
    exact (ElemBitmap.bitmapSetAll_wp shows value).mono fun _ _ shows => (wp_pure _).mpr ⟨rfl, shows⟩
  | setMultiple start cnt value =>
    rw [BitCall.run, wp_bind]
    exact (ElemBitmap.bitmapSetMultiple_wp shows allowed).mono fun _ _ shows => (wp_pure _).mpr ⟨rfl, shows⟩
  | count start cnt value => exact wp_map.mpr (.of_eq (ElemBitmap.bitmapCount_run shows allowed) ⟨rfl, shows⟩)
  | contains start cnt value => exact wp_map.mpr (.of_eq (ElemBitmap.bitmapContains_run shows allowed) ⟨rfl, shows⟩)
  | any start cnt => exact wp_map.mpr (.of_eq (ElemBitmap.bitmapContains_run shows allowed) ⟨rfl, shows⟩)
  | none start cnt => exact wp_map.mpr (wp_map.mpr (.of_eq (ElemBitmap.bitmapContains_run shows allowed) ⟨rfl, shows⟩))
  | all start cnt => exact wp_map.mpr (wp_map.mpr (.of_eq (ElemBitmap.bitmapContains_run shows allowed) ⟨rfl, shows⟩))
  | scan start cnt value => exact wp_map.mpr (.of_eq (ElemBitmap.bitmapScan_run shows allowed) ⟨rfl, shows⟩)
  | scanAndFlip start cnt value =>
    exact wp_map.mpr ((ElemBitmap.bitmapScanAndFlip_wp shows small allowed).mono fun _ _ result => ⟨congrArg _ result.1, result.2⟩)
  | read bytes => exact wp_map.mpr ((ElemBitmap.bitmapRead_wp shows small bytes).mono fun _ _ result => ⟨congrArg _ result.1, result.2⟩)
  | write => exact wp_map.mpr (.of_eq (ElemBitmap.bitmapWrite_run shows small) ⟨rfl, shows⟩)

theorem calls_show (shows : Shows b bits) (small : bits.length < 4294967296) (calls : List BitCall) (allowed : AllAllowed bits calls) :
    Wp (runCalls calls) (fun replies' b' => replies' = replies bits calls ∧ Shows b' (bitsAfter bits calls)) b := by
  induction calls generalizing b bits with
  | nil => exact (wp_pure _).mpr ⟨rfl, shows⟩
  | cons call calls ih =>
    rw [runCalls, wp_bind]
    refine (call_shows shows small call allowed.1).mono ?_
    rintro _ middle ⟨rfl, shows⟩
    rw [wp_bind]
    refine (ih shows (by rwa [after_length]) allowed.2).mono ?_
    rintro _ after ⟨rfl, shows⟩
    exact (wp_pure _).mpr ⟨rfl, shows⟩

/-- From `bitmap_create` of fewer bits than BITMAP_ERROR counts on: every call answers as the list of bits says, no assertion fails, and behind the last bit
the last element stays clear. -/
theorem elements_are_bits {bitCnt : Nat} (small : bitCnt < 4294967296) (calls : List BitCall) (allowed : AllAllowed (bitmapCreate bitCnt) calls) (quiet : b.panics = 0) :
    ∃ b', (do ElemBitmap.bitmapCreate bitCnt; runCalls calls) b = some (replies (bitmapCreate bitCnt) calls, b') ∧ b'.panics = 0 ∧
      b'.bitCnt = bitCnt ∧ ∀ k, wordBit b'.bits k = bitmapTest (bitsAfter (bitmapCreate bitCnt) calls) k := by
  obtain ⟨_, middle, made, shows⟩ := ElemBitmap.bitmapCreate_wp quiet bitCnt
  have length : (bitmapCreate bitCnt).length = bitCnt := List.length_replicate
  obtain ⟨_, after, ran, rfl, shows⟩ := calls_show shows (by rwa [length]) calls allowed
  refine ⟨after, ?_, shows.quiet, ?_, shows.bit⟩
  · rw [run_bind made, ran]
  · rw [shows.bitCnt, bitsAfter_length, length]

theorem elements_are_bits_five : ∃ b', (do ElemBitmap.bitmapCreate 70; runCalls [.mark 3, .scanAndFlip 2 65 false, .flip 0, .write]) ⟨0, [], 0⟩ =
    some (replies (bitmapCreate 70) [.mark 3, .scanAndFlip 2 65 false, .flip 0, .write], b') ∧ b'.panics = 0 ∧ b'.bitCnt = 70 ∧
    ∀ k, wordBit b'.bits k = bitmapTest (bitsAfter (bitmapCreate 70) [.mark 3, .scanAndFlip 2 65 false, .flip 0, .write]) k := by
  refine elements_are_bits (show 70 < 4294967296 by decide) [.mark 3, .scanAndFlip 2 65 false, .flip 0, .write] ⟨?_, ?_, ?_, trivial, trivial⟩ rfl
  · exact (by decide : 3 < (bitmapCreate 70).length)
  · exact (by decide : 2 ≤ (bitmapCreate 70).length)
  · rw [BitCall.Allowed, after_length, after_length]
    decide

end Comp310.Proofs.BitmapElements
