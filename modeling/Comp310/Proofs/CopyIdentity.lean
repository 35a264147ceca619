import Comp310.Fs.CopyIn

/-! `copy_in` and then `copy_out` give a text file back as it was. -/

namespace Comp310.Proofs.CopyIdentity
open Comp310.Fs Comp310.Lib

variable {fs fs' : FileSystem} {state : Option (Addr × Dir)} {name : CString} {sector : Sector} {source : List UInt8}

/-- Room for the inode, for all bytes and the NUL after them, and for the entry of the directory. -/
structure Room (fs : FileSystem) (source : List UInt8) : Prop where
  whole : copyInSize (numFreeSectors fs) source.length = source.length
  format : source.length + 1 ≤ 8517120
  sectors : 1 + sectorsNeeded (bytesToSectors (source.length + 1)) + (rootShort fs).length ≤ freeCount fs
  entry : (36 * slotFor fs + 36 : Nat) ≤ 8517120

private theorem text_snoc (noNul : 0 ∉ source) : text (source ++ [0]) = source := by
  have inside (byte : UInt8) (member : byte ∈ source) : (byte != 0) = true := by
    rw [bne_iff_ne]
    intro zero
    exact noNul (zero ▸ member)
  rw [text, List.takeWhile_append_of_pos inside]
  simp

theorem copyIn_wp (running : Running fs none) (plain : PlainName name) (short : name.length ≤ 30)
    (absent : ∀ sector, ¬ Named fs name sector) (room : Room fs source) :
    Wp (copyIn name (some source)) (fun result fs' => result = 0 ∧ ∃ sector, CopiedIn fs fs' name sector (source ++ [0])) fs := by
  obtain ⟨whole, format, sectors, entry⟩ := room
  have worked_out : copyInSize (numFreeSectors fs) (offsetT source.length) = source.length := by
    rw [offsetT_eq (by omega) (by omega), whole]
  have copied := copyIn_stored running plain short absent entry worked_out (Nat.le_refl _) format sectors
  rwa [List.take_length] at copied

/-- A text file that is copied in and out again comes back as it was. -/
theorem copy_identity (running : Running fs none) (plain : PlainName name) (short : name.length ≤ 30)
    (absent : ∀ sector, ¬ Named fs name sector) (noNul : 0 ∉ source) (room : Room fs source) :
    ∃ middle final, copyIn name (some source) fs = some (0, middle) ∧ copyOut name true middle = some ((0, some source), final) ∧
      ∀ other, other ≠ name → ∀ sector, (Named final other sector ↔ Named fs other sector) ∧
        (Named fs other sector → contentOf final sector = contentOf fs sector) := by
  obtain ⟨_, middle, copied, rfl, sector, done⟩ := copyIn_wp running plain short absent room
  have named : Named middle name sector := (done.named name sector).mpr (.inr ⟨rfl, rfl⟩)
  obtain ⟨_, final, copied', rfl, looked, _⟩ := copyOut_wp done.running plain named true
  rw [if_pos rfl, done.bytes, text_snoc noNul] at copied'
  refine ⟨middle, final, copied, copied', fun other differs there => ⟨?_, fun named' => ?_⟩⟩
  · rw [looked.named, done.named]
    exact or_iff_left fun same => differs same.1
  · obtain ⟨_, _, nonzero, notRoot⟩ := running.volume.root.plain other there named'
    rw [looked.content notRoot]
    exact (done.files there named'.live nonzero notRoot).contentOf

theorem copy_identity_file : ∃ fs middle final, filesysInit smallDevice smallDevice_size true = some fs ∧
    copyIn [97] (some [72, 105]) fs = some (0, middle) ∧ copyOut [97] true middle = some ((0, some [72, 105]), final) := by
  obtain ⟨fs, ran, formatted, count⟩ := smallDevice_format
  have free : numFreeSectors fs = 325 := by rw [numFreeSectors, bitmapCount_all]; exact count
  obtain ⟨nothing, entry⟩ := formatted.rootShort
  have needed : sectorsNeeded (bytesToSectors (([72, 105] : List UInt8).length + 1)) = 1 := sectorsNeeded_eq (by decide)
  have room : Room fs [72, 105] := by
    refine ⟨?_, by decide, ?_, entry⟩
    · rw [free]
      decide
    · rw [needed, nothing, count]
      decide
  obtain ⟨middle, final, copied, copied', _⟩ := copy_identity formatted.running plain_a (by decide)
    (formatted.unnamed [97]) (by decide) room
  exact ⟨fs, middle, final, ran, copied, copied'⟩

/-- There are sectors for 16636 data and 131 index blocks, but a file that long the format does not allow. -/
theorem copy_too_long : ∃ fs middle final, filesysInit (Array.replicate 20000 zeros) (by simp) true = some fs ∧
    copyInSize (numFreeSectors fs) 8517120 = 8517120 ∧ 1 + (16636 + 131) ≤ freeCount fs ∧
    copyIn [97] (some (List.replicate 8517120 65)) fs = some (0, middle) ∧ copyOut [97] true middle = some ((0, some []), final) := by
  generalize source_eq : List.replicate 8517120 (65 : UInt8) = source
  have length : source.length = 8517120 := by rw [← source_eq, List.length_replicate]
  have map : byteCnt (20000 - 1) = 2504 := rfl
  have blocks : mapBlocks 20000 = 5 := by
    rw [mapBlocks, map]
    exact sectorsNeeded_eq (by decide)
  obtain ⟨fs, ran, formatted⟩ := filesysInit_format (by simp : (Array.replicate 20000 zeros).size < 2 ^ 32)
    (by rw [Array.size_replicate, Formattable, map, blocks, rootBlocks_eq]; decide)
  have count := formatted.count
  rw [Array.size_replicate, blocks, rootBlocks_eq] at count
  have free : numFreeSectors fs = 19921 := by rw [numFreeSectors, bitmapCount_all]; change freeCount fs = _; omega
  have whole : copyInSize (numFreeSectors fs) 8517120 = 8517120 := by
    rw [free]
    decide
  have needed : wanted (8517120 : Nat) = 16765 := by
    rw [wanted_eq (by decide), sectorsNeeded_eq (by decide)]
    rfl
  obtain ⟨_, fs₁, created, rfl, done⟩ := formatted.filesysCreate_wp plain_a (by decide)
    (show FileFits fs (8517120 : Nat) from ⟨by decide, by decide, by rw [needed]; omega⟩)
  have returned : fsutilCreate [97] 8517120 fs = some (1, fs₁) := by
    rw [fsutilCreate, if_neg (by decide)]
    exact run_bind created _
  have running := done.running formatted.running
  have pos : posOf fs₁ [97] = 0 := by
    rw [posOf, done.keeps.fileTable, formatted.fileTable]
    rfl
  obtain ⟨sector, done⟩ := done.done rfl
  have named : Named fs₁ [97] sector := (done.named [97] sector).mpr (.inr ⟨rfl, rfl⟩)
  have longer : (source ++ [0]).length = 8517121 := by rw [List.length_append, length]; rfl
  obtain ⟨written, fs₂, wrote, ⟨_, missing, _⟩ | ⟨there, ok, fits, _, done', _⟩⟩ :=
    fsutilWrite_wp running plain_a (show 0 < (source ++ [0]).length by omega) (by omega) (by omega)
  · exact absurd named (missing sector)
  obtain rfl := running.volume.root.functional named done'.named
  obtain rfl : ok = false := by
    cases ok with
    | false => rfl
    | true =>
      have limit := (fits.mp rfl).1
      rw [pos, longer] at limit
      omega
  have content : contentOf fs₂ sector = List.replicate 8517120 0 :=
    (done'.unchanged running).contentOf.trans done.fresh.contentOf
  have named₂ : Named fs₂ [97] sector := named_congr done'.slots ▸ named
  obtain ⟨_, final, copied, rfl, _⟩ := copyOut_wp done'.running plain_a named₂ true
  rw [if_pos rfl, content] at copied
  refine ⟨fs, fs₂, final, ran, whole, by omega, ?_, copied⟩
  have start : fsutilFreespace fs = some (numFreeSectors fs, fs) := rfl
  have buffer : hostBuffer source (8517120 : Int).toNat = source := by
    rw [show (8517120 : Int).toNat = source.length from length.symm, hostBuffer_eq (Nat.le_refl _), List.take_length]
  rw [copyIn, run_bind start, length, show offsetT (8517120 : Nat) = 8517120 from by decide, whole]
  rw [show ((8517120 : Int) % 4294967296).toNat = 8517120 from rfl, run_bind returned, if_neg (by decide), buffer]
  exact run_bind wrote _

end Comp310.Proofs.CopyIdentity
