import Comp310.Lib.Bytes
import Comp310.Fs.Needed
import Comp310.Fs.Shell

/-! What `copy_in` stores, and for how many free sectors. It makes the file of the size that it has worked out, and
then writes one byte more. -/

namespace Comp310.Fs
open Comp310.Lib

/-- What `copy_in` makes of a file for which there is room. -/
structure CopiedIn (fs fs' : FileSystem) (name : CString) (sector : Sector) (bytes : List UInt8) : Prop where
  running : Running fs' none
  named : ∀ other there, Named fs' other there ↔ Named fs other there ∨ (other = name ∧ there = sector)
  bytes : contentOf fs' sector = bytes
  files : ∀ other, Live fs other → other ≠ 0 → other ≠ 1 → Alike fs fs' other

variable {fs fs' : FileSystem} {name : CString} {sector : Sector} {source : List UInt8} {size : Nat}

private theorem terminated_snoc : terminated (source ++ [0]) = source ++ [0] := by
  rw [terminated, List.length_append, List.length_singleton, Nat.add_sub_cancel, List.set_append_right _ _ (Nat.le_refl _),
    Nat.sub_self]
  rfl

private theorem needed_more (size : Nat) (format : size + 1 ≤ 8517120) : bytesToSectors (size + 1 : Nat) ≤ 16635 ∧
    sectorsNeeded (bytesToSectors size) ≤ sectorsNeeded (bytesToSectors (size + 1 : Nat)) := by
  have more := bytesToSectors_eq (Int.natCast_nonneg (size + 1)) (by omega)
  have fewer := bytesToSectors_eq (Int.natCast_nonneg size) (by omega)
  have limit : bytesToSectors (size + 1 : Nat) ≤ 16635 := by omega
  exact ⟨limit, sectorsNeeded_mono (by omega) limit⟩

/-- A new file, and what the write of one byte more to it still lacks. -/
theorem fresh_short (done : CreateDone fs fs' name size sector) (format : size + 1 ≤ 8517120) :
    sectorsNeeded (bytesToSectors size) + (shortOf fs' (curData fs' sector) (size + 1 : Nat)).length =
      sectorsNeeded (bytesToSectors (size + 1 : Nat)) := by
  obtain ⟨limit, _⟩ := needed_more size format
  have more := bytesToSectors_eq (Int.natCast_nonneg (size + 1)) (by omega)
  have fewer := bytesToSectors_eq (Int.natCast_nonneg size) (by omega)
  have added := missingBlocks_add done.fresh.exact (by rw [done.fresh.length]; omega) limit
  rw [done.fresh.length] at added
  rw [shortOf]
  omega

/-- The run of `copy_in` for a new name: the file that is made, if it is, and what the write then does to it. -/
theorem copyIn_new (running : Running fs none) (plain : PlainName name) (short : name.length ≤ 30)
    (absent : ∀ sector, ¬ Named fs name sector) (worked_out : copyInSize (numFreeSectors fs) (offsetT source.length) = size)
    (fewer : size ≤ source.length) :
    Wp (copyIn name (some source)) (fun result fs' =>
      (result = 2 ∧ ¬ (FileFits fs size ∧ (36 * slotFor fs + 36 : Nat) ≤ 8517120 ∧ wanted size + 1 + (rootShort fs).length ≤ freeCount fs)) ∨
      result = 0 ∧ ∃ middle sector ok, CreateDone fs middle name size sector ∧
        (∀ other, Live fs other → other ≠ 0 → other ≠ 1 → Alike fs middle other) ∧ Running middle none ∧
        (ok = true ↔ Fits middle (curData middle sector) (size + 1 : Nat)) ∧
        Written middle fs' none name sector 0 (source.take size ++ [0]) ok) fs := by
  have free : fsutilFreespace fs = some (numFreeSectors fs, fs) := rfl
  have high := (copyInSize_range (numFreeSectors fs) (offsetT_range source.length).1 (offsetT_range source.length).2).2
  rw [worked_out] at high
  have unsigned : ((size : Int) % 4294967296).toNat = size := by omega
  rw [copyIn, wp_bind]
  refine Wp.of_eq free ?_
  rw [worked_out]
  dsimp only
  rw [unsigned, wp_bind]
  refine (fsutilCreate_wp running plain size (by omega)).mono fun created fs₁ ended => ?_
  obtain ⟨running₁, success, returned, ran⟩ := ended
  rw [offsetT_eq (by omega) (by omega)] at ran
  have good : ¬ BadName fs name := by
    rintro (empty | long | ⟨other, named⟩)
    · exact plain.nonempty empty
    · omega
    · exact absent other named
  cases success with
  | false =>
    rw [if_pos (by rw [returned]; decide)]
    refine (wp_pure _).mpr (.inl ⟨rfl, fun enough => ?_⟩)
    cases ran.outcome.mpr ⟨enough.1, good, enough.2⟩
  | true =>
    obtain ⟨sector, done⟩ := ran.done rfl
    obtain ⟨_, format, _⟩ := (ran.outcome.mp rfl).1
    have named : Named fs₁ name sector := (done.named name sector).mpr (.inr ⟨rfl, rfl⟩)
    have pos : posOf fs₁ name = 0 := by
      rw [posOf, ran.keeps.fileTable]
      exact running.posOf_missing absent
    have length : (source.take size ++ [0]).length = size + 1 := by simp [fewer]
    rw [if_neg (by rw [returned]; decide), wp_bind, Int.toNat_natCast, hostBuffer_eq fewer]
    refine (fsutilWrite_wp running₁ plain (by omega) (by omega) (by omega)).mono fun written fs₂ wrote => (wp_pure _).mpr ?_
    rcases wrote with ⟨_, missing, _⟩ | ⟨there, ok, fits, _, wrote, _⟩
    · exact absurd named (missing sector)
    obtain rfl := running₁.volume.root.functional named wrote.named
    rw [pos, length, Int.zero_add] at fits
    rw [pos, Int.toNat_zero, terminated_snoc] at wrote
    exact .inr ⟨rfl, fs₁, sector, ok, done, fun other there nonzero other' => ran.keeps.files other there nonzero other' id, running₁,
      fits, wrote⟩

/-- With the byte that is written past it, the file is stored if the format and the free sectors have room. -/
theorem copyIn_stored (running : Running fs none) (plain : PlainName name) (short : name.length ≤ 30)
    (absent : ∀ sector, ¬ Named fs name sector) (entry : (36 * slotFor fs + 36 : Nat) ≤ 8517120)
    (worked_out : copyInSize (numFreeSectors fs) (offsetT source.length) = size) (fewer : size ≤ source.length)
    (format : size + 1 ≤ 8517120)
    (sectors : 1 + sectorsNeeded (bytesToSectors (size + 1 : Nat)) + (rootShort fs).length ≤ freeCount fs) :
    Wp (copyIn name (some source)) (fun result fs' => result = 0 ∧ ∃ sector, CopiedIn fs fs' name sector (source.take size ++ [0])) fs := by
  obtain ⟨limit, more⟩ := needed_more size format
  have wants : wanted size = sectorsNeeded (bytesToSectors size) := if_neg (by omega)
  refine (copyIn_new running plain short absent worked_out fewer).mono fun result fs' ran => ?_
  rcases ran with ⟨_, refused⟩ | ⟨rfl, middle, sector, ok, done, kept, running₁, fits, wrote⟩
  · exact absurd ⟨⟨by omega, by omega, by omega⟩, entry, by omega⟩ refused
  have count := done.count
  have short := fresh_short done format
  rw [wants] at count
  obtain rfl : ok = true := fits.mpr ⟨by omega, by omega⟩
  have bytes := wrote.contentOf running₁ (by simp)
  rw [done.fresh.contentOf, overwrite_all (by simp [fewer])] at bytes
  refine ⟨rfl, sector, wrote.running, ?_, bytes, fun other there nonzero other' => ?_⟩
  · rw [named_congr wrote.slots]
    exact done.named
  · have differs : other ≠ sector := fun same => done.new (same ▸ there)
    have there' : Live middle other := by
      rcases there with zero | one | ⟨another, named⟩
      · exact .inl zero
      · exact .inr (.inl one)
      · exact Named.live ((done.named another other).mpr (.inl named))
    exact (kept other there nonzero other').trans (wrote.files other there' nonzero other' differs)

end Comp310.Fs
