import Comp310.Fs.Files
import Comp310.Fs.Format

/-! No sector is owned twice, in any state that creating, removing, opening,
closing and writing files leads to. -/

namespace Comp310.Proofs.Ownership
open Comp310.Fs Comp310.Lib

/-- What a sector is to an object. -/
inductive Part where
  | inode
  | data (index : Nat)
  | indirect
  | doublyIndirect
  | second (entry : Fin 128)

/-- The sectors that an object needs, with what they are to it. -/
inductive Owns (fs : FileSystem) (object : Sector) : Part → Sector → Prop where
  | inode : Owns fs object .inode object
  | data (below : index < bytesToSectors (curData fs object).length)
      (found : indexToSector (curData fs object) index fs = some (sector, fs)) : Owns fs object (.data index) sector
  | indirect (below : 123 < bytesToSectors (curData fs object).length) :
      Owns fs object .indirect (curData fs object).indirectBlock
  | doublyIndirect (below : 251 < bytesToSectors (curData fs object).length) :
      Owns fs object .doublyIndirect (curData fs object).doublyIndirectBlock
  | second (below : 251 + 128 * entry.val < bytesToSectors (curData fs object).length) :
      Owns fs object (.second entry) ((blocksOf (fs.disk.view (curData fs object).doublyIndirectBlock)).get entry)

/-- A call on a file system that runs to its end. An inode is written to or
closed while it is open for a file that still has its name. -/
inductive Step : FileSystem → FileSystem → Prop where
  | create (plain : PlainName name) (small : size < 2147483648) (ran : filesysCreate name size fs = some (success, fs')) : Step fs fs'
  | remove (plain : PlainName name) (ran : filesysRemove name fs = some (success, fs')) : Step fs fs'
  | opening (plain : PlainName name) (ran : filesysOpen name fs = some (file, fs')) : Step fs fs'
  | closing (named : Named fs name sector) (opened : OpenAt fs addr sector) (ran : inodeClose addr fs = some (⟨⟩, fs')) : Step fs fs'
  | write (named : Named fs name sector) (opened : OpenAt fs addr sector) (nonempty : 1 ≤ buffer.length)
      (size : buffer.length < 2147483648) (low : 0 ≤ offset) (high : offset < 2147483648)
      (ran : inodeWriteAt addr buffer offset fs = some (written, fs')) : Step fs fs'

inductive Reached (device : Array Block) (bounded : device.size < 2 ^ 32) : FileSystem → Prop where
  | formatted (ran : filesysInit device bounded true = some fs) : Reached device bounded fs
  | step (before : Reached device bounded fs) (step : Step fs fs') : Reached device bounded fs'

variable {fs fs' : FileSystem} {device : Array Block} {bounded : device.size < 2 ^ 32} {object sector : Sector} {part part' : Part}

private def Invariant (fs : FileSystem) : Prop := Volume fs ∧ Session fs none

private theorem Step.preserves (step : Step fs fs') (holds : Invariant fs) : Invariant fs' := by
  obtain ⟨volume, session⟩ := holds
  cases step with
  | create plain small ran =>
    have created := (filesysCreate_wp volume session plain small).result ran
    exact ⟨created.volume, created.session⟩
  | remove plain ran =>
    obtain ⟨volume', session', _⟩ := (filesysRemove_wp volume session plain).result ran
    exact ⟨volume', session'⟩
  | opening plain ran =>
    obtain ⟨calm, session', _⟩ := (filesysOpen_wp volume session plain).result ran
    exact ⟨calm.steady.volume, session'⟩
  | closing named opened ran =>
    have closed := (closeFile_wp volume named opened).result ran
    exact ⟨closed.volume, closed.session (volume.root.plain _ _ named).2.2.2 session⟩
  | write named opened nonempty size low high ran =>
    rcases writeFile_result volume named opened nonempty size (by omega) high ran with
      ⟨_, _, _, wrote⟩ | ⟨_, ⟨_, _, _, _, _, _, wrote⟩ | ⟨_, rfl⟩⟩
    · exact ⟨wrote.volume, wrote.session session⟩
    · exact ⟨wrote.volume, wrote.session session⟩
    · exact ⟨volume, session⟩

private theorem Reached.invariant (reached : Reached device bounded fs) : Invariant fs := by
  induction reached with
  | formatted ran =>
    have formatted := filesysInit_formatted bounded ran
    exact ⟨formatted.volume, formatted.session⟩
  | step _ step ih => exact step.preserves ih

private def place : Part → Option InodePos
  | .inode => none
  | .data index => some (.data index)
  | .indirect => some (.single .here)
  | .doublyIndirect => some (.double .here)
  | .second entry => some (.double (.child entry .here))

private theorem owns_role (volume : Volume fs) (live : Live fs object) (owns : Owns fs object part sector) :
    Filled fs (object, place part) ∧ claim fs (object, place part) = sector ∧ ∀ index, part = .data index → index < 16635 := by
  have blocks := volume.objects.blocks
  have sound := blocks.sound object live
  have nonneg := sound.nonneg
  have limit := sound.limit
  have sectors := bytesToSectors_eq nonneg (by omega)
  have present (p : InodePos) (below : p.first < bytesToSectors (curData fs object).length) :
      blockAt fs.disk.view (curData fs object) p ≠ 0 := sound.mapped p (by omega)
  cases owns with
  | inode => exact ⟨filled_inode, rfl, nofun⟩
  | @data index _ below found =>
    have small : index < 16635 := by omega
    have there := present (.data index) (by rwa [data_first small])
    have found' := indexToSector_eq small (fun p _ => (blocks.readable live).inRange p) there
    cases found.symm.trans found'
    exact ⟨filled_place.mpr there, rfl, fun _ same => by cases same; exact small⟩
  | indirect below => exact ⟨filled_place.mpr (present (.single .here) below), rfl, nofun⟩
  | doublyIndirect below => exact ⟨filled_place.mpr (present (.double .here) below), rfl, nofun⟩
  | @second entry below =>
    have root := present (.double .here) (show 251 < _ by omega)
    have there := present (.double (.child entry .here)) (by
      change 251 + (entry.val * 128 + 0) < _
      omega)
    refine ⟨filled_place.mpr there, ?_, nofun⟩
    change childEntry _ _ _ = _
    exact if_neg root

private theorem place_injective (small : ∀ index, part = .data index → index < 16635)
    (small' : ∀ index, part' = .data index → index < 16635) (same : place part = place part') : part = part' := by
  have atBottom (index : Nat) (p : InodePos) (same : place (.data index) = some p) : p.isData = true := by
    cases same
    exact data_isData index
  cases part with
  | inode =>
    cases part' with
    | inode => rfl
    | _ => cases same
  | data index =>
    cases part' with
    | inode => cases same
    | data index' =>
      injection same with same
      rw [data_injective (small _ rfl) (small' _ rfl) same]
    | indirect => cases atBottom index _ same
    | doublyIndirect => cases atBottom index _ same
    | second => cases atBottom index _ same
  | indirect =>
    cases part' with
    | indirect => rfl
    | data index' => cases atBottom index' _ same.symm
    | _ => cases same
  | doublyIndirect =>
    cases part' with
    | doublyIndirect => rfl
    | data index' => cases atBottom index' _ same.symm
    | _ => cases same
  | second entry =>
    cases part' with
    | second entry' =>
      cases same
      rfl
    | data index' => cases atBottom index' _ same.symm
    | _ => cases same

/-- No sector has two owners or two roles; each one is on the device and marked as used. -/
theorem owned_once (reached : Reached device bounded fs) :
    (∀ object object' part part' sector, Live fs object → Live fs object' → Owns fs object part sector →
      Owns fs object' part' sector → object = object' ∧ part = part') ∧
    (∀ object part sector, Live fs object → Owns fs object part sector →
      sector.toNat < fs.disk.size ∧ bitmapTest fs.freeMap sector.toNat = true) ∧
    ∀ object index, Live fs object → index < bytesToSectors (curData fs object).length →
      ∃ sector, Owns fs object (.data index) sector := by
  obtain ⟨volume, _⟩ := reached.invariant
  have blocks := volume.objects.blocks
  refine ⟨?_, ?_, ?_⟩
  · intro object object' part part' sector live live' owns owns'
    obtain ⟨filled, rfl, small⟩ := owns_role volume live owns
    obtain ⟨filled', same, small'⟩ := owns_role volume live' owns'
    have roles := blocks.apart _ _ live live' filled filled' same.symm
    exact ⟨congrArg Prod.fst roles, place_injective small small' (congrArg Prod.snd roles)⟩
  · intro object part sector live owns
    obtain ⟨filled, rfl, _⟩ := owns_role volume live owns
    exact ⟨blocks.inRange _ live filled, bitmapTest_eq.mpr (blocks.used _ live filled)⟩
  · intro object index live below
    have sound := blocks.sound object live
    have nonneg := sound.nonneg
    have limit := sound.limit
    have sectors := bytesToSectors_eq nonneg (by omega)
    have small : index < 16635 := by omega
    have there := sound.mapped (.data index) (by rw [data_first small]; omega)
    exact ⟨_, .data below (indexToSector_eq small (fun p _ => (blocks.readable live).inRange p) there)⟩

/-- A file of 137 data sectors on a small device, with its index block. -/
theorem owned_once_file : ∃ fs sector, Reached (Array.replicate 400 zeros) (by simp) fs ∧ Named fs [97] sector ∧
    ∃ index, Owns fs sector .indirect index ∧ index.toNat < fs.disk.size ∧ bitmapTest fs.freeMap index.toNat = true ∧
      ∀ object part, Live fs object → Owns fs object part index → object = sector ∧ part = .indirect := by
  obtain ⟨fs, ran, formatted⟩ := filesysInit_format (by simp : (Array.replicate 400 zeros).size < 2 ^ 32)
    (formattable_small (by simp) (by simp))
  have plain : PlainName [97] := ⟨by decide, by decide, by decide, by decide, by decide⟩
  have needed : wanted 70000 = 138 := by
    rw [show (70000 : Int) = (70000 : Nat) from rfl, wanted_eq (by decide), sectorsNeeded_eq (by decide)]
    rfl
  have count := formatted.count
  rw [Array.size_replicate, (mapBlocks_one (by decide) (by decide)).2, rootBlocks_eq] at count
  obtain ⟨_, fs', ran', rfl, created⟩ := formatted.filesysCreate_wp plain (by decide)
    (show FileFits fs 70000 from ⟨by decide, by decide, by rw [needed]; omega⟩)
  obtain ⟨sector, done⟩ := created.done rfl
  have named : Named fs' [97] sector := (done.named [97] sector).mpr (.inr ⟨rfl, rfl⟩)
  have reached := (Reached.formatted ran).step (.create plain (by decide) ran')
  have owns : Owns fs' sector .indirect (curData fs' sector).indirectBlock := .indirect (by rw [done.fresh.length]; decide)
  obtain ⟨once, used, _⟩ := owned_once reached
  exact ⟨fs', sector, reached, named, _, owns, (used _ _ _ named.live owns).1, (used _ _ _ named.live owns).2,
    fun object part live owns' => once _ _ _ _ _ live named.live owns' owns⟩

end Comp310.Proofs.Ownership
