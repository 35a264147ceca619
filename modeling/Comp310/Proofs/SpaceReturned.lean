import Comp310.Fs.Needed
import Comp310.Fs.Listing
import Comp310.Fs.Runs

/-! A file that is created, written to and removed leaves the free map as it was. -/

namespace Comp310.Proofs.SpaceReturned
open Comp310.Fs Comp310.Lib

/-- The commands on a file that is there. -/
def InPlace : Command → Prop
  | .create _ _ | .rm _ => False
  | _ => True

/-- The states that successful commands on one name lead to, none of which creates or removes it. -/
inductive Worked (name : CString) (start : FileSystem) : FileSystem → Prop where
  | created : Worked name start start
  | step (before : Worked name start fs) {command : Command} (mine : command.name = name) (inPlace : InPlace command)
      (valid : command.Valid) (forward : command.Forward) (ran : command.run fs = some (reply, fs'))
      (success : command.Succeeds reply) : Worked name start fs'

/-- A file made since `start`, of sectors that were free then, and nothing else has been taken. -/
structure Borrowing (start fs : FileSystem) (name : CString) (sector : Sector) : Prop where
  running : Running fs none
  absent : ∀ there, ¬ Named start name there
  named : ∀ other there, Named fs other there ↔ Named start other there ∨ (other = name ∧ there = sector)
  exact : Exact fs sector
  unused : ∀ place, Filled fs (sector, place) → ¬ Used start (claim fs (sector, place))
  mono : ∀ other, Used start other → Used fs other
  length : fs.freeMap.length = start.freeMap.length
  count : freeCount fs + 1 + sectorsNeeded (bytesToSectors (curData fs sector).length) = freeCount start

variable {start fs fs' : FileSystem} {name : CString} {sector : Sector} {size : Int} {device : Array Block}
  {bounded : device.size < 2 ^ 32}

private theorem Borrowing.mine (borrowing : Borrowing start fs name sector) : Named fs name sector :=
  (borrowing.named name sector).mpr (.inr ⟨rfl, rfl⟩)

private theorem Borrowing.same (borrowing : Borrowing start fs name sector) {there : Sector} (named : Named fs name there) :
    there = sector := by
  rcases (borrowing.named name there).mp named with before | ⟨_, same⟩
  · exact absurd before (borrowing.absent there)
  · exact same

private theorem borrowing_created (full : rootShort fs = []) (created : CreateRan fs fs' none name size true)
    (running' : Running fs' none) : ∃ sector, Borrowing fs fs' name sector := by
  obtain ⟨sector, done⟩ := created.done rfl
  obtain ⟨fits, good, _⟩ := created.outcome.mp rfl
  have count := done.count
  rw [full, wanted, if_neg (by have low := fits.1; omega)] at count
  refine ⟨sector, running', fun there named => good (.inr (.inr ⟨there, named⟩)), done.named, done.fresh.exact, done.unused,
    done.mono, done.length, ?_⟩
  rw [done.fresh.length]
  simp only [List.length_nil] at count
  omega

private theorem Borrowing.looked (borrowing : Borrowing start fs name sector) (looked : Looked fs fs' none name) :
    Borrowing start fs' name sector := by
  have nonroot : sector ≠ 1 := (borrowing.running.volume.root.plain name sector borrowing.mine).2.2.2
  have same := looked.store.same (looked.data sector nonroot)
  have used := looked.store.used
  refine ⟨looked.running, borrowing.absent, ?_, same.exact borrowing.exact, fun place filled => ?_, ?_, ?_, ?_⟩
  · rw [looked.named]
    exact borrowing.named
  · rw [same.claim]
    exact borrowing.unused place (same.filled.mp filled)
  · rw [used]
    exact borrowing.mono
  · rw [looked.store.freeMap, borrowing.length]
  · rw [looked.store.freeCount, same.data, borrowing.count]

private theorem Borrowing.written {offset : Nat} {buffer : List UInt8} (borrowing : Borrowing start fs name sector)
    (done : Written fs fs' none name sector offset buffer true)
    (fits : Fits fs (curData fs sector) (offset + buffer.length : Nat)) : Borrowing start fs' name sector := by
  have named := borrowing.mine
  have names : Named fs' = Named fs := named_congr done.slots
  have live' : Live fs' sector := Named.live (names ▸ named : Named fs' name sector)
  have readable := borrowing.running.volume.objects.blocks.readable named.live
  have sound' := done.running.volume.objects.blocks.sound sector live'
  have length := done.length
  simp only [if_true] at length
  obtain ⟨limit, room⟩ := fits
  have nonneg := readable.nonneg
  have small := readable.limit
  have exact' := borrowing.exact
  have old := bytesToSectors_eq nonneg (by omega)
  have asked : bytesToSectors (offset + buffer.length : Nat) = _ := bytesToSectors_eq (by omega) (by omega)
  have new := bytesToSectors_eq sound'.nonneg (by omega)
  refine ⟨done.running, borrowing.absent, ?_, fun p => ⟨fun empty => ?_, fun past => ?_⟩, fun place filled => ?_,
    fun other used => done.mono other (borrowing.mono other used), by rw [done.size, borrowing.length], ?_⟩
  · rw [names]
    exact borrowing.named
  · by_cases past : bytesToSectors (curData fs' sector).length ≤ p.first
    · exact past
    · exact absurd empty (sound'.mapped p (by omega))
  · exact done.tight rfl p (by omega) ((exact' p).mpr (by omega))
  · cases place with
    | none => exact borrowing.unused none filled_inode
    | some p =>
      rw [filled_place] at filled
      by_cases absent : blockAt fs.disk.view (curData fs sector) p = 0
      · exact fun used => (done.grows.fresh p absent filled).1 (borrowing.mono _ used)
      · have kept : claim fs' (sector, some p) = claim fs (sector, some p) := done.grows.keep p absent
        rw [kept]
        exact borrowing.unused (some p) (filled_place.mpr absent)
  · have count := borrowing.count
    have taken := done.count
    by_cases inside : (offset + buffer.length : Nat) ≤ (curData fs sector).length
    · rw [shortOf_inside readable inside] at taken
      simp only [List.length_nil, Nat.sub_zero] at taken
      rw [taken, length, Int.max_eq_left inside]
      exact count
    · have added := missingBlocks_add exact' (show bytesToSectors (curData fs sector).length ≤
        bytesToSectors (offset + buffer.length : Nat) by omega) (by omega)
      rw [shortOf] at taken room
      rw [length, Int.max_eq_right (by omega)]
      omega

private theorem Borrowing.worked (borrowing : Borrowing start fs name sector) (worked : Worked name fs fs') :
    Borrowing start fs' name sector := by
  induction worked with
  | created => exact borrowing
  | @step middle reply after before command mine inPlace valid forward ran success ih =>
    subst mine
    cases valid.effect ih.running ran success with
    | created => exact inPlace.elim
    | written done fits =>
      obtain rfl := ih.same done.named
      exact ih.written done fits
    | looked looked => exact ih.looked looked
    | removed => exact inPlace.elim

private theorem Borrowing.removed (borrowing : Borrowing start fs name sector) (blocks : Blocks (Live start) start)
    (done : Unlinked fs fs' name sector) :
    fs'.freeMap = start.freeMap ∧ ∀ other there, Named fs' other there ↔ Named start other there := by
  constructor
  · apply blocks.freeMap_ext
    · rw [done.size, borrowing.length]
    · intro other used
      exact done.mono other (borrowing.mono other used) fun place filled same => borrowing.unused place filled (same ▸ used)
    · rw [done.count]
      exact borrowing.count
  · intro other there
    rw [done.names, borrowing.named]
    constructor
    · rintro ⟨before | ⟨same, _⟩, differs⟩
      · exact before
      · exact absurd same differs
    · intro before
      exact ⟨.inl before, fun same => borrowing.absent there (same ▸ before)⟩

/-- Creating, filling and removing a file gives back exactly the sectors that it
took, and none that was free already. -/
theorem space_returned (succeeding : Succeeding device bounded fs) {i : Nat} {e : DirEntry} (there : (slots fs)[i]? = some e)
    (free : e.inUse = false) (plain : PlainName name) {isize : Nat} (created : fsutilCreate name isize fs = some (1, after))
    (worked : Worked name after fs') : ∃ final, fsutilRm name fs' = some (1, final) ∧ final.freeMap = fs.freeMap ∧
      (∀ other there, Named final other there ↔ Named fs other there) ∧ final.panics = 0 := by
  have running := succeeding.running
  have short : name.length < 255 := by
    by_cases long : 255 ≤ name.length
    · have refused := (fsutilCreate_refused long).symm.trans created
      cases (Prod.mk.inj (Option.some.inj refused)).1
    · omega
  obtain ⟨running', success, returned, ran⟩ := (fsutilCreate_wp running plain isize short).result created
  obtain rfl : success = true := by
    cases success with
    | true => rfl
    | false => cases returned
  obtain ⟨sector, borrowing⟩ := borrowing_created ((rootShort_nil running.volume.objects.blocks there free).2) ran running'
  have borrowing' := borrowing.worked worked
  obtain ⟨result, final, removed, ⟨_, missing, _⟩ | ⟨rfl, sector', done⟩⟩ := fsutilRm_wp borrowing'.running plain
  · exact absurd borrowing'.mine (missing sector)
  · obtain rfl := borrowing'.same done.named
    obtain ⟨freeMap, names⟩ := borrowing'.removed running.volume.objects.blocks done
    exact ⟨final, removed, freeMap, names, done.running.volume.objects.blocks.panics⟩

private theorem formatted_free {size : Nat} (formatted : Formatted fs size) : ∃ e : DirEntry, (slots fs)[1]? = some e ∧ e.inUse = false := by
  have many : (slots fs).length = 1000 := by
    rw [slots, slotsOf_length, formatted.length]
    rfl
  have free (e : DirEntry) : (slots fs)[freeFrom 0 (slots fs) - 0]? = some e → e.inUse = false := freeFrom_spec.2.2 e
  rw [formatted.entries] at free
  exact ⟨(slots fs)[1], List.getElem?_eq_getElem (by omega), free _ (List.getElem?_eq_getElem (by omega))⟩

/-- A file of five bytes is filled with six hundred and removed. -/
theorem space_returned_file : ∃ fs after filled final, filesysInit smallDevice smallDevice_size true = some fs ∧
    fsutilCreate [97] 5 fs = some (1, after) ∧ fsutilWrite [97] (List.replicate 600 65) after = some (600, filled) ∧
    fsutilRm [97] filled = some (1, final) ∧ final.freeMap = fs.freeMap := by
  generalize buffer_eq : List.replicate 600 (65 : UInt8) = buffer
  have length : buffer.length = 600 := by rw [← buffer_eq, List.length_replicate]
  have needed : wanted (5 : Nat) = 1 := by
    rw [wanted_eq (by decide)]
    exact sectorsNeeded_eq (by decide)
  obtain ⟨fs, after, sector, ran, formatted, count, created, done, running, fileTable⟩ :=
    smallDevice_create (show 5 ≤ 8517120 by decide) (by rw [needed]; decide)
  have pos : posOf after [97] = 0 := by rw [posOf, fileTable]; rfl
  have named : Named after [97] sector := (done.named [97] sector).mpr (.inr ⟨rfl, rfl⟩)
  obtain ⟨written, filled, wrote, ⟨_, missing, _⟩ | ⟨sector', ok, fits, rfl, done', _⟩⟩ :=
    fsutilWrite_wp running plain_a (show 0 < buffer.length by omega) (by omega) (by omega)
  · exact absurd named (missing sector)
  obtain rfl := running.volume.root.functional named done'.named
  obtain rfl : ok = true := by
    rw [pos, length] at fits
    refine fits.mpr ⟨by decide, ?_⟩
    have sectors : bytesToSectors (curData after sector).length = 1 := by
      rw [done.fresh.length]
      decide
    have lengthened := missingBlocks_add done.fresh.exact (show _ ≤ 2 by rw [sectors]; decide) (by decide)
    rw [sectors, sectorsNeeded_eq (by decide), sectorsNeeded_eq (by decide)] at lengthened
    have left := done.count
    rw [needed, formatted.rootShort.1, List.length_nil] at left
    change (missingBlocks _ 2).length ≤ _
    simp only [Nat.reduceLT, if_false, Nat.add_zero] at lengthened
    omega
  have worked : Worked [97] after filled := by
    have valid : (Command.write [97] buffer).Valid := ⟨plain_a, by rintro _ _ ⟨⟩; omega, by simp⟩
    have forward : (Command.write [97] buffer).Forward := ⟨by rintro _ _ ⟨⟩; omega, by simp⟩
    have wrote' : (Command.write [97] buffer).run after = some _ := run_bind wrote _
    have inPlace : InPlace (.write [97] buffer) := trivial
    exact Worked.created.step rfl inPlace valid forward wrote' rfl
  obtain ⟨e, there, free⟩ := formatted_free formatted
  obtain ⟨final, removed, freeMap, _⟩ := space_returned (.formatted ran) there free plain_a created worked
  rw [if_pos rfl, length] at wrote
  exact ⟨fs, after, filled, final, ran, created, wrote, removed, freeMap⟩

end Comp310.Proofs.SpaceReturned
