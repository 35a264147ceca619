import Comp310.Fs.Census
import Comp310.Fs.Listing
import Comp310.Fs.Runs

/-! Where the sectors are: as long as the commands succeed, the free map counts those that the directory and the files reach, and no others. -/

namespace Comp310.Proofs.SpaceAccounting
open Comp310.Fs Comp310.Lib

/-- The sectors in use are those of the free map, the root directory and the files. -/
def Accounted (fs : FileSystem) : Prop := ((owners fs).map (cost fs)).sum = usedCount fs

variable {fs fs' : FileSystem} {name : CString} {sector : Sector} {device : Array Block} {bounded : device.size < 2 ^ 32}

section Owners

theorem mem_fileSectors : sector ∈ fileSectors fs ↔ ∃ name, Named fs name sector := by
  rw [fileSectors, List.mem_map]
  constructor
  · rintro ⟨e, member, rfl⟩
    obtain ⟨member, used⟩ := List.mem_filter.mp member
    obtain ⟨i, there⟩ := List.mem_iff_getElem?.mp member
    rw [List.getElem?_drop] at there
    exact ⟨e.fname, 1 + i, e, Nat.le_add_right 1 i, there, used, rfl, rfl⟩
  · rintro ⟨name, i, e, low, there, used, rfl, rfl⟩
    refine ⟨e, List.mem_filter.mpr ⟨List.mem_iff_getElem?.mpr ⟨i - 1, ?_⟩, used⟩, rfl⟩
    rw [List.getElem?_drop, Nat.add_sub_cancel' low]
    exact there

theorem mem_owners : sector ∈ owners fs ↔ Live fs sector := by
  rw [owners, List.mem_cons, List.mem_cons, mem_fileSectors, Live]

theorem nodup_owners (root : Root fs) : (owners fs).Nodup := by
  have once : (fileSectors fs).Nodup := by
    have apart : ((slots fs).drop 1).Pairwise fun e f => e.inUse = true → f.inUse = true → e.inodeSector ≠ f.inodeSector := by
      rw [List.pairwise_iff_getElem]
      intro i j inside inside' before used used' same
      have here := List.getElem?_eq_getElem inside
      have there := List.getElem?_eq_getElem inside'
      rw [List.getElem?_drop] at here there
      have equal := root.unique (1 + i) (1 + j) _ _ (Nat.le_add_right 1 i) (Nat.le_add_right 1 j) here there used used' (.inr same)
      omega
    rw [fileSectors, List.Nodup, List.pairwise_map, List.pairwise_filter]
    exact apart
  have other (sector : Sector) (member : sector ∈ fileSectors fs) : sector ≠ 0 ∧ sector ≠ 1 := by
    obtain ⟨name, named⟩ := mem_fileSectors.mp member
    exact (root.plain name sector named).2.2
  refine List.nodup_cons.mpr ⟨fun member => ?_, List.nodup_cons.mpr ⟨fun member => (other 1 member).2 rfl, once⟩⟩
  rcases List.mem_cons.mp member with same | member
  · exact absurd same (by decide)
  · exact (other 0 member).1 rfl

theorem owners_perm (root : Root fs) {held : List Sector} (once : held.Nodup) (same : ∀ sector, sector ∈ held ↔ Live fs sector) :
    (owners fs).Perm held :=
  (List.perm_ext_iff_of_nodup (nodup_owners root) once).mpr fun sector => mem_owners.trans (same sector).symm

theorem root_cost (volume : Volume fs) (volume' : Volume fs') (same : slots fs' = slots fs) : cost fs' 1 = cost fs 1 := by
  have whole := volume.root.whole
  have whole' := volume'.root.whole
  have nonneg := (volume.objects.blocks.sound 1 Volume.root_live).nonneg
  have nonneg' := (volume'.objects.blocks.sound 1 Volume.root_live).nonneg
  have length := congrArg List.length same
  rw [slots, slots, slotsOf_length, slotsOf_length] at length
  rw [cost, cost, show (curData fs' 1).length = (curData fs 1).length by omega]

end Owners

section Steps

theorem Accounted.known (accounted : Accounted fs) (volume : Volume fs) : (∀ sector, Live fs sector → Exact fs sector) ∧
    ∀ sector, Used fs sector ↔ ∃ role : Role, Live fs role.1 ∧ Filled fs role ∧ claim fs role = sector :=
  volume.objects.blocks.cost_exact (nodup_owners volume.root) (fun _ => mem_owners) accounted

/-- What a file lacks when it grows is what its cost grows by. -/
theorem cost_grown {size : Nat} (readable : Readable fs (curData fs sector)) (exact : Exact fs sector) (limit : size ≤ 8517120)
    (length : (curData fs' sector).length = max (curData fs sector).length (size : Int)) :
    cost fs' sector = cost fs sector + (shortOf fs (curData fs sector) size).length := by
  have nonneg := readable.nonneg
  have small := readable.limit
  rw [cost, cost, length]
  by_cases inside : (size : Int) ≤ (curData fs sector).length
  · rw [shortOf_inside readable inside, Int.max_eq_left inside, List.length_nil, Nat.add_zero]
  · have old := bytesToSectors_eq nonneg (by omega)
    have new : bytesToSectors size = _ := bytesToSectors_eq (by omega) (by omega)
    have added := missingBlocks_add exact (show bytesToSectors (curData fs sector).length ≤ bytesToSectors size by omega) (by omega)
    rw [shortOf, Int.max_eq_right (by omega)]
    omega

theorem sum_grown {held : List Sector} {more : Nat} (once : held.Nodup) (member : sector ∈ held)
    (same : ∀ other ∈ held, other ≠ sector → cost fs' other = cost fs other) (grown : cost fs' sector = cost fs sector + more) :
    (held.map (cost fs')).sum = (held.map (cost fs)).sum + more := by
  have first := List.perm_cons_erase member
  have rest : (held.erase sector).map (cost fs') = (held.erase sector).map (cost fs) := by
    refine List.map_congr_left fun other there => ?_
    obtain ⟨differs, there⟩ := once.mem_erase_iff.mp there
    exact same other there differs
  rw [(first.map (cost fs')).sum_nat, (first.map (cost fs)).sum_nat, List.map_cons, List.map_cons, List.sum_cons, List.sum_cons, rest, grown]
  omega

theorem Accounted.looked (accounted : Accounted fs) (running : Running fs none) (looked : Looked fs fs' none name) : Accounted fs' := by
  have held : owners fs' = owners fs := by rw [owners, owners, fileSectors, fileSectors, looked.slots]
  have costs : (owners fs).map (cost fs') = (owners fs).map (cost fs) := by
    refine List.map_congr_left fun sector _ => ?_
    by_cases root : sector = 1
    · rw [root]
      exact root_cost running.volume looked.running.volume looked.slots
    · rw [cost, cost, looked.data sector root]
  rw [Accounted, held, costs, usedCount, looked.store.freeMap]
  exact accounted

theorem Accounted.created (accounted : Accounted fs) {isize : Nat} (running : Running fs none)
    (ran : CreateRan fs fs' none name (offsetT isize) true) (done : CreateDone fs fs' name (offsetT isize) sector) : Accounted fs' := by
  have volume' := ran.volume
  have mine : Live fs' sector := Named.live ((done.named name sector).mpr (.inr ⟨rfl, rfl⟩))
  have live (other : Sector) : other ∈ sector :: owners fs ↔ Live fs' other := by
    simp only [List.mem_cons, mem_owners, Live, done.named, exists_or]
    constructor
    · rintro (rfl | zero | one | there)
      · exact .inr (.inr (.inr ⟨name, rfl, rfl⟩))
      · exact .inl zero
      · exact .inr (.inl one)
      · exact .inr (.inr (.inl there))
    · rintro (zero | one | there | ⟨_, _, same⟩)
      · exact .inr (.inl zero)
      · exact .inr (.inr (.inl one))
      · exact .inr (.inr (.inr there))
      · exact .inl same
  have once : (sector :: owners fs).Nodup :=
    List.nodup_cons.mpr ⟨fun member => done.new (mem_owners.mp member), nodup_owners running.volume.root⟩
  have held := owners_perm volume'.root once live
  have limit' := (volume'.objects.blocks.sound 1 Volume.root_live).limit
  have rootLength := done.rootLength
  have readable : Readable fs (curData fs 1) := running.volume.objects.blocks.readable Volume.root_live
  have root : cost fs' 1 = cost fs 1 + (rootShort fs).length :=
    cost_grown readable ((accounted.known running.volume).1 1 Volume.root_live) (by omega) rootLength
  have others (other : Sector) (there : other ∈ owners fs) (differs : other ≠ 1) : cost fs' other = cost fs other := by
    by_cases zero : other = 0
    · rw [zero, cost, cost, ran.keeps.map]
    · rw [cost, cost, (ran.keeps.files other (mem_owners.mp there) zero differs id).length]
  have new : cost fs' sector = 1 + wanted (offsetT isize) := by
    have nonneg := (volume'.objects.blocks.sound sector mine).nonneg
    rw [done.fresh.length] at nonneg
    rw [cost, done.fresh.length, wanted, if_neg (by omega)]
  have sum := sum_grown (nodup_owners running.volume.root) (mem_owners.mpr Volume.root_live) others root
  have count := done.count
  have total := usedCount_add fs
  have total' := usedCount_add fs'
  have length := done.length
  rw [Accounted] at accounted
  rw [Accounted, (held.map (cost fs')).sum_nat, List.map_cons, List.sum_cons, new, sum, accounted]
  omega

theorem Accounted.written (accounted : Accounted fs) {start : Nat} {buffer : List UInt8} (running : Running fs none)
    (done : Written fs fs' none name sector start buffer true) (fits : Fits fs (curData fs sector) (start + buffer.length : Nat)) :
    Accounted fs' := by
  have held : owners fs' = owners fs := by rw [owners, owners, fileSectors, fileSectors, done.slots]
  have readable := running.volume.objects.blocks.readable done.named.live
  have length := done.length
  rw [if_pos rfl] at length
  have mine : cost fs' sector = cost fs sector + _ :=
    cost_grown readable ((accounted.known running.volume).1 sector done.named.live) (Int.ofNat_le.mp fits.1) length
  have others (other : Sector) (there : other ∈ owners fs) (differs : other ≠ sector) : cost fs' other = cost fs other := by
    by_cases zero : other = 0
    · rw [zero, cost, cost, done.map]
    · by_cases root : other = 1
      · rw [root]
        exact root_cost running.volume done.running.volume done.slots
      · rw [cost, cost, (done.files other (mem_owners.mp there) zero root differs).length]
  have sum := sum_grown (nodup_owners running.volume.root) (mem_owners.mpr done.named.live) others mine
  have room := fits.2
  have count := done.count
  have total := usedCount_add fs
  have total' := usedCount_add fs'
  have size := done.size
  rw [Accounted] at accounted
  rw [Accounted, held, sum, accounted]
  omega

theorem Accounted.removed (accounted : Accounted fs) (running : Running fs none) (done : Unlinked fs fs' name sector) : Accounted fs' := by
  have root := running.volume.root
  have gone : sector ∉ owners fs' := by
    intro member
    obtain ⟨_, _, notMap, notRoot⟩ := root.plain _ _ done.named
    rcases mem_owners.mp member with zero | one | ⟨other, named⟩
    · exact notMap zero
    · exact notRoot one
    · obtain ⟨before, differs⟩ := (done.names other sector).mp named
      exact differs (root.injective before done.named)
  have live (other : Sector) : other ∈ sector :: owners fs' ↔ Live fs other := by
    rw [List.mem_cons, mem_owners]
    constructor
    · rintro (rfl | zero | one | ⟨there, named⟩)
      · exact done.named.live
      · exact .inl zero
      · exact .inr (.inl one)
      · exact Named.live ((done.names there other).mp named).1
    · rintro (zero | one | ⟨there, named⟩)
      · exact .inr (.inl zero)
      · exact .inr (.inr (.inl one))
      · by_cases same : there = name
        · subst same
          exact .inl (root.functional named done.named)
        · exact .inr (Named.live ((done.names there other).mpr ⟨named, same⟩))
  have held := owners_perm root (List.nodup_cons.mpr ⟨gone, nodup_owners done.running.volume.root⟩) live
  have costs : (owners fs').map (cost fs') = (owners fs').map (cost fs) := by
    refine List.map_congr_left fun other member => ?_
    have there := (live other).mp (List.mem_cons_of_mem _ member)
    have differs : other ≠ sector := fun same => gone (same ▸ member)
    by_cases zero : other = 0
    · rw [zero, cost, cost, done.map]
    · by_cases one : other = 1
      · rw [one, cost, cost, done.length]
      · rw [cost, cost, (done.files other there zero one differs).length]
  have count := done.count
  have total := usedCount_add fs
  have total' := usedCount_add fs'
  have size := done.size
  rw [Accounted, (held.map (cost fs)).sum_nat, List.map_cons, List.sum_cons, cost] at accounted
  rw [Accounted, costs]
  omega

theorem formatted_accounted {size : Nat} (formatted : Formatted fs size) : Accounted fs := by
  have none : fileSectors fs = [] := by
    refine List.eq_nil_iff_forall_not_mem.mpr fun sector member => ?_
    obtain ⟨name, named⟩ := mem_fileSectors.mp member
    exact formatted.unnamed name sector named
  obtain ⟨file, inode, _, opened, zero, length⟩ := formatted.volume.objects.blocks.mapOpen
  have data := formatted.volume.objects.blocks.handles.curData opened
  rw [zero] at data
  have map : cost fs 0 = 1 + mapBlocks size := by rw [cost, data, length, formatted.whole, mapBlocks]
  have root : cost fs 1 = 1 + rootBlocks := by rw [cost, formatted.length, rootBlocks]
  have count := formatted.count
  have whole := formatted.whole
  have total := usedCount_add fs
  rw [Accounted, owners, none, List.map_cons, List.map_singleton, List.sum_cons, List.sum_singleton, map, root]
  omega

theorem effect_accounted {command : Command} (effect : Effect fs fs' command) (running : Running fs none) (accounted : Accounted fs) :
    Accounted fs' ∧ fs'.freeMap.length = fs.freeMap.length := by
  cases effect with
  | created ran done => exact ⟨accounted.created running ran done, done.length⟩
  | written done fits => exact ⟨accounted.written running done fits, done.size⟩
  | looked looked => exact ⟨accounted.looked running looked, by rw [looked.store.freeMap]⟩
  | removed done => exact ⟨accounted.removed running done, done.size⟩

end Steps

theorem succeeding_accounted (succeeding : Succeeding device bounded fs) : Accounted fs ∧ fs.freeMap.length + 1 = device.size := by
  induction succeeding with
  | formatted ran =>
    have formatted := filesysInit_formatted bounded ran
    have count := formatted.count
    have whole := formatted.whole
    exact ⟨formatted_accounted formatted, by omega⟩
  | step before valid forward ran success ih =>
    have running := before.running
    obtain ⟨accounted, length⟩ := effect_accounted (valid.effect running ran success) running ih.1
    exact ⟨accounted, by rw [length, ih.2]⟩

/-- While the commands succeed, the free space is what the free map, the root directory and the files leave: each takes its inode and the blocks
that its length needs, index blocks included, and no others; and a sector is in use if and only if it is one of these. -/
theorem space_accounted (succeeding : Succeeding device bounded fs) :
    (∃ free, fsutilFreespace fs = some (free, fs) ∧ free + ((owners fs).map (cost fs)).sum + 1 = device.size) ∧
      (∀ sector, Live fs sector → Exact fs sector) ∧
      ∀ sector, Used fs sector ↔ ∃ role : Role, Live fs role.1 ∧ Filled fs role ∧ claim fs role = sector := by
  obtain ⟨accounted, length⟩ := succeeding_accounted succeeding
  refine ⟨⟨numFreeSectors fs, rfl, ?_⟩, accounted.known succeeding.running.volume⟩
  have total := usedCount_add fs
  rw [numFreeSectors, bitmapCount_all, accounted]
  rw [freeCount] at total
  omega

/-- A file of 600 bytes is given two blocks. -/
theorem space_accounted_file : ∃ fs sector, Named fs [97] sector ∧ cost fs sector = 3 ∧
    (∃ free, fsutilFreespace fs = some (free, fs) ∧ free + ((owners fs).map (cost fs)).sum + 1 = smallDevice.size) ∧
    (∀ sector, Live fs sector → Exact fs sector) ∧
    ∀ sector, Used fs sector ↔ ∃ role : Role, Live fs role.1 ∧ Filled fs role ∧ claim fs role = sector := by
  have two : wanted (600 : Nat) = 2 := by
    rw [wanted_eq (by decide)]
    exact sectorsNeeded_eq (by decide)
  obtain ⟨start, fs, sector, ran, -, -, created, done, -⟩ := smallDevice_create (show 600 ≤ 8517120 by decide) (by rw [two]; decide)
  have valid : (Command.create [97] 600).Valid := ⟨plain_a, by simp, by simp⟩
  have forward : (Command.create [97] 600).Forward := ⟨by simp, by simp⟩
  have made : (Command.create [97] 600).run start = some _ := run_bind created _
  have mine : cost fs sector = 1 + sectorsNeeded 2 := by
    rw [cost, done.fresh.length]
    rfl
  have succeeding : Succeeding smallDevice smallDevice_size fs := (Succeeding.formatted ran).step valid forward made rfl
  refine ⟨fs, sector, (done.named _ _).mpr (.inr ⟨rfl, rfl⟩), ?_, space_accounted succeeding⟩
  rw [mine, sectorsNeeded_eq (by decide)]
  rfl

end Comp310.Proofs.SpaceAccounting
