import Comp310.Fs.Reserve

/-! What `inode_deallocate` gives back: exactly the blocks that a file of its
length needs, each once. -/

namespace Comp310.Fs
open Comp310.Lib

/-- A stretch of releasing: `gone` is what became free. -/
structure Freed (own keep : Sector → Prop) (gone : Sector → Prop) (released : Nat) (fs fs' : FileSystem) : Prop where
  heap : SameHeap fs fs'
  service : Service own keep fs'
  follows : Follows fs fs'
  length : fs'.freeMap.length = fs.freeMap.length
  touches : Touches own fs fs'
  used : ∀ sector, Used fs' sector ↔ Used fs sector ∧ ¬ gone sector
  count : freeCount fs' = freeCount fs + released

/-- The needed positions of the map are there and in use, each once, and no
position belongs to the free map file. -/
structure Releasable (own keep : Sector → Prop) (needed : π → Prop) (fs : FileSystem) (map : π → Sector) : Prop where
  present : ∀ p, needed p → map p ≠ 0 ∧ Used fs (map p)
  foreign : ∀ p, map p ≠ 0 → ¬ own (map p) ∧ ¬ keep (map p)
  distinct : Distinct map

section Steps
variable {own keep gone gone' : Sector → Prop} {n m : Nat} {fs middle fs' : FileSystem}

theorem Freed.trans (first : Freed own keep gone n fs middle) (second : Freed own keep gone' m middle fs') :
    Freed own keep (fun sector => gone sector ∨ gone' sector) (n + m) fs fs' := by
  refine ⟨first.heap.trans second.heap, second.service, first.follows.trans second.follows,
    second.length.trans first.length, first.touches.trans second.touches, fun sector => ?_, ?_⟩
  · rw [second.used, first.used, not_or, and_assoc]
  · rw [second.count, first.count]
    omega

theorem Freed.goes (freed : Freed own keep gone n fs fs') (same : ∀ sector, gone sector ↔ gone' sector) :
    Freed own keep gone' n fs fs' := by
  rwa [funext fun sector => propext (same sector)] at freed

theorem Freed.refl (service : Service own keep fs) : Freed own keep (fun _ => False) 0 fs fs :=
  ⟨.refl, service, .refl, rfl, .refl, by simp, rfl⟩

/-- One sector that is in use and not part of the free map file. -/
theorem release_wp (service : Service own keep fs) (opened : fs.freeMapFile ≠ none) {sector : Sector}
    (used : Used fs sector) (nonzero : sector ≠ 0) (foreign : ¬ own sector ∧ ¬ keep sector) :
    Wp (freeMapRelease sector 1) (fun _ fs' => Freed own keep (· = sector) 1 fs fs') fs := by
  refine (freeMapRelease_wp service opened used ⟨foreign.1, foreign.2, nonzero⟩).mono fun _ fs' released => ?_
  refine ⟨released.heap, released.service, .of_written released.synced, by rw [released.map, List.length_set],
    released.touches, fun other => ?_, ?_⟩
  · simp only [Used, released.map, List.getElem?_set]
    have inside := used.inRange
    by_cases same : sector = other
    · subst same
      simp [inside]
    · have differs : sector.toNat ≠ other.toNat := fun equal => same (UInt32.toNat_inj.mp equal)
      simp [differs, Ne.symm same]
  · rw [freeCount, released.map]
    exact count_set_false used

end Steps

section Loops
variable {own keep : Sector → Prop} {level : Nat} {deallocate : Sector → Nat → M PUnit}

/-- What deallocating under one entry does, for the level of that entry. -/
def ReleasesTree (own keep : Sector → Prop) (level : Nat) (deallocate : Sector → Nat → M PUnit) : Prop :=
  ∀ fs entry numSectors, Service own keep fs → fs.freeMapFile ≠ none →
    Releasable own keep (fun p : TreePos level => p.first < numSectors) fs (treeAt fs.disk.view entry) →
    0 < numSectors → numSectors ≤ capacity level →
    Wp (deallocate entry numSectors) (fun _ fs' =>
      Freed own keep (fun sector => ∃ p : TreePos level, p.first < numSectors ∧ sector = treeAt fs.disk.view entry p)
        (missingTree level (fun _ => 0) numSectors).length fs fs') fs

theorem Freed.tree_same {gone : Sector → Prop} {n : Nat} {fs fs' : FileSystem} {entry : Sector} (freed : Freed own keep gone n fs fs')
    (foreign : ∀ p : TreePos level, treeAt fs.disk.view entry p ≠ 0 → ¬ own (treeAt fs.disk.view entry p)) :
    (treeAt fs'.disk.view entry : TreePos level → Sector) = treeAt fs.disk.view entry :=
  funext fun p => treeAt_congr p fun q _ there => freed.touches.view (foreign q there)

/-- What is left of a loop after the entry `i` is still there. -/
private theorem Releasable.later {fs fs' : FileSystem} {blocks : Vector Sector n} {i numSectors k : Nat} {inside : i < n}
    (map : Releasable own keep (fromEntry level i numSectors) fs (forestAt fs.disk.view blocks : Fin _ × TreePos level → Sector))
    (freed : Freed own keep (fun sector => ∃ p : TreePos level, p.first < min numSectors (capacity level) ∧
      sector = treeAt fs.disk.view (blocks.get ⟨i, inside⟩) p) k fs fs')
    (same : (forestAt fs'.disk.view blocks : Fin _ × TreePos level → Sector) = forestAt fs.disk.view blocks) :
    Releasable own keep (fromEntry level (i + 1) (numSectors - min numSectors (capacity level))) fs'
      (forestAt fs'.disk.view blocks : Fin _ × TreePos level → Sector) := by
  rw [same]
  refine ⟨fun p later => ?_, map.foreign, map.distinct⟩
  obtain ⟨there, used⟩ := map.present p ((fromEntry_succ p).mpr (.inr later))
  refine ⟨there, (freed.used _).mpr ⟨used, ?_⟩⟩
  rintro ⟨q, _, clash⟩
  have place := map.distinct p (⟨i, inside⟩, q) there clash
  have after := later.1
  rw [place] at after
  simp only at after
  omega

theorem deallocateEntries_wp (spec : ReleasesTree own keep level deallocate) (left i numSectors : Nat)
    (blocks : Vector Sector n) (fs : FileSystem) (rounds : divRoundUp numSectors (capacity level) = left)
    (room : i + left ≤ n) (service : Service own keep fs) (opened : fs.freeMapFile ≠ none)
    (map : Releasable own keep (fromEntry level i numSectors) fs (forestAt fs.disk.view blocks : Fin _ × TreePos level → Sector)) :
    Wp (deallocateEntries deallocate (capacity level) blocks i left numSectors) (fun _ fs' =>
      Freed own keep (fun sector => ∃ p : Fin n × TreePos level, fromEntry level i numSectors p ∧
          sector = forestAt fs.disk.view blocks p)
        (missingEntries (fun _ : Fin n => missingTree level fun _ => 0) (capacity level) i left numSectors).length fs fs') fs := by
  have positive : 0 < capacity level := Nat.pow_pos (by decide)
  induction left generalizing i numSectors fs with
  | zero =>
    have none_left : numSectors = 0 := by
      unfold divRoundUp at rounds
      rcases Nat.div_eq_zero_iff.mp rounds with zero | small <;> omega
    subst none_left
    refine (wp_pure _).mpr ((Freed.refl service).goes fun sector => ?_)
    simp [fromEntry]
  | succ left ih =>
    obtain ⟨some_left, rest⟩ := rounds_next positive rounds
    have inside : i < n := by omega
    rw [deallocateEntries, dif_pos inside, wp_bind, missingEntries, dif_pos inside, List.length_append]
    have one : Releasable own keep (fun p : TreePos level => p.first < min numSectors (capacity level)) fs
        (treeAt fs.disk.view (blocks.get ⟨i, inside⟩)) := by
      refine ⟨fun p need => map.present (⟨i, inside⟩, p) ((fromEntry_succ _).mpr (.inl ⟨rfl, need⟩)),
        fun p => map.foreign (⟨i, inside⟩, p), fun p q there same => ?_⟩
      exact congrArg (·.2) (map.distinct (⟨i, inside⟩, p) (⟨i, inside⟩, q) there same)
    refine (spec fs _ (min numSectors (capacity level)) service opened one (by omega) (by omega)).mono fun _ middle freed => ?_
    have same : (forestAt middle.disk.view blocks : Fin _ × TreePos level → Sector) = forestAt fs.disk.view blocks := by
      funext p
      have tree : (treeAt middle.disk.view (blocks.get p.1) : TreePos level → Sector) = treeAt fs.disk.view (blocks.get p.1) :=
        freed.tree_same fun q there => (map.foreign (p.1, q) there).1
      exact congrFun tree p.2
    refine (ih (i + 1) (numSectors - min numSectors (capacity level)) middle rest (by omega) freed.service
      (by rwa [freed.heap.freeMapFile]) (map.later freed same)).mono fun _ fs' freed' => ?_
    rw [same] at freed'
    refine (freed.trans freed').goes fun sector => ?_
    constructor
    · rintro (⟨p, need, rfl⟩ | ⟨p, need, rfl⟩)
      · exact ⟨(⟨i, inside⟩, p), (fromEntry_succ _).mpr (.inl ⟨rfl, need⟩), rfl⟩
      · exact ⟨p, (fromEntry_succ p).mpr (.inr need), rfl⟩
    · rintro ⟨p, need, rfl⟩
      rcases (fromEntry_succ p).mp need with ⟨here, short⟩ | later
      · have slot : p.1 = ⟨i, inside⟩ := Fin.ext here
        exact .inl ⟨p.2, short, by rw [forestAt, slot]⟩
      · exact .inr ⟨p, later, rfl⟩

theorem inodeDeallocateIndirect_tree {level : Nat} (small : level ≤ 2) :
    ReleasesTree own keep level (inodeDeallocateIndirect (fun sector => freeMapRelease sector 1) level) := by
  induction level with
  | zero =>
    intro fs entry numSectors service opened map positive _
    simp only [inodeDeallocateIndirect]
    obtain ⟨there, used⟩ := map.present .here positive
    refine (release_wp service opened used there (map.foreign .here there)).mono fun _ fs' freed => ?_
    refine freed.goes fun sector => ⟨fun same => ⟨.here, positive, same⟩, ?_⟩
    rintro ⟨⟨⟩, _, same⟩
    exact same
  | succ level ih =>
    intro fs entry numSectors service opened map positive bound
    obtain ⟨there, used⟩ := map.present .here positive
    have there : entry ≠ 0 := there
    have below (p : Fin 128 × TreePos level) : treeAt fs.disk.view entry (.child p.1 p.2) =
        forestAt fs.disk.view (blocksOf (fs.disk.view entry)) p := treeAt_child there p
    have forest : Releasable own keep (fromEntry level 0 numSectors) fs
        (forestAt fs.disk.view (blocksOf (fs.disk.view entry)) : Fin _ × TreePos level → Sector) := by
      refine ⟨fun p need => ?_, fun p => ?_, fun p q => ?_⟩
      · rw [← below]
        exact map.present (.child p.1 p.2) need.2
      · rw [← below]
        exact map.foreign (.child p.1 p.2)
      · rw [← below, ← below]
        intro present same
        have place := map.distinct _ _ present same
        injection place with _ first second
        exact Prod.ext first second
    rw [inodeDeallocateIndirect, wp_bind]
    refine Wp.of_eq (bufferCacheRead_eq (service.bounded used)) ?_
    simp only [unitOf_eq (show level ≤ 1 by omega)]
    rw [wp_bind]
    refine (deallocateEntries_wp (ih (by omega)) _ 0 numSectors (blocksOf (fs.disk.view entry)) fs rfl
      (by rw [Nat.zero_add]; exact rounds_le bound) service opened forest).mono fun _ middle freed => ?_
    have used' : Used middle entry := by
      refine (freed.used entry).mpr ⟨used, ?_⟩
      rintro ⟨p, _, clash⟩
      rw [← below] at clash
      have place := map.distinct .here (.child p.1 p.2) there clash
      cases place
    refine (release_wp freed.service (by rwa [freed.heap.freeMapFile]) used' there (map.foreign .here there)).mono
      fun _ fs' last => ?_
    have total : (missingTree (level + 1) (fun _ => 0) numSectors).length =
        (missingEntries (fun _ : Fin 128 => missingTree level fun _ => 0) (capacity level) 0
          (divRoundUp numSectors (capacity level)) numSectors).length + 1 := by
      rw [missingTree, if_pos rfl, List.length_append, List.length_singleton, Nat.add_comm]
    rw [total]
    refine (freed.trans last).goes fun sector => ?_
    constructor
    · rintro (⟨p, need, rfl⟩ | rfl)
      · exact ⟨.child p.1 p.2, need.2, (below p).symm⟩
      · exact ⟨.here, positive, rfl⟩
    · rintro ⟨p, need, rfl⟩
      cases p with
      | here => exact .inr rfl
      | child index p => exact .inl ⟨(index, p), ⟨Nat.zero_le _, need⟩, below (index, p)⟩

end Loops

section Inodes
variable {own keep : Sector → Prop} {fs fs' : FileSystem} {data : InodeDisk}

private theorem Releasable.part {π : Type} {needed : InodePos → Prop} {needed' : π → Prop} {map : InodePos → Sector}
    (releasable : Releasable own keep needed fs map) (place : π → InodePos)
    (injective : ∀ p q, place p = place q → p = q) (wider : ∀ p, needed' p → needed (place p)) :
    Releasable own keep needed' fs fun p => map (place p) :=
  ⟨fun p need => releasable.present _ (wider p need), fun p => releasable.foreign (place p),
    fun p q there same => injective p q (releasable.distinct _ _ there same)⟩

private theorem Releasable.rest {π : Type} {needed : InodePos → Prop} {needed' : π → Prop} {n : Nat}
    (releasable : Releasable own keep needed fs (blockAt fs.disk.view data)) (place : π → InodePos)
    (freed : Freed own keep (fun sector => ∃ p, needed' p ∧ sector = blockAt fs.disk.view data (place p)) n fs fs') :
    blockAt fs'.disk.view data = blockAt fs.disk.view data ∧
      Releasable own keep (fun k => needed k ∧ ∀ p, k ≠ place p) fs' (blockAt fs'.disk.view data) := by
  have same : blockAt fs'.disk.view data = blockAt fs.disk.view data :=
    funext fun p => blockAt_congr p fun q _ there => freed.touches.view (releasable.foreign q there).1
  rw [same]
  refine ⟨rfl, fun k ⟨need, away⟩ => ?_, releasable.foreign, releasable.distinct⟩
  obtain ⟨there, used⟩ := releasable.present k need
  refine ⟨there, (freed.used _).mpr ⟨used, ?_⟩⟩
  rintro ⟨p, _, clash⟩
  exact away p (releasable.distinct _ _ there clash)

private theorem freeDirect_wp (service : Service own keep fs) (opened : fs.freeMapFile ≠ none) {count : Nat}
    (small : count ≤ 123) {needed : InodePos → Prop} (wider : ∀ p : InodePos, p.first < count → needed p)
    (releasable : Releasable own keep needed fs (blockAt fs.disk.view data)) :
    Wp (deallocateEntries (fun entry _ => freeMapRelease entry 1) 1 data.directBlocks 0 count count) (fun _ fs' =>
      Freed own keep (fun sector => ∃ p, fromEntry 0 0 count p ∧ sector = blockAt fs.disk.view data (directPlace p))
        (missingEntries (fun _ : Fin 123 => missingTree 0 fun _ => 0) 1 0 count count).length fs fs') fs := by
  have bottom : ReleasesTree own keep 0 fun entry _ => freeMapRelease entry 1 := by
    have spec : ReleasesTree own keep 0 (inodeDeallocateIndirect (fun sector => freeMapRelease sector 1) 0) :=
      inodeDeallocateIndirect_tree (by decide)
    simpa only [inodeDeallocateIndirect] using spec
  have part : Releasable own keep (fromEntry 0 0 count) fs (forestAt fs.disk.view data.directBlocks : Fin _ × TreePos 0 → Sector) := by
    rw [forestAt_direct]
    refine releasable.part directPlace directPlace_injective fun p need => wider _ ?_
    have short := need.2
    simp only [capacity, Nat.pow_zero] at short
    simp only [directPlace, InodePos.first]
    omega
  refine (deallocateEntries_wp bottom count 0 count data.directBlocks fs (by simp [divRoundUp, capacity]) (by omega)
    service opened part).mono fun _ fs' freed => ?_
  rwa [forestAt_direct] at freed

private theorem freeSingle_wp (service : Service own keep fs) (opened : fs.freeMapFile ≠ none) {count : Nat}
    (positive : 0 < count) (small : count ≤ 128) {needed : InodePos → Prop}
    (wider : ∀ p : TreePos 1, p.first < count → needed (.single p))
    (releasable : Releasable own keep needed fs (blockAt fs.disk.view data)) :
    Wp (inodeDeallocateIndirect (fun sector => freeMapRelease sector 1) 1 data.indirectBlock count) (fun _ fs' =>
      Freed own keep (fun sector => ∃ p : TreePos 1, p.first < count ∧ sector = blockAt fs.disk.view data (.single p))
        (missingTree 1 (fun _ => 0) count).length fs fs') fs :=
  inodeDeallocateIndirect_tree (by decide) fs data.indirectBlock count service opened
    (releasable.part .single (fun _ _ same => by injection same) wider) positive small

private theorem freeDouble_wp (service : Service own keep fs) (opened : fs.freeMapFile ≠ none) {count : Nat}
    (positive : 0 < count) (small : count ≤ 16384) {needed : InodePos → Prop}
    (wider : ∀ p : TreePos 2, p.first < count → needed (.double p))
    (releasable : Releasable own keep needed fs (blockAt fs.disk.view data)) :
    Wp (inodeDeallocateIndirect (fun sector => freeMapRelease sector 1) 2 data.doublyIndirectBlock count) (fun _ fs' =>
      Freed own keep (fun sector => ∃ p : TreePos 2, p.first < count ∧ sector = blockAt fs.disk.view data (.double p))
        (missingTree 2 (fun _ => 0) count).length fs fs') fs :=
  inodeDeallocateIndirect_tree (by decide) fs data.doublyIndirectBlock count service opened
    (releasable.part .double (fun _ _ same => by injection same) wider) positive small

private theorem every_part (map : InodePos → Sector) (numSectors : Nat) (sector : Sector) :
    ((∃ p, fromEntry 0 0 (min numSectors 123) p ∧ sector = map (directPlace p)) ∨
      (∃ p : TreePos 1, p.first < min (numSectors - 123) 128 ∧ sector = map (.single p)) ∨
      ∃ p : TreePos 2, p.first < min (numSectors - 251) 16384 ∧ sector = map (.double p)) ↔
      ∃ p : InodePos, p.first < numSectors ∧ sector = map p := by
  constructor
  · rintro (⟨⟨i, ⟨⟩⟩, ⟨_, short⟩, same⟩ | ⟨p, short, same⟩ | ⟨p, short, same⟩)
    · refine ⟨.direct i, ?_, same⟩
      simp only [TreePos.first, capacity] at short
      simp only [InodePos.first]
      omega
    · exact ⟨.single p, by simp only [InodePos.first]; omega, same⟩
    · exact ⟨.double p, by simp only [InodePos.first]; omega, same⟩
  · rintro ⟨p, short, same⟩
    cases p with
    | direct i =>
      refine .inl ⟨(i, .here), ⟨Nat.zero_le _, ?_⟩, same⟩
      simp only [InodePos.first] at short
      simp only [TreePos.first, capacity]
      omega
    | single p =>
      have bound := first_lt p
      simp only [capacity] at bound
      simp only [InodePos.first] at short
      exact .inr (.inl ⟨p, by omega, same⟩)
    | double p =>
      have bound := first_lt p
      simp only [capacity] at bound
      simp only [InodePos.first] at short
      exact .inr (.inr ⟨p, by omega, same⟩)

/-- All of `inode_deallocate`. -/
theorem inodeDeallocate_wp (service : Service own keep fs) (opened : fs.freeMapFile ≠ none) (nonneg : 0 ≤ data.length)
    {numSectors : Nat} (sectors : bytesToSectors data.length = numSectors) (limit : numSectors ≤ 16635)
    (releasable : Releasable own keep (fun p => p.first < numSectors) fs (blockAt fs.disk.view data)) :
    Wp (inodeDeallocate (fun sector => freeMapRelease sector 1) data) (fun _ fs' =>
      Freed own keep (fun sector => ∃ p : InodePos, p.first < numSectors ∧ sector = blockAt fs.disk.view data p)
        (sectorsNeeded numSectors) fs fs') fs := by
  rw [inodeDeallocate, if_neg (by omega), sectors, sectorsNeeded, missingBlocks]
  dsimp only
  rw [wp_bind]
  refine (freeDirect_wp service opened (Nat.min_le_right numSectors 123) (fun p need => by omega) releasable).mono
    fun _ first freed => ?_
  obtain ⟨same, rest⟩ := releasable.rest directPlace freed
  have parts := every_part (blockAt fs.disk.view data) numSectors
  rcases Nat.lt_or_ge 123 numSectors with past | small
  · rw [show numSectors - min numSectors 123 = numSectors - 123 by omega, if_pos (by omega), if_pos past, wp_bind]
    refine (freeSingle_wp freed.service (by rwa [freed.heap.freeMapFile]) (by omega) (Nat.min_le_right _ _)
      (fun p need => ⟨by simp only [InodePos.first]; omega, by simp [directPlace]⟩) rest).mono fun _ second freed' => ?_
    obtain ⟨same', rest'⟩ := rest.rest .single freed'
    rw [same] at freed' same'
    have both := freed.trans freed'
    rcases Nat.lt_or_ge 251 numSectors with past' | small
    · rw [show numSectors - 123 - min (numSectors - 123) 128 = numSectors - 251 by omega, if_pos (by omega), if_pos past',
        wp_bind]
      refine (freeDouble_wp freed'.service (by rwa [freed'.heap.freeMapFile, freed.heap.freeMapFile]) (by omega)
        (Nat.min_le_right _ _) (fun p need => ⟨⟨by simp only [InodePos.first]; omega, by simp [directPlace]⟩, by simp⟩) rest').mono
        fun _ third freed'' => (wp_pure _).mpr ?_
      rw [same'] at freed''
      rw [List.length_append, List.length_append, ← Nat.add_assoc]
      exact (both.trans freed'').goes fun sector => by rw [← parts, or_assoc]
    · rw [if_neg (by omega), if_neg (by omega)]
      refine (wp_pure _).mpr ?_
      rw [List.append_nil, List.length_append]
      refine both.goes fun sector => ?_
      rw [← parts, ← or_assoc]
      refine (or_iff_left ?_).symm
      rintro ⟨p, need, _⟩
      omega
  · rw [if_neg (by omega), if_neg (by omega), if_neg (by omega), if_neg (by omega)]
    refine (wp_pure _).mpr ?_
    rw [List.append_nil, List.append_nil]
    refine freed.goes fun sector => ?_
    rw [← parts, or_iff_left]
    rintro (⟨p, need, _⟩ | ⟨p, need, _⟩) <;> omega

end Inodes
end Comp310.Fs
