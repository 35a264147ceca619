import Comp310.Fs.Reserve

/-! Which reservations give the inode itself a new pointer. The others leave the
structure in memory as it was, also when they fail. -/

namespace Comp310.Fs
open Comp310.Lib

/-- With so many sectors free, one is allocated for a direct block or for one of the two index blocks that the inode
points to. The last comes after all blocks of the first two phases. -/
def PointsAnew (free : Nat) (map : InodePos → Sector) (numSectors : Nat) : Prop :=
  0 < free ∧ ((∃ i : Fin 123, i.val < numSectors ∧ map (.direct i) = 0) ∨ 123 < numSectors ∧ map (.single .here) = 0) ∨
    251 < numSectors ∧ map (.double .here) = 0 ∧ (missingBlocks map 251).length < free

theorem PointsAnew.congr {free numSectors : Nat} {map map' : InodePos → Sector} (same : ∀ p, map p = 0 ↔ map' p = 0) :
    PointsAnew free map numSectors ↔ PointsAnew free map' numSectors := by
  rw [PointsAnew, PointsAnew, missingBlocks_congr same]
  simp only [same]

variable {own keep : Sector → Prop} {fs fs' : FileSystem} {data : InodeDisk}

section Loops
variable {reserve : Sector → Nat → M (Bool × Sector)} {unit : Nat} {success : Bool} {after : Vector Sector n}

private theorem reserveEntries_before (left i numSectors : Nat) (blocks : Vector Sector n)
    (ran : reserveEntries reserve unit blocks i left numSectors fs = some ((success, after), fs')) (j : Fin n) (before : j.val < i) :
    after.get j = blocks.get j := by
  induction left generalizing fs i numSectors blocks with
  | zero =>
    cases ran
    rfl
  | succ left ih =>
    rw [reserveEntries] at ran
    split at ran
    next inside =>
      obtain ⟨⟨ok, entry⟩, fs₁, first, rest⟩ := bind_some ran
      have kept : (blocks.set i entry).get j = blocks.get j := by rw [get_set, if_neg (by omega)]
      cases ok with
      | true => exact (ih _ _ _ rest (by omega)).trans kept
      | false =>
        cases rest
        exact kept
    next outside => cases ran

/-- An allocation finds a sector whenever one is free, and never sector 0. -/
private theorem allocate_result (service : Service own keep fs) {found : Option Sector}
    (ran : freeMapAllocate 1 fs = some (found, fs')) :
    (freeCount fs = 0 → found = none) ∧ (0 < freeCount fs → ∃ sector, found = some sector ∧ sector ≠ 0) := by
  constructor
  · intro full
    cases (freeMapAllocate_full full).symm.trans ran
    rfl
  · intro room
    obtain ⟨sector, rfl, allocated⟩ := (freeMapAllocate_wp service room).result ran
    refine ⟨sector, rfl, fun zero => ?_⟩
    have taken := service.zero
    rw [Used, ← zero, allocated.free] at taken
    cases taken

private theorem reserveSector_result {entry result : Sector} (service : Service own keep fs)
    (ran : reserveSector (freeMapAllocate 1) entry fs = some ((success, result), fs')) :
    (entry ≠ 0 → success = true ∧ result = entry ∧ fs' = fs) ∧
    (entry = 0 → (freeCount fs = 0 → success = false ∧ result = 0) ∧ (0 < freeCount fs → success = true ∧ result ≠ 0)) := by
  rw [reserveSector] at ran
  split at ran
  next zero =>
    obtain ⟨found, fs₁, first, rest⟩ := bind_some ran
    obtain ⟨full, room⟩ := allocate_result service first
    refine ⟨fun absurd' => absurd zero absurd', fun _ => ⟨fun none => ?_, fun some => ?_⟩⟩
    · rw [full none] at rest
      cases rest
      exact ⟨rfl, zero⟩
    · obtain ⟨sector, same, nonzero⟩ := room some
      rw [same] at rest
      obtain ⟨_, fs₂, _, rest⟩ := bind_some rest
      cases rest
      exact ⟨rfl, nonzero⟩
  next there =>
    cases ran
    exact ⟨fun _ => ⟨rfl, rfl, rfl⟩, fun zero => absurd zero there⟩

private theorem reserveDirect_result (service : Service own keep fs) (left i numSectors : Nat) (blocks : Vector Sector n)
    (ran : reserveEntries (fun entry _ => reserveSector (freeMapAllocate 1) entry) unit blocks i left numSectors fs =
      some ((success, after), fs')) :
    (after = blocks ↔ freeCount fs = 0 ∨ ∀ j : Fin n, i ≤ j.val → j.val < i + left → blocks.get j ≠ 0) ∧
    (freeCount fs = 0 → (success = true ↔ ∀ j : Fin n, i ≤ j.val → j.val < i + left → blocks.get j ≠ 0)) := by
  induction left generalizing i numSectors blocks with
  | zero =>
    have none (j : Fin n) (low : i ≤ j.val) (high : j.val < i + 0) : blocks.get j ≠ 0 := by omega
    cases ran
    exact ⟨iff_of_true rfl (.inr none), fun _ => iff_of_true rfl none⟩
  | succ left ih =>
    rw [reserveEntries] at ran
    split at ran
    next inside =>
      obtain ⟨⟨ok, entry⟩, fs₁, first, rest⟩ := bind_some ran
      obtain ⟨there, missing⟩ := reserveSector_result service first
      by_cases zero : blocks.get ⟨i, inside⟩ = 0
      · have lacking : ¬ ∀ j : Fin n, i ≤ j.val → j.val < i + (left + 1) → blocks.get j ≠ 0 :=
          fun all => all ⟨i, inside⟩ (Nat.le_refl i) (by dsimp only; omega) zero
        rcases Nat.eq_zero_or_pos (freeCount fs) with full | room
        · obtain ⟨rfl, rfl⟩ := (missing zero).1 full
          cases rest
          refine ⟨iff_of_true ?_ (.inl full), fun _ => iff_of_false (by decide) lacking⟩
          rw [← zero]
          exact Vector.set_getElem_self inside
        · obtain ⟨rfl, nonzero⟩ := (missing zero).2 room
          refine ⟨iff_of_false (fun same => nonzero ?_) (fun either => ?_), fun full => absurd full (by omega)⟩
          · have kept := reserveEntries_before _ _ _ _ rest ⟨i, inside⟩ (Nat.lt_succ_self i)
            rw [same, zero, get_set, if_pos rfl] at kept
            exact kept.symm
          · exact either.elim (fun full => by omega) lacking
      · obtain ⟨rfl, rfl, rfl⟩ := there zero
        have same : blocks.set i (blocks.get ⟨i, inside⟩) = blocks := Vector.set_getElem_self inside
        dsimp only at rest
        rw [if_pos rfl, same] at rest
        have all : (∀ j : Fin n, i ≤ j.val → j.val < i + (left + 1) → blocks.get j ≠ 0) ↔
            ∀ j : Fin n, i + 1 ≤ j.val → j.val < i + 1 + left → blocks.get j ≠ 0 := by
          constructor
          · exact fun all j low high => all j (by omega) (by omega)
          · intro all j low high
            rcases Nat.eq_or_lt_of_le low with here | later
            · have mine : j = ⟨i, inside⟩ := Fin.ext here.symm
              exact mine ▸ zero
            · exact all j later (by omega)
        rw [all]
        exact ih _ _ _ rest
    next outside => cases ran

private theorem reserveIndex_result {level numSectors : Nat} {entry result : Sector} (service : Service own keep fs)
    (ran : inodeReserveIndirect (freeMapAllocate 1) (level + 1) entry numSectors fs = some ((success, result), fs')) :
    result = entry ↔ ¬ (0 < freeCount fs ∧ entry = 0) := by
  have last {entry : Sector} {fs : FileSystem}
      (ran : (do
        let indirectBlock ← bufferCacheRead entry
        let reserved ← reserveEntries (inodeReserveIndirect (freeMapAllocate 1) level) (unitOf (level + 1))
          (blocksOf indirectBlock) 0 (divRoundUp numSectors (unitOf (level + 1))) numSectors
        if reserved.1 then do
          bufferCacheWrite entry (ofBlocks reserved.2)
          pure (true, entry)
        else pure (false, entry)) fs = some ((success, result), fs')) : result = entry := by
    obtain ⟨_, fs₁, _, rest⟩ := bind_some ran
    obtain ⟨⟨ok, blocks⟩, fs₂, _, rest⟩ := bind_some rest
    cases ok with
    | true =>
      obtain ⟨_, fs₃, _, rest⟩ := bind_some rest
      cases rest
      rfl
    | false =>
      cases rest
      rfl
  rw [inodeReserveIndirect] at ran
  dsimp only at ran
  split at ran
  next zero =>
    obtain ⟨found, fs₁, first, rest⟩ := bind_some ran
    obtain ⟨_, fs₂, _, rest⟩ := bind_some rest
    rw [pure_bind] at rest
    obtain ⟨full, room⟩ := allocate_result service first
    rw [last rest, zero]
    rcases Nat.eq_zero_or_pos (freeCount fs) with none | some
    · rw [full none]
      exact iff_of_true rfl fun both => Nat.lt_irrefl 0 (none ▸ both.1)
    · obtain ⟨sector, rfl, nonzero⟩ := room some
      exact iff_of_false nonzero fun no => no ⟨some, rfl⟩
  next there =>
    rw [pure_bind] at ran
    exact iff_of_true (last ran) fun both => there both.2

end Loops

section Phases
variable {success : Bool} {numSectors : Nat}

private theorem direct_there (there : ∀ i : Fin 123, i.val < numSectors → data.directBlocks.get i ≠ 0) (v : View) :
    missingEntries (fun index => missingTree 0 fun _ => blockAt v data (.direct index)) 1 0 (min numSectors 123) (min numSectors 123) =
      [] := by
  refine missingEntries_nil (by decide) _ _ _ (by simp [divRoundUp]) fun j m _ positive _ inside => ?_
  exact missingTree_nil _ _ positive fun p _ => there j (by omega)

/-- The inode in memory is left alone exactly where no pointer of its own is new. -/
theorem inodeReserve_points (service : Service own keep fs) (held : Held own keep fs (blockAt fs.disk.view data))
    {length : Int} (nonneg : 0 ≤ length) (sectors : bytesToSectors length = numSectors) {after : InodeDisk}
    (ran : inodeReserve (freeMapAllocate 1) data length fs = some ((success, after), fs')) :
    after = data ↔ ¬ PointsAnew (freeCount fs) (blockAt fs.disk.view data) numSectors := by
  rw [inodeReserve, if_neg (by omega), sectors] at ran
  dsimp only at ran
  obtain ⟨⟨ok, directBlocks⟩, first, reserves, rest⟩ := bind_some ran
  have reserved := (reserveDirect_wp service held (Nat.min_le_right _ _)).result reserves
  obtain ⟨direct, full⟩ := reserveDirect_result service _ _ _ _ reserves
  dsimp only at rest
  by_cases missing : ∃ i : Fin 123, i.val < numSectors ∧ data.directBlocks.get i = 0
  case neg =>
    have there (i : Fin 123) (inside : i.val < numSectors) : data.directBlocks.get i ≠ 0 :=
      fun zero => missing ⟨i, inside, zero⟩
    have none := direct_there there fs.disk.view
    have same : directBlocks = data.directBlocks := direct.mpr (.inr fun i _ _ => there i (by omega))
    subst same
    rw [none] at reserved
    cases reserved.outcome.mpr (Nat.zero_le _)
    have count : freeCount first = freeCount fs := reserved.count
    rw [Bool.not_true, if_neg (by decide)] at rest
    split at rest
    next done =>
      cases rest
      refine iff_of_true rfl ?_
      rintro (⟨_, ⟨i, inside, zero⟩ | ⟨past, _⟩⟩ | ⟨past, _⟩)
      · exact there i inside zero
      · omega
      · omega
    next more =>
      obtain ⟨⟨ok, indirectBlock⟩, second, reserves', rest⟩ := bind_some rest
      have changed := reserveIndex_result reserved.service reserves'
      have reserved' := (reserveSingle_wp reserved.service (reserved.held service held) (by omega) (Nat.min_le_right _ _)).result reserves'
      rw [count] at changed
      have kept (p : TreePos 1) : blockAt first.disk.view data (.single p) = blockAt fs.disk.view data (.single p) :=
        reserved.idle (.single p) (by simp only [InodePos.first]; omega)
      simp only [kept] at reserved'
      have before : PointsAnew (freeCount fs) (blockAt fs.disk.view data) numSectors ↔ 0 < freeCount fs ∧ data.indirectBlock = 0 ∨ 251 < numSectors ∧
          data.doublyIndirectBlock = 0 ∧
            (missingTree 1 (fun p => blockAt fs.disk.view data (.single p)) 128).length < freeCount fs := by
        have blocks : missingBlocks (blockAt fs.disk.view data) 251 =
            missingTree 1 (fun p => blockAt fs.disk.view data (.single p)) 128 := by
          rw [show min numSectors 123 = min 251 123 by omega] at none
          rw [missingBlocks, none, if_pos (by decide), if_neg (by decide), List.nil_append, List.append_nil,
            show min (251 - 123) 128 = 128 from rfl]
        rw [PointsAnew, blocks]
        change 0 < freeCount fs ∧ ((∃ i : Fin 123, i.val < numSectors ∧ data.directBlocks.get i = 0) ∨
          123 < numSectors ∧ data.indirectBlock = 0) ∨ 251 < numSectors ∧ data.doublyIndirectBlock = 0 ∧ _ ↔ _
        rw [or_iff_right missing, and_iff_right (by omega : 123 < numSectors)]
      have single (last : ¬ (251 < numSectors ∧ data.doublyIndirectBlock = 0 ∧
            (missingTree 1 (fun p => blockAt fs.disk.view data (.single p)) 128).length < freeCount fs)) :
          { data with indirectBlock } = data ↔ ¬ PointsAnew (freeCount fs) (blockAt fs.disk.view data) numSectors := by
        rw [before, or_iff_left last, ← changed]
        exact ⟨congrArg InodeDisk.indirectBlock, fun same => same ▸ rfl⟩
      dsimp only at rest
      cases ok with
      | false =>
        cases rest
        refine single fun ended => ?_
        obtain ⟨past, _, room⟩ := ended
        rw [show min (numSectors - min numSectors 123) 128 = 128 by omega] at reserved'
        exact absurd (reserved'.outcome.mpr (by omega)) (by decide)
      | true =>
        rw [Bool.not_true, if_neg (by decide)] at rest
        split at rest
        next done =>
          cases rest
          refine single fun due => ?_
          have past := due.1
          omega
        next more =>
          obtain ⟨⟨ok, doublyIndirectBlock⟩, third, reserves'', rest⟩ := bind_some rest
          have changed' := reserveIndex_result reserved'.service reserves''
          rw [show min (numSectors - min numSectors 123) 128 = 128 by omega] at reserved'
          have left := reserved'.count
          have final : after = { data with indirectBlock, doublyIndirectBlock } := by
            dsimp only at rest
            split at rest
            · cases rest
              rfl
            · split at rest <;> cases rest <;> rfl
          rw [before, not_or, ← changed, final]
          have room : 0 < freeCount second ↔
              (missingTree 1 (fun p => blockAt fs.disk.view data (.single p)) 128).length < freeCount fs := by omega
          have last : ¬ (251 < numSectors ∧ data.doublyIndirectBlock = 0 ∧
              (missingTree 1 (fun p => blockAt fs.disk.view data (.single p)) 128).length < freeCount fs) ↔
              doublyIndirectBlock = data.doublyIndirectBlock := by
            rw [changed', room, and_iff_right (by omega : 251 < numSectors), and_comm]
          rw [last]
          constructor
          · exact fun same => ⟨congrArg InodeDisk.indirectBlock same, congrArg InodeDisk.doublyIndirectBlock same⟩
          · rintro ⟨rfl, rfl⟩
            rfl
  case pos =>
    obtain ⟨i, inside, zero⟩ := missing
    have carried : after.directBlocks = directBlocks := by
      split at rest
      · cases rest
        rfl
      · split at rest
        · cases rest
          rfl
        · obtain ⟨⟨ok, _⟩, _, _, rest⟩ := bind_some rest
          dsimp only at rest
          split at rest
          · cases rest
            rfl
          · split at rest
            · cases rest
              rfl
            · obtain ⟨⟨ok, _⟩, _, _, rest⟩ := bind_some rest
              dsimp only at rest
              split at rest
              · cases rest
                rfl
              · split at rest <;> cases rest <;> rfl
    have lacking : ¬ ∀ j : Fin 123, 0 ≤ j.val → j.val < 0 + min numSectors 123 → data.directBlocks.get j ≠ 0 :=
      fun all => all i (Nat.zero_le _) (by omega) zero
    rcases Nat.eq_zero_or_pos (freeCount fs) with none | some
    · have same := direct.mpr (.inl none)
      cases ok with
      | true => exact absurd ((full none).mp rfl) lacking
      | false =>
        cases rest
        refine iff_of_true (same ▸ rfl) ?_
        rintro (⟨room, _⟩ | ⟨_, _, room⟩) <;> omega
    · refine iff_of_false (fun same => ?_) fun no => no (.inl ⟨some, .inl ⟨i, inside, zero⟩⟩)
      rcases direct.mp (carried.symm.trans (congrArg InodeDisk.directBlocks same)) with none | all
      · omega
      · exact lacking all

end Phases

end Comp310.Fs
