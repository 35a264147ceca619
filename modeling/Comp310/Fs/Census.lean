import Mathlib.Data.List.Nodup
import Mathlib.Data.List.Perm.Subperm
import Mathlib.Algebra.Ring.Nat
import Comp310.Fs.Layout
import Comp310.Fs.Needed

/-! A census of the sectors in use: the objects that are live have at least the blocks that their lengths need, and what is beyond them was lost. -/

namespace Comp310.Fs
open Comp310.Lib

section Marks

/-- The places of the bits that are set. -/
def marks (bits : List Bool) : List Nat := (List.range bits.length).filter fun i => bits[i]? == some true

variable {bits : List Bool} {places : List Nat}

theorem mem_marks {i : Nat} : i ∈ marks bits ↔ bits[i]? = some true := by
  rw [marks, List.mem_filter, List.mem_range, beq_iff_eq]
  exact and_iff_right_of_imp fun set => (List.getElem?_eq_some_iff.mp set).1

theorem marks_length (bits : List Bool) : (marks bits).length = bits.count true := by
  induction bits using List.reverseRecOn with
  | nil => rfl
  | append_singleton bits bit ih =>
    have before : ((List.range bits.length).filter fun i => (bits ++ [bit])[i]? == some true) = marks bits :=
      List.filter_congr fun i inside => by rw [List.getElem?_append_left (List.mem_range.mp inside)]
    rw [marks, List.length_append, List.length_singleton, List.range_succ, List.filter_append, List.length_append, before, ih, List.count_append,
      List.filter_singleton, List.getElem?_append_right (Nat.le_refl _), Nat.sub_self]
    cases bit <;> rfl

theorem places_le (once : places.Nodup) (set : ∀ i ∈ places, bits[i]? = some true) : places.length ≤ bits.count true := by
  rw [← marks_length]
  exact (List.subperm_of_subset once fun i member => mem_marks.mpr (set i member)).length_le

theorem places_all (once : places.Nodup) (set : ∀ i ∈ places, bits[i]? = some true) (whole : places.length = bits.count true) {i : Nat}
    (bit : bits[i]? = some true) : i ∈ places := by
  have sub := List.subperm_of_subset once fun i member => mem_marks.mpr (set i member)
  have same := sub.perm_of_length_le (by rw [marks_length, whole])
  exact same.mem_iff.mpr (mem_marks.mpr bit)

end Marks

/-- The sectors that an object of its length has: its inode, its data and their index blocks. -/
def cost (fs : FileSystem) (sector : Sector) : Nat := 1 + sectorsNeeded (bytesToSectors (curData fs sector).length)

/-- The roles that an object of its length has filled. -/
def roles (fs : FileSystem) (sector : Sector) : List Role :=
  (sector, none) :: (needed (bytesToSectors (curData fs sector).length)).map fun p => (sector, some p)

def fileSectors (fs : FileSystem) : List Sector := (((slots fs).drop 1).filter (·.inUse)).map (·.inodeSector)

/-- The inode sectors of the free map, the root directory and the files. -/
def owners (fs : FileSystem) : List Sector := 0 :: 1 :: fileSectors fs

variable {fs fs' : FileSystem} {live : Sector → Prop} {sector : Sector} {held : List Sector}

theorem roles_length : (roles fs sector).length = cost fs sector := by
  rw [roles, List.length_cons, List.length_map, needed_length, cost, Nat.add_comm]

theorem mem_roles {role : Role} : role ∈ roles fs sector ↔ role.1 = sector ∧ ∀ p, role.2 = some p → p.first < bytesToSectors (curData fs sector).length := by
  obtain ⟨owner, place⟩ := role
  rw [roles, List.mem_cons, List.mem_map, Prod.mk.injEq]
  constructor
  · rintro (⟨rfl, rfl⟩ | ⟨p, member, same⟩)
    · exact ⟨rfl, fun p place => absurd place.symm (Option.some_ne_none p)⟩
    · cases same
      exact ⟨rfl, fun q same => Option.some.inj same ▸ mem_needed.mp member⟩
  · rintro ⟨rfl, below⟩
    cases place with
    | none => exact .inl ⟨rfl, rfl⟩
    | some p => exact .inr ⟨p, mem_needed.mpr (below p rfl), rfl⟩

theorem nodup_roles : (roles fs sector).Nodup := by
  refine List.nodup_cons.mpr ⟨fun member => ?_, nodup_needed.map fun p q same => Option.some.inj (Prod.mk.inj same).2⟩
  obtain ⟨p, _, same⟩ := List.mem_map.mp member
  cases same

theorem held_length (held : List Sector) : (held.flatMap (roles fs)).length = (held.map (cost fs)).sum := by
  rw [List.length_flatMap]
  exact congrArg List.sum (List.map_congr_left fun sector _ => roles_length)

theorem nodup_held (once : held.Nodup) : (held.flatMap (roles fs)).Nodup := by
  refine List.nodup_flatMap.mpr ⟨fun _ _ => nodup_roles, once.imp fun differs role member member' => differs ?_⟩
  exact (mem_roles.mp member).1.symm.trans (mem_roles.mp member').1

section Counting
variable (blocks : Blocks live fs)
include blocks

private theorem claims_once {fillers : List Role} (once : fillers.Nodup) (filled : ∀ role ∈ fillers, live role.1 ∧ Filled fs role) :
    (fillers.map fun role => (claim fs role).toNat).Nodup := by
  refine List.Nodup.map_on (fun role member role' member' same => ?_) once
  exact blocks.apart role role' (filled role member).1 (filled role' member').1 (filled role member).2 (filled role' member').2 (UInt32.toNat_inj.mp same)

private theorem claims_set {fillers : List Role} (filled : ∀ role ∈ fillers, live role.1 ∧ Filled fs role) :
    ∀ i ∈ fillers.map fun role => (claim fs role).toNat, fs.freeMap[i]? = some true := by
  intro i member
  obtain ⟨role, there, rfl⟩ := List.mem_map.mp member
  exact blocks.used role (filled role there).1 (filled role there).2

theorem Blocks.fillers_le {fillers : List Role} (once : fillers.Nodup) (filled : ∀ role ∈ fillers, live role.1 ∧ Filled fs role) :
    fillers.length ≤ usedCount fs := by
  have bound := places_le (claims_once blocks once filled) (claims_set blocks filled)
  rwa [List.length_map] at bound

/-- If these are as many as the sectors in use, there are no others, and no sector is lost. -/
theorem Blocks.fillers_all {fillers : List Role} (once : fillers.Nodup) (filled : ∀ role ∈ fillers, live role.1 ∧ Filled fs role)
    (whole : fillers.length = usedCount fs) : (∀ role, live role.1 → Filled fs role → role ∈ fillers) ∧
      ∀ sector, Used fs sector → ∃ role ∈ fillers, claim fs role = sector := by
  have all (sector : Sector) (used : Used fs sector) : ∃ role ∈ fillers, claim fs role = sector := by
    have place := places_all (claims_once blocks once filled) (claims_set blocks filled) (by rw [List.length_map, whole, usedCount]) used
    obtain ⟨role, member, same⟩ := List.mem_map.mp place
    exact ⟨role, member, UInt32.toNat_inj.mp same⟩
  refine ⟨fun role member present => ?_, all⟩
  obtain ⟨other, there, same⟩ := all _ (blocks.used role member present)
  rw [← blocks.apart other role (filled other there).1 member (filled other there).2 present same]
  exact there

theorem Blocks.roles_filled (member : live sector) {role : Role} (mine : role ∈ roles fs sector) : live role.1 ∧ Filled fs role := by
  obtain ⟨owner, place⟩ := role
  obtain ⟨same, below⟩ := mem_roles.mp mine
  dsimp only at same
  subst same
  refine ⟨member, ?_⟩
  cases place with
  | none => exact filled_inode
  | some p =>
    have sound := blocks.sound _ member
    have limit := sound.limit
    have inside := below p rfl
    rw [bytesToSectors_eq sound.nonneg (by omega)] at inside
    exact filled_place.mpr (sound.mapped p (by omega))

/-- Live objects never have more sectors than are in use. -/
theorem Blocks.cost_le (once : held.Nodup) (all : ∀ sector ∈ held, live sector) : (held.map (cost fs)).sum ≤ usedCount fs := by
  rw [← held_length]
  refine blocks.fillers_le (nodup_held once) fun role member => ?_
  obtain ⟨sector, there, mine⟩ := List.mem_flatMap.mp member
  exact blocks.roles_filled (all sector there) mine

/-- If they have them all, each has the blocks that its length needs and no others, and every sector in use has its role. -/
theorem Blocks.cost_exact (once : held.Nodup) (all : ∀ sector, sector ∈ held ↔ live sector) (whole : (held.map (cost fs)).sum = usedCount fs) :
    (∀ sector, live sector → Exact fs sector) ∧ ∀ sector, Used fs sector ↔ ∃ role : Role, live role.1 ∧ Filled fs role ∧ claim fs role = sector := by
  have filled (role : Role) (member : role ∈ held.flatMap (roles fs)) : live role.1 ∧ Filled fs role := by
    obtain ⟨sector, there, mine⟩ := List.mem_flatMap.mp member
    exact blocks.roles_filled ((all sector).mp there) mine
  obtain ⟨every, lost⟩ := blocks.fillers_all (nodup_held once) filled ((held_length held).trans whole)
  refine ⟨fun sector member p => ⟨fun empty => ?_, fun past => ?_⟩, fun sector => ⟨fun used => ?_, fun ⟨role, member, present, same⟩ => ?_⟩⟩
  · have sound := blocks.sound _ member
    have limit := sound.limit
    rw [bytesToSectors_eq sound.nonneg (by omega)]
    by_cases inside : (p.first * 512 : Nat) < (curData fs sector).length
    · exact absurd empty (sound.mapped p inside)
    · omega
  · apply Classical.byContradiction
    intro present
    obtain ⟨owner, _, mine⟩ := List.mem_flatMap.mp (every (sector, some p) member (filled_place.mpr present))
    obtain ⟨same, below⟩ := mem_roles.mp mine
    have inside := below p rfl
    dsimp only at same
    rw [← same] at inside
    omega
  · obtain ⟨role, member, same⟩ := lost sector used
    exact ⟨role, (filled role member).1, (filled role member).2, same⟩
  · rw [← same]
    exact blocks.used role member present

end Counting

end Comp310.Fs
