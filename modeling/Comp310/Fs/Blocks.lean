import Comp310.Fs.Handles

/-! Which sector belongs to what. A role is the inode sector of an object or a
position in its block map; the invariant says that no sector has two roles. -/

namespace Comp310.Fs
open Comp310.Lib

def IndexSector (v : View) (data : InodeDisk) (sector : Sector) : Prop :=
  ∃ p, p.isData = false ∧ blockAt v data p ≠ 0 ∧ sector = blockAt v data p

/-- The sectors of the free map file. -/
def MapData (fs : FileSystem) : Sector → Prop := DataSector fs.disk.view (curData fs 0)
def MapIndex (fs : FileSystem) : Sector → Prop := IndexSector fs.disk.view (curData fs 0)

/-- A role of an object: its inode sector, or a position in its map. -/
abbrev Role := Sector × Option InodePos

def claim (fs : FileSystem) : Role → Sector
  | (sector, none) => sector
  | (sector, some p) => blockAt fs.disk.view (curData fs sector) p

def Filled (fs : FileSystem) (role : Role) : Prop := role.2 ≠ none → claim fs role ≠ 0

/-- The block map of an object reaches all of its bytes. -/
structure Sound (fs : FileSystem) (sector : Sector) : Prop where
  nonneg : 0 ≤ (curData fs sector).length
  limit : (curData fs sector).length ≤ 8517120
  mapped : ∀ p : InodePos, (p.first * 512 : Nat) < (curData fs sector).length →
    blockAt fs.disk.view (curData fs sector) p ≠ 0

/-- The free map file is open and has room for the free map. -/
def MapOpen (fs : FileSystem) : Prop :=
  ∃ file inode, fs.freeMapFile = some file ∧ (file.inode, inode) ∈ fs.openInodes ∧ inode.sector = 0 ∧
    inode.data.length = byteCnt fs.freeMap.length

/-- The objects that are live share no sector, and the free map knows theirs. -/
structure Blocks (live : Sector → Prop) (fs : FileSystem) : Prop where
  size : fs.freeMap.length + 1 = fs.disk.size
  panics : fs.panics = 0
  handles : Handles fs
  opens : ∀ entry ∈ fs.openInodes, live entry.2.sector
  mapLive : live 0
  mapOpen : MapOpen fs
  padded : Padded fs
  sound : ∀ sector, live sector → Sound fs sector
  used : ∀ role, live role.1 → Filled fs role → Used fs (claim fs role)
  apart : ∀ a b, live a.1 → live b.1 → Filled fs a → Filled fs b → claim fs a = claim fs b → a = b

/-- The inode in memory, if there is one, is what its sector holds. -/
def UpToDate (fs : FileSystem) (sector : Sector) : Prop := InodeDisk.ofBlock (fs.disk.view sector) = curData fs sector

/-- An object that is as it was before; of the free map file only the map is meant. -/
structure Same (fs fs' : FileSystem) (sector : Sector) : Prop where
  data : curData fs' sector = curData fs sector
  index : ∀ p, p.isData = false → blockAt fs.disk.view (curData fs sector) p ≠ 0 →
    fs'.disk.view (blockAt fs.disk.view (curData fs sector) p) = fs.disk.view (blockAt fs.disk.view (curData fs sector) p)
  inode : sector ≠ 0 → fs'.disk.view sector = fs.disk.view sector
  bytes : sector ≠ 0 → ∀ p, blockAt fs.disk.view (curData fs sector) p ≠ 0 →
    fs'.disk.view (blockAt fs.disk.view (curData fs sector) p) = fs.disk.view (blockAt fs.disk.view (curData fs sector) p)

variable {live live' : Sector → Prop} {fs middle fs' : FileSystem} {sector : Sector} {role : Role}

theorem filled_inode : Filled fs (sector, none) := fun absurd' => absurd rfl absurd'

theorem filled_place {p : InodePos} : Filled fs (sector, some p) ↔ blockAt fs.disk.view (curData fs sector) p ≠ 0 :=
  ⟨fun filled => filled nofun, fun present _ => present⟩

/-- An object has each of its sectors once if no place has the sector of its inode, and no two places the same. -/
theorem claim_injective (apart : ∀ p, Filled fs (sector, some p) → claim fs (sector, some p) ≠ sector)
    (distinct : ∀ p q, Filled fs (sector, some p) → claim fs (sector, some p) = claim fs (sector, some q) → p = q) {p q : Option InodePos}
    (filled : Filled fs (sector, p)) (filled' : Filled fs (sector, q)) (equal : claim fs (sector, p) = claim fs (sector, q)) : p = q := by
  cases p with
  | none =>
    cases q with
    | none => rfl
    | some q => exact absurd equal.symm (apart q filled')
  | some p =>
    cases q with
    | none => exact absurd equal (apart p filled)
    | some q => rw [distinct p q filled equal]

section Objects

theorem Same.refl : Same fs fs sector := ⟨rfl, fun _ _ _ => rfl, fun _ => rfl, fun _ _ _ => rfl⟩

theorem Same.blockAt (same : Same fs fs' sector) :
    Fs.blockAt fs'.disk.view (curData fs' sector) = Fs.blockAt fs.disk.view (curData fs sector) := by
  rw [same.data]
  exact funext fun p => blockAt_congr p same.index

theorem Same.claim (same : Same fs fs' role.1) : Fs.claim fs' role = Fs.claim fs role := by
  obtain ⟨sector, _ | p⟩ := role
  · rfl
  · exact congrFun same.blockAt p

theorem Same.filled (same : Same fs fs' role.1) : Filled fs' role ↔ Filled fs role := by
  unfold Filled
  rw [same.claim]

theorem Same.fileByte (same : Same fs fs' sector) (nonzero : sector ≠ 0) (i : Nat) :
    Fs.fileByte fs'.disk.view (curData fs' sector) i = Fs.fileByte fs.disk.view (curData fs sector) i := by
  rw [same.data]
  exact fileByte_congr i (same.bytes nonzero)

theorem Same.sound (same : Same fs fs' sector) (sound : Sound fs sector) : Sound fs' sector := by
  refine ⟨?_, ?_, ?_⟩
  · rw [same.data]
    exact sound.nonneg
  · rw [same.data]
    exact sound.limit
  · rw [same.blockAt, same.data]
    exact sound.mapped

theorem Same.upToDate (same : Same fs fs' sector) (nonzero : sector ≠ 0) (upToDate : UpToDate fs sector) : UpToDate fs' sector := by
  rw [UpToDate, same.inode nonzero, same.data]
  exact upToDate

theorem Same.trans (first : Same fs middle sector) (second : Same middle fs' sector) : Same fs fs' sector := by
  have map := first.blockAt
  refine ⟨second.data.trans first.data, fun p inner present => ?_,
    fun nonzero => (second.inode nonzero).trans (first.inode nonzero), fun nonzero p present => ?_⟩
  · rw [← first.index p inner present, ← congrFun map p]
    exact second.index p inner (congrFun map p ▸ present)
  · rw [← first.bytes nonzero p present, ← congrFun map p]
    exact second.bytes nonzero p (congrFun map p ▸ present)

end Objects

section Invariant
variable (blocks : Blocks live fs)
include blocks

theorem Blocks.inRange (role : Role) (member : live role.1) (filled : Filled fs role) : (claim fs role).toNat < fs.disk.size := by
  have inside := (blocks.used role member filled).inRange
  have size := blocks.size
  omega

theorem Blocks.nonzero (role : Role) (member : live role.1) (filled : Filled fs role) (other : role ≠ (0, none)) : claim fs role ≠ 0 :=
  fun zero => other (blocks.apart role (0, none) member blocks.mapLive filled filled_inode zero)

/-- A free map that was only added to, and has as many free sectors as before, is the same. -/
theorem Blocks.freeMap_ext (length : fs'.freeMap.length = fs.freeMap.length) (mono : ∀ sector, Used fs sector → Used fs' sector)
    (count : freeCount fs' = freeCount fs) : fs'.freeMap = fs.freeMap := by
  refine bitmap_ext length (fun i used => ?_) count
  have inside := (List.getElem?_eq_some_iff.mp used).1
  have size := blocks.size
  have bounded := fs.disk.size_lt
  have index : (UInt32.ofNat i).toNat = i := UInt32.toNat_ofNat_of_lt' (Nat.lt_trans (show i < fs.disk.size by omega) bounded)
  have same := mono (UInt32.ofNat i)
  simp only [Used, index] at same
  exact same used

theorem Blocks.readable (member : live sector) : Readable fs (curData fs sector) := by
  have sound := blocks.sound sector member
  exact ⟨sound.nonneg, sound.limit,
    fun p present => blocks.inRange (sector, some p) member (filled_place.mpr present), sound.mapped⟩

theorem Blocks.distinct (member : live sector) : Distinct (blockAt fs.disk.view (curData fs sector)) := by
  intro p q present same
  have equal := blocks.apart (sector, some p) (sector, some q) member member (filled_place.mpr present)
    (filled_place.mpr (same ▸ present)) same
  injection equal with _ equal
  injection equal

theorem Blocks.mapData_role {other : Sector} (mine : MapData fs other) :
    ∃ p, p.isData = true ∧ Filled fs (0, some p) ∧ other = claim fs (0, some p) := by
  obtain ⟨index, inside, rfl⟩ := mine
  have sound := blocks.sound 0 blocks.mapLive
  have limit := sound.limit
  have small : index < 16635 := by omega
  exact ⟨.data index, data_isData index, filled_place.mpr (sound.mapped _ (by rwa [data_first small])), rfl⟩

/-- What is in another role is none of the free map file's data. -/
theorem Blocks.not_mapData (role : Role) (member : live role.1) (filled : Filled fs role)
    (other : ∀ p, p.isData = true → role ≠ (0, some p)) : ¬ MapData fs (claim fs role) := by
  intro mine
  obtain ⟨p, atBottom, filled', same⟩ := blocks.mapData_role mine
  exact other p atBottom (blocks.apart _ _ member blocks.mapLive filled filled' same)

theorem Blocks.service : Service (MapData fs) (MapIndex fs) fs := by
  obtain ⟨file, inode, opened, member, home, length⟩ := blocks.mapOpen
  have data : curData fs 0 = inode.data := home ▸ blocks.handles.curData member
  have size := blocks.size
  have readable := blocks.readable blocks.mapLive
  have distinct := blocks.distinct blocks.mapLive
  refine ⟨by omega, blocks.used (0, none) blocks.mapLive filled_inode, ?_, ?_, ?_⟩
  · rintro other (mine | ⟨p, inner, present, rfl⟩)
    · obtain ⟨p, _, filled, rfl⟩ := blocks.mapData_role mine
      exact ⟨blocks.used _ blocks.mapLive filled, filled nofun⟩
    · exact ⟨blocks.used (0, some p) blocks.mapLive (filled_place.mpr present), present⟩
  · rintro other mine ⟨p, inner, present, rfl⟩
    refine blocks.not_mapData (0, some p) blocks.mapLive (filled_place.mpr present) (fun q atBottom same => ?_) mine
    injection same with _ same
    injection same with same
    rw [same, atBottom] at inner
    cases inner
  · intro file' opened'
    cases opened.symm.trans opened'
    rw [data] at readable distinct
    refine ⟨inode, blocks.handles.inode? member, (blocks.handles.plain _ member).2.2, length, readable, distinct, ?_, ?_⟩
    · intro other mine
      rw [MapData, data]
      exact mine
    · intro p inner present
      rw [MapIndex, data]
      exact ⟨p, inner, present, rfl⟩

/-- The map of any other live object is one that may be extended. -/
theorem Blocks.held (member : live sector) (nonzero : sector ≠ 0) :
    Held (MapData fs) (MapIndex fs) fs (blockAt fs.disk.view (curData fs sector)) := by
  refine ⟨⟨fun p present => blocks.used (sector, some p) member (filled_place.mpr present), blocks.distinct member⟩,
    fun p present => ⟨?_, ?_⟩⟩
  · refine blocks.not_mapData (sector, some p) member (filled_place.mpr present) fun q _ same => ?_
    injection same with same
    exact nonzero same
  · rintro ⟨q, _, present', same⟩
    have equal := blocks.apart (sector, some p) (0, some q) member blocks.mapLive (filled_place.mpr present)
      (filled_place.mpr present') same
    injection equal with equal
    exact nonzero equal

/-- An object that nothing permitted belongs to, the data of the free map aside, is as it was. -/
theorem Blocks.same {permitted foreign : Sector → Prop} (touches : Touches permitted fs fs') (member : live sector)
    (wider : ∀ other, permitted other → MapData fs other ∨ other = 0 ∨ foreign other)
    (away : ∀ place, Filled fs (sector, place) → ¬ foreign (claim fs (sector, place)))
    (data : Settled fs fs' sector → curData fs' sector = curData fs sector) : Same fs fs' sector := by
  have kept (place : Option InodePos) (filled : Filled fs (sector, place))
      (other : ∀ p, p.isData = true → (sector, place) ≠ ((0, some p) : Role)) (inner : (sector, place) ≠ ((0, none) : Role)) :
      fs'.disk.view (claim fs (sector, place)) = fs.disk.view (claim fs (sector, place)) := by
    refine touches.view fun allowed => ?_
    rcases wider _ allowed with mine | zero | theirs
    · exact blocks.not_mapData (sector, place) member filled other mine
    · exact blocks.nonzero (sector, place) member filled inner zero
    · exact away place filled theirs
  have inode (nonzero : sector ≠ 0) : fs'.disk.view sector = fs.disk.view sector :=
    kept none filled_inode (fun _ _ same => by injection same with same; exact nonzero same)
      (fun same => by injection same with same; exact nonzero same)
  refine ⟨data ?_, fun p inner present => ?_, inode, fun nonzero p present => ?_⟩
  · by_cases zero : sector = 0
    · obtain ⟨file, inode, _, member, home, _⟩ := blocks.mapOpen
      exact .inl ⟨_, member, home.trans zero.symm⟩
    · exact .inr (by rw [inode zero])
  · refine kept (some p) (filled_place.mpr present) (fun q atBottom same => ?_) nofun
    injection same with _ same
    injection same with same
    rw [same, atBottom] at inner
    cases inner
  · exact kept (some p) (filled_place.mpr present) (fun q _ same => by injection same with same; exact nonzero same) nofun

/-- Objects whose maps may have lost some, in a state that may have lost others. -/
theorem Blocks.frame (narrower : ∀ sector, live' sector → live sector) (mapLive : live' 0)
    (size : fs'.disk.size = fs.disk.size) (length : fs'.freeMap.length = fs.freeMap.length) (panics : fs'.panics = fs.panics)
    (handles : Handles fs') (opens : ∀ entry ∈ fs'.openInodes, live' entry.2.sector) (mapOpen : MapOpen fs') (padded : Padded fs')
    (sound : ∀ sector, live' sector → Sound fs' sector)
    (less : ∀ role, live' role.1 → Filled fs' role → Filled fs role ∧ claim fs' role = claim fs role)
    (used : ∀ role, live' role.1 → Filled fs role → Used fs' (claim fs role)) : Blocks live' fs' := by
  refine ⟨by rw [size, length, blocks.size], panics.trans blocks.panics, handles, opens, mapLive, mapOpen, padded, sound, ?_, ?_⟩
  · intro role member filled
    obtain ⟨before, same⟩ := less role member filled
    rw [same]
    exact used role member before
  · intro a b member member' filled filled' equal
    obtain ⟨before, same⟩ := less a member filled
    obtain ⟨before', same'⟩ := less b member' filled'
    rw [same, same'] at equal
    exact blocks.apart a b (narrower _ member) (narrower _ member') before before' equal

theorem Blocks.insert (sound : Sound fs sector)
    (used : ∀ place, Filled fs (sector, place) → Used fs (claim fs (sector, place)))
    (distinct : ∀ p q, Filled fs (sector, p) → Filled fs (sector, q) → claim fs (sector, p) = claim fs (sector, q) → p = q)
    (apart : ∀ role place, live role.1 → role.1 ≠ sector → Filled fs role → Filled fs (sector, place) →
      claim fs role ≠ claim fs (sector, place)) :
    Blocks (fun other => live other ∨ other = sector) fs := by
  refine ⟨blocks.size, blocks.panics, blocks.handles, fun entry member => .inl (blocks.opens entry member), .inl blocks.mapLive,
    blocks.mapOpen, blocks.padded, ?_, ?_, ?_⟩
  · rintro other (member | rfl)
    · exact blocks.sound other member
    · exact sound
  · rintro ⟨other, place⟩ (member | rfl) filled
    · exact blocks.used _ member filled
    · exact used place filled
  · rintro ⟨first, place⟩ ⟨second, place'⟩ member member' filled filled' equal
    by_cases mine : first = sector <;> by_cases mine' : second = sector
    · subst mine mine'
      rw [distinct place place' filled filled' equal]
    · subst mine
      exact absurd equal.symm (apart _ place (member'.resolve_right mine') mine' filled' filled)
    · subst mine'
      exact absurd equal (apart _ place' (member.resolve_right mine) mine filled filled')
    · exact blocks.apart _ _ (member.resolve_right mine) (member'.resolve_right mine') filled filled' equal

end Invariant

end Comp310.Fs
