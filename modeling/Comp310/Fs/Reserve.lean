import Comp310.Lib.Growth
import Comp310.Fs.Service

/-! What `inode_reserve` does to the disk and to the block map it extends, for
every number of free sectors, also when they run out half way. -/

namespace Comp310.Fs
open Comp310.Lib

section Steps
variable {π κ : Type} {own keep : Sector → Prop} {isData : π → Bool} {needed needed' : π → Prop}
  {missing missing' : List Bool} {fs middle fs' : FileSystem} {before between after : π → Sector} {success success' : Bool}

/-- The sectors that reserving may write: the free map file, what it allocates,
the index blocks that were there, and sector 0 where an index block is due but
no sector is left. -/
def Permitted (own : Sector → Prop) (isData : π → Bool) (before : π → Sector) (missing : List Bool)
    (fs fs' : FileSystem) (sector : Sector) : Prop :=
  own sector ∨ (¬ Used fs sector ∧ Used fs' sector) ∨
    (∃ p, isData p = false ∧ before p ≠ 0 ∧ sector = before p) ∨
    (sector = 0 ∧ missing[freeCount fs]? = some true)

/-- A stretch of reserving, on a map from positions to sectors. `missing` lists
the blocks that are asked for and not there, in order, true for an index block. -/
structure Reserved (own keep : Sector → Prop) (isData : π → Bool) (needed : π → Prop) (missing : List Bool)
    (fs fs' : FileSystem) (before after : π → Sector) (success : Bool) : Prop where
  heap : SameHeap fs fs'
  service : Service own keep fs'
  follows : Follows fs fs'
  length : fs'.freeMap.length = fs.freeMap.length
  grows : Grows 0 (Used fs) (Used fs') before after
  blank : ∀ p, isData p = true → before p = 0 → after p ≠ 0 → fs'.disk.view (after p) = zeros
  touches : Touches (Permitted own isData before missing fs fs') fs fs'
  spoils : missing[freeCount fs]? = some true → fs.disk.written.count 0 < fs'.disk.written.count 0
  count : freeCount fs' = freeCount fs - missing.length
  outcome : success = true ↔ missing.length ≤ freeCount fs
  complete : success = true → ∀ p, needed p → after p ≠ 0
  minimal : success = true → ∀ p, ¬ needed p → before p = 0 → after p = 0

/-- The map is that of a live object: its sectors are in use, each once, and
none belongs to the free map file. -/
structure Held (own keep : Sector → Prop) (fs : FileSystem) (map : π → Sector) : Prop where
  placed : Placed 0 (Used fs) map
  foreign : ∀ p, map p ≠ 0 → ¬ own (map p) ∧ ¬ keep (map p)

theorem Held.of_nothing (nothing : before = fun _ => 0) : Held own keep fs before := by
  subst nothing
  exact ⟨⟨fun _ present => absurd rfl present, fun _ _ present => absurd rfl present⟩, fun _ present => absurd rfl present⟩

theorem Touches.count_le {permitted : Sector → Prop} (touches : Touches permitted fs fs') (sector : Sector) :
    fs.disk.written.count sector ≤ fs'.disk.written.count sector := by
  obtain ⟨_, added, written, _⟩ := touches
  rw [written, List.count_append]
  omega

theorem Reserved.held (reserved : Reserved own keep isData needed missing fs fs' before after success)
    (service : Service own keep fs) (held : Held own keep fs before) : Held own keep fs' after := by
  refine ⟨reserved.grows.placed held.placed, fun p present => ?_⟩
  by_cases absent : before p = 0
  · have free := (reserved.grows.fresh p absent present).1
    exact ⟨fun mine => free (service.used _ (.inl mine)).1, fun kept => free (service.used _ (.inr kept)).1⟩
  · rw [reserved.grows.keep p absent]
    exact held.foreign p absent

/-- A sector in use that is none of those permitted reads the same afterwards. -/
theorem Reserved.view_eq (reserved : Reserved own keep isData needed missing fs fs' before after success)
    {sector : Sector} (used : Used fs sector) (foreign : ¬ own sector) (nonzero : sector ≠ 0)
    (other : ∀ p, isData p = false → before p ≠ 0 → sector ≠ before p) :
    fs'.disk.view sector = fs.disk.view sector := by
  refine reserved.touches.view ?_
  rintro (mine | ⟨free, _⟩ | ⟨p, index, present, same⟩ | ⟨zero, _⟩)
  · exact foreign mine
  · exact free used
  · exact other p index present same
  · exact nonzero zero

theorem Reserved.refl (service : Service own keep fs) (there : ∀ p, needed p → before p ≠ 0) :
    Reserved own keep isData needed [] fs fs before before true :=
  ⟨.refl, service, .refl, rfl, .refl, fun _ _ absent present => absurd absent present, .refl, by simp,
    rfl, by simp, fun _ => there, fun _ _ _ => id⟩

theorem Reserved.permitted_later (first : Reserved own keep isData needed missing fs middle before between true)
    (second : Reserved own keep isData needed' missing' middle fs' between after success) {sector : Sector}
    (member : Permitted own isData between missing' middle fs' sector) :
    Permitted own isData before (missing ++ missing') fs fs' sector := by
  have enough := first.outcome.mp rfl
  rcases member with mine | ⟨free, taken⟩ | ⟨p, index, present, rfl⟩ | ⟨zero, due⟩
  · exact .inl mine
  · exact .inr (.inl ⟨fun used => free (first.grows.mono _ used), taken⟩)
  · by_cases absent : before p = 0
    · obtain ⟨free, taken⟩ := first.grows.fresh p absent present
      exact .inr (.inl ⟨free, second.grows.mono _ taken⟩)
    · exact .inr (.inr (.inl ⟨p, index, absent, first.grows.keep p absent⟩))
  · refine .inr (.inr (.inr ⟨zero, ?_⟩))
    rw [List.getElem?_append_right enough, ← first.count]
    exact due

theorem Reserved.trans (first : Reserved own keep isData needed missing fs middle before between true)
    (second : Reserved own keep isData needed' missing' middle fs' between after success)
    (service : Service own keep fs) (held : Held own keep fs before) :
    Reserved own keep isData (fun p => needed p ∨ needed' p) (missing ++ missing') fs fs' before after success := by
  have enough := first.outcome.mp rfl
  have held' := first.held service held
  have earlier {sector : Sector} (member : Permitted own isData before missing fs middle sector) :
      Permitted own isData before (missing ++ missing') fs fs' sector := by
    rcases member with mine | ⟨free, taken⟩ | index | ⟨_, due⟩
    · exact .inl mine
    · exact .inr (.inl ⟨free, second.grows.mono _ taken⟩)
    · exact .inr (.inr (.inl index))
    · rw [List.getElem?_eq_none enough] at due
      cases due
  refine ⟨first.heap.trans second.heap, second.service, first.follows.trans second.follows,
    second.length.trans first.length, first.grows.trans second.grows, ?_,
    (first.touches.mono fun _ => earlier).trans (second.touches.mono fun _ => first.permitted_later second),
    ?_, ?_, ?_, ?_, ?_⟩
  · intro p atBottom absent present
    by_cases assigned : between p = 0
    · exact second.blank p atBottom assigned present
    · have kept := second.grows.keep p assigned
      rw [kept, second.view_eq (held'.placed.used p assigned) (held'.foreign p assigned).1 assigned]
      · exact first.blank p atBottom absent assigned
      · intro q index _ same
        rw [held'.placed.distinct p q assigned same, index] at atBottom
        cases atBottom
  · intro due
    rw [List.getElem?_append_right enough, ← first.count] at due
    exact Nat.lt_of_le_of_lt (first.touches.count_le 0) (second.spoils due)
  · rw [second.count, first.count, List.length_append]
    omega
  · rw [second.outcome, first.count, List.length_append]
    omega
  · rintro succeeded p (early | late)
    · have assigned := first.complete rfl p early
      exact second.grows.keep p assigned ▸ assigned
    · exact second.complete succeeded p late
  · intro succeeded p idle absent
    rw [not_or] at idle
    exact second.minimal succeeded p idle.2 (first.minimal rfl p idle.1 absent)

/-- After a failure the rest of what was asked for is not looked at. -/
theorem Reserved.stop (failed : Reserved own keep isData needed missing fs fs' before after false) :
    Reserved own keep isData needed' (missing ++ missing') fs fs' before after false := by
  have short : freeCount fs < missing.length := by
    rcases Nat.lt_or_ge (freeCount fs) missing.length with short | enough
    · exact short
    · cases failed.outcome.mpr enough
  have due : (missing ++ missing')[freeCount fs]? = missing[freeCount fs]? := List.getElem?_append_left short
  refine ⟨failed.heap, failed.service, failed.follows, failed.length, failed.grows, failed.blank, ?_, ?_, ?_, ?_,
    by simp, by simp⟩
  · refine failed.touches.mono fun sector member => ?_
    rwa [Permitted, due]
  · rw [due]
    exact failed.spoils
  · rw [failed.count, List.length_append]
    omega
  · rw [List.length_append]
    simp only [Bool.false_eq_true, false_iff]
    omega

theorem Reserved.embed {isData' : κ → Bool} {wanted : κ → Prop} {whole whole' : κ → Sector}
    (reserved : Reserved own keep isData needed missing fs fs' before after success) (place : π → κ)
    (kind : ∀ p, isData' (place p) = isData p) (wants : ∀ k, wanted k ↔ ∃ p, k = place p ∧ needed p)
    (inside : ∀ p, whole (place p) = before p) (inside' : ∀ p, whole' (place p) = after p)
    (outside : ∀ k, (∀ p, k ≠ place p) → whole' k = whole k) :
    Reserved own keep isData' wanted missing fs fs' whole whole' success := by
  have reach (k : κ) (absent : whole k = 0) (present : whole' k ≠ 0) : ∃ p, k = place p := by
    by_cases found : ∃ p, k = place p
    · exact found
    · rw [outside k fun p same => found ⟨p, same⟩] at present
      exact absurd absent present
  refine ⟨reserved.heap, reserved.service, reserved.follows, reserved.length,
    reserved.grows.embed place inside inside' outside, ?_, ?_, reserved.spoils, reserved.count, reserved.outcome, ?_, ?_⟩
  · intro k atBottom absent present
    obtain ⟨p, rfl⟩ := reach k absent present
    rw [inside'] at present ⊢
    exact reserved.blank p (kind p ▸ atBottom) (inside p ▸ absent) present
  · refine reserved.touches.mono fun sector => ?_
    rintro (mine | taken | ⟨p, index, present, same⟩ | zero)
    · exact .inl mine
    · exact .inr (.inl taken)
    · exact .inr (.inr (.inl ⟨place p, (kind p).trans index, inside p ▸ present, same.trans (inside p).symm⟩))
    · exact .inr (.inr (.inr zero))
  · intro succeeded k want
    obtain ⟨p, rfl, need⟩ := (wants k).mp want
    rw [inside']
    exact reserved.complete succeeded p need
  · intro succeeded k idle absent
    by_cases found : ∃ p, k = place p
    · obtain ⟨p, rfl⟩ := found
      rw [inside']
      refine reserved.minimal succeeded p (fun need => idle ((wants _).mpr ⟨p, rfl, need⟩)) (inside p ▸ absent)
    · rw [outside k fun p same => found ⟨p, same⟩, absent]

theorem Reserved.needs (reserved : Reserved own keep isData needed missing fs fs' before after success)
    (same : ∀ p, needed p ↔ needed' p) : Reserved own keep isData needed' missing fs fs' before after success := by
  rwa [funext fun p => propext (same p)] at reserved

theorem Reserved.widen (reserved : Reserved own keep isData needed missing fs fs' before after success)
    (wider : ∀ p, needed p → needed' p) (there : ∀ p, needed' p → needed p ∨ before p ≠ 0) :
    Reserved own keep isData needed' missing fs fs' before after success := by
  refine ⟨reserved.heap, reserved.service, reserved.follows, reserved.length, reserved.grows, reserved.blank,
    reserved.touches, reserved.spoils, reserved.count, reserved.outcome, ?_, ?_⟩
  · intro succeeded p need
    rcases there p need with need | present
    · exact reserved.complete succeeded p need
    · exact (reserved.grows.keep p present).symm ▸ present
  · exact fun succeeded p idle => reserved.minimal succeeded p fun need => idle (wider p need)

/-- After a failure the map may have lost some of what was allocated. -/
theorem Reserved.drop (failed : Reserved own keep isData needed missing fs fs' before between false)
    (dropped : ∀ p, after p = between p ∨ (before p = 0 ∧ after p = 0)) :
    Reserved own keep isData needed missing fs fs' before after false := by
  refine ⟨failed.heap, failed.service, failed.follows, failed.length, failed.grows.drop dropped, ?_, failed.touches,
    failed.spoils, failed.count, failed.outcome, by simp, by simp⟩
  intro p atBottom absent present
  have still : after p = between p := (dropped p).elim id fun lost => absurd lost.2 present
  rw [still] at present ⊢
  exact failed.blank p atBottom absent present

end Steps

/-- The blocks that a loop over the entries of a block asks for and does not
find, where `sub` answers that for the tree under one entry. -/
def missingEntries (sub : Fin n → Nat → List Bool) (unit i : Nat) : Nat → Nat → List Bool
  | 0, _ => []
  | left + 1, numSectors =>
    (if inside : i < n then sub ⟨i, inside⟩ (min numSectors unit) else []) ++
      missingEntries sub unit (i + 1) left (numSectors - min numSectors unit)

def missingTree : (level : Nat) → (TreePos level → Sector) → Nat → List Bool
  | 0, map, _ => if map .here = 0 then [false] else []
  | level + 1, map, numSectors =>
    (if map .here = 0 then [true] else []) ++
      missingEntries (fun index => missingTree level fun below => map (.child index below)) (capacity level) 0
        (divRoundUp numSectors (capacity level)) numSectors

/-- The trees under the entries of a block, as one map. -/
def forestAt (v : View) (blocks : Vector Sector n) (p : Fin n × TreePos level) : Sector :=
  treeAt v (blocks.get p.1) p.2

def forestData (p : Fin n × TreePos level) : Bool := p.2.isData

theorem missingEntries_congr {sub sub' : Fin n → Nat → List Bool} {unit : Nat} (left i numSectors : Nat)
    (same : ∀ j : Fin n, i ≤ j.val → sub j = sub' j) :
    missingEntries sub unit i left numSectors = missingEntries sub' unit i left numSectors := by
  induction left generalizing i numSectors with
  | zero => rfl
  | succ left ih =>
    rw [missingEntries, missingEntries, ih (i + 1) _ fun j later => same j (by omega)]
    congr 1
    split
    next inside => rw [same ⟨i, inside⟩ (Nat.le_refl i)]
    next => rfl

theorem get_set {blocks : Vector Sector n} {i : Nat} (inside : i < n) (entry : Sector) (j : Fin n) :
    (blocks.set i entry).get j = if i = j.val then entry else blocks.get j :=
  Vector.getElem_set inside j.isLt

theorem rounds_next {numSectors unit left : Nat} (positive : 0 < unit)
    (rounds : divRoundUp numSectors unit = left + 1) :
    0 < numSectors ∧ divRoundUp (numSectors - min numSectors unit) unit = left := by
  unfold divRoundUp at rounds ⊢
  rcases Nat.eq_zero_or_pos numSectors with rfl | some_left
  · rw [Nat.div_eq_of_lt (by omega)] at rounds
    cases rounds
  refine ⟨some_left, ?_⟩
  rcases Nat.lt_or_ge numSectors unit with last | more
  · have one : numSectors + unit - 1 = (numSectors - 1) + unit := by omega
    rw [one, Nat.add_div_right _ positive, Nat.div_eq_of_lt (by omega)] at rounds
    rw [Nat.div_eq_of_lt (by omega)]
    omega
  · rw [show numSectors + unit - 1 = numSectors - min numSectors unit + unit - 1 + unit by omega,
      Nat.add_div_right _ positive] at rounds
    omega

section Loops
variable {own keep : Sector → Prop} {level : Nat} {reserve : Sector → Nat → M (Bool × Sector)}

/-- The positions of a loop over entries from `i` on. -/
def fromEntry (level i numSectors : Nat) (p : Fin n × TreePos level) : Prop :=
  i ≤ p.1.val ∧ (p.1.val - i) * capacity level + p.2.first < numSectors

theorem fromEntry_succ {i numSectors : Nat} (p : Fin n × TreePos level) :
    fromEntry level i numSectors p ↔ (p.1.val = i ∧ p.2.first < min numSectors (capacity level)) ∨
      fromEntry level (i + 1) (numSectors - min numSectors (capacity level)) p := by
  have small := first_lt p.2
  unfold fromEntry
  rcases Nat.lt_trichotomy p.1.val i with before | here | after
  · omega
  · rw [here, Nat.sub_self, Nat.zero_mul]
    omega
  · obtain ⟨d, further⟩ : ∃ d, p.1.val = i + 1 + d := ⟨p.1.val - (i + 1), by omega⟩
    rw [further, show i + 1 + d - i = d + 1 by omega, show i + 1 + d - (i + 1) = d by omega, Nat.succ_mul]
    omega

/-- What reserving under one entry does, for the level of that entry. -/
def ReservesTree (own keep : Sector → Prop) (level : Nat) (reserve : Sector → Nat → M (Bool × Sector)) : Prop :=
  ∀ fs entry numSectors, Service own keep fs → Held own keep fs (treeAt fs.disk.view entry : TreePos level → Sector) →
    0 < numSectors → numSectors ≤ capacity level →
    Wp (reserve entry numSectors) (fun result fs' =>
      Reserved own keep TreePos.isData (fun p : TreePos level => p.first < numSectors)
        (missingTree level (treeAt fs.disk.view entry) numSectors) fs fs' (treeAt fs.disk.view entry)
        (treeAt fs'.disk.view result.2) result.1) fs

private theorem others_same {fs fs' : FileSystem} {blocks : Vector Sector n} {i : Nat} {inside : i < n}
    {missing : List Bool} {needed : TreePos level → Prop} {entry : Sector} {success : Bool}
    (held : Held own keep fs (forestAt fs.disk.view blocks : Fin _ × TreePos level → Sector))
    (reserved : Reserved own keep TreePos.isData needed missing fs fs' (treeAt fs.disk.view (blocks.get ⟨i, inside⟩))
      (treeAt fs'.disk.view entry) success) (j : Fin n) (p : TreePos level) (differs : i ≠ j.val) :
    forestAt fs'.disk.view (blocks.set i entry) (j, p) = forestAt fs.disk.view blocks (j, p) := by
  simp only [forestAt, get_set inside, differs, if_neg, not_false_eq_true]
  refine treeAt_congr p fun q _ present => ?_
  have present' : forestAt fs.disk.view blocks (j, q) ≠ 0 := present
  refine reserved.view_eq (held.placed.used (j, q) present') (held.foreign (j, q) present').1 present ?_
  intro p' _ _ same
  have place := held.placed.distinct (j, q) (⟨i, inside⟩, p') present' same
  exact differs (congrArg (fun place => place.1.val) place).symm

theorem ReservesTree.entry_wp (spec : ReservesTree own keep level reserve) (numSectors : Nat) {blocks : Vector Sector n} {i : Nat}
    {fs : FileSystem} (inside : i < n) (service : Service own keep fs)
    (held : Held own keep fs (forestAt fs.disk.view blocks : Fin _ × TreePos level → Sector))
    (positive : 0 < numSectors) (fits : numSectors ≤ capacity level) :
    Wp (reserve (blocks.get ⟨i, inside⟩) numSectors) (fun result middle =>
      Reserved own keep forestData (fun p : Fin n × TreePos level => p.1.val = i ∧ p.2.first < numSectors)
        (missingTree level (treeAt fs.disk.view (blocks.get ⟨i, inside⟩)) numSectors) fs middle
        (forestAt fs.disk.view blocks) (forestAt middle.disk.view (blocks.set i result.2 inside)) result.1 ∧
      ∀ (j : Fin n) (p : TreePos level), i ≠ j.val →
        forestAt middle.disk.view (blocks.set i result.2 inside) (j, p) = forestAt fs.disk.view blocks (j, p)) fs := by
  have held_one : Held own keep fs (treeAt fs.disk.view (blocks.get ⟨i, inside⟩) : TreePos level → Sector) := by
    refine ⟨⟨fun p => held.placed.used (⟨i, inside⟩, p), fun p q present same => ?_⟩,
      fun p => held.foreign (⟨i, inside⟩, p)⟩
    have place := held.placed.distinct (⟨i, inside⟩, p) (⟨i, inside⟩, q) present same
    exact congrArg (·.2) place
  refine (spec fs _ numSectors service held_one positive fits).mono ?_
  intro ⟨success, entry⟩ middle reserved
  have others := others_same held reserved
  refine ⟨reserved.embed (fun p => (⟨i, inside⟩, p)) (fun _ => rfl) (fun k => ?_) (fun _ => rfl) (fun p => ?_) ?_, others⟩
  · constructor
    · rintro ⟨rfl, short⟩
      exact ⟨k.2, rfl, short⟩
    · rintro ⟨p, rfl, short⟩
      exact ⟨rfl, short⟩
  · simp only [forestAt, get_set inside, if_true]
  · intro k away
    exact others k.1 k.2 fun same => away k.2 (Prod.ext (Fin.ext same.symm) rfl)

/-- The loop over the entries from `i` on. -/
theorem reserveEntries_wp (spec : ReservesTree own keep level reserve) (left i numSectors : Nat) (blocks : Vector Sector n)
    (fs : FileSystem) (rounds : divRoundUp numSectors (capacity level) = left) (room : i + left ≤ n)
    (service : Service own keep fs) (held : Held own keep fs (forestAt fs.disk.view blocks : Fin _ × TreePos level → Sector)) :
    Wp (reserveEntries reserve (capacity level) blocks i left numSectors) (fun result fs' =>
      Reserved own keep forestData
        (fromEntry level i numSectors)
        (missingEntries (fun j => missingTree level fun p => forestAt fs.disk.view blocks (j, p)) (capacity level) i left
          numSectors) fs fs' (forestAt fs.disk.view blocks) (forestAt fs'.disk.view result.2) result.1) fs := by
  have positive : 0 < capacity level := Nat.pow_pos (by decide)
  induction left generalizing i numSectors blocks fs with
  | zero =>
    have none_left : numSectors = 0 := by
      unfold divRoundUp at rounds
      rcases Nat.div_eq_zero_iff.mp rounds with zero | small
      · omega
      · omega
    subst none_left
    exact (wp_pure _).mpr (.refl service fun p need => absurd need.2 (Nat.not_lt_zero _))
  | succ left ih =>
    obtain ⟨some_left, rest⟩ := rounds_next positive rounds
    have inside : i < n := by omega
    rw [reserveEntries, dif_pos inside, wp_bind]
    refine (spec.entry_wp (min numSectors (capacity level)) inside service held (by omega) (by omega)).mono ?_
    intro ⟨success, entry⟩ middle ⟨one, others⟩
    have list : missingEntries (fun j => missingTree level fun p => forestAt fs.disk.view blocks (j, p))
        (capacity level) i (left + 1) numSectors =
        missingTree level (treeAt fs.disk.view (blocks.get ⟨i, inside⟩)) (min numSectors (capacity level)) ++
          missingEntries (fun j => missingTree level fun p => forestAt fs.disk.view blocks (j, p)) (capacity level)
            (i + 1) left (numSectors - min numSectors (capacity level)) := by
      rw [missingEntries, dif_pos inside]
      rfl
    cases success with
    | false =>
      simp only [Bool.false_eq_true, if_false, wp_pure]
      rw [list]
      exact one.stop
    | true =>
      simp only [if_true]
      refine (ih (i + 1) (numSectors - min numSectors (capacity level)) (blocks.set i entry) middle rest (by omega)
        one.service (one.held service held)).mono fun result fs' later => ?_
      obtain ⟨success, blocks'⟩ := result
      have tail : missingEntries (fun j => missingTree level fun p => forestAt middle.disk.view (blocks.set i entry) (j, p))
          (capacity level) (i + 1) left (numSectors - min numSectors (capacity level)) =
          missingEntries (fun j => missingTree level fun p => forestAt fs.disk.view blocks (j, p)) (capacity level)
            (i + 1) left (numSectors - min numSectors (capacity level)) :=
        missingEntries_congr left (i + 1) _ fun j after =>
          congrArg (missingTree level) (funext fun p => others j p (by omega))
      rw [tail] at later
      rw [list]
      exact (one.trans later service held).needs fun p => (fromEntry_succ p).symm

end Loops

section Trees
variable {π : Type} {own keep : Sector → Prop} {isData : π → Bool} {needed : π → Prop} {fs middle fs' : FileSystem}
  {before after : π → Sector} {sector : Sector}

theorem Service.bounded (service : Service own keep fs) (used : Used fs sector) : sector.toNat < fs.disk.size :=
  Nat.lt_trans used.inRange service.size

theorem Allocated.unused (allocated : Allocated own keep fs middle sector) : ¬ Used fs sector := by
  intro used
  rw [Used, allocated.free] at used
  cases used

theorem Allocated.used (allocated : Allocated own keep fs middle sector) : Used middle sector := by
  rw [Used, allocated.map]
  exact List.getElem?_set_self (List.getElem?_eq_some_iff.mp allocated.free).1

theorem Allocated.mono (allocated : Allocated own keep fs middle sector) {other : Sector} (used : Used fs other) :
    Used middle other := by
  rw [Used, allocated.map]
  exact used.set sector.toNat

theorem Allocated.count (allocated : Allocated own keep fs middle sector) : freeCount middle + 1 = freeCount fs := by
  rw [freeCount, allocated.map]
  exact count_set_true allocated.free

theorem Follows.congr (service : Service own keep fs) (home : fs'.freeMapFile = fs.freeMapFile)
    (inode : ∀ file, fs.freeMapFile = some file → fs'.inode? file.inode = fs.inode? file.inode)
    (map : fs'.freeMap = fs.freeMap)
    (view : ∀ sector, own sector ∨ keep sector → fs'.disk.view sector = fs.disk.view sector) : Follows fs fs' := by
  have same {file : File} {inode : Inode} (opened : fs.freeMapFile = some file) (found : fs.inode? file.inode = some inode)
      {i : Nat} (inside : i / 512 * 512 < byteCnt fs.freeMap.length) :
      fileByte fs'.disk.view inode.data i = fileByte fs.disk.view inode.data i := by
    obtain ⟨inode', found', _, bytes, _, _, data, index⟩ := service.file file opened
    cases found.symm.trans found'
    have blocks : blockAt fs'.disk.view inode.data = blockAt fs.disk.view inode.data := by
      funext p
      exact blockAt_congr p fun q inner present => view _ (.inr (index q inner present))
    unfold fileByte
    rw [blocks]
    split
    next => rfl
    next => rw [view _ (.inl (data _ ⟨i / 512, by omega, rfl⟩))]
  have padded (padded : Padded fs) : Padded fs' := by
    intro file _ opened found i past inside
    rw [home] at opened
    rw [inode file opened] at found
    rw [map] at past inside
    rw [same opened found inside]
    exact padded file _ opened found i past inside
  refine ⟨padded, fun synced => ⟨padded synced.padded, fun file _ opened found => ?_⟩⟩
  rw [home] at opened
  rw [inode file opened] at found
  rw [map, ← synced.bits file _ opened found]
  refine List.map_congr_left fun i inside => same opened found ?_
  rw [List.mem_range] at inside
  omega

theorem Reserved.one (service : Service own keep fs) (allocated : Allocated own keep fs middle sector) {disk : Disk}
    (view : ∀ other, disk.view other = if other = sector then zeros else middle.disk.view other)
    (size : disk.size = middle.disk.size) (written : disk.written = sector :: middle.disk.written) (index : Bool)
    (place : π) (here : before place = 0) (here' : after place = sector)
    (others : ∀ p, p ≠ place → after p = before p) (needs : ∀ p, needed p ↔ p = place) :
    Reserved own keep isData needed [index] fs { middle with disk } before after true := by
  have nonzero : sector ≠ 0 := by
    rintro rfl
    exact allocated.unused service.zero
  have differs {other : Sector} (used : Used fs other) : other ≠ sector := by
    rintro rfl
    exact allocated.unused used
  have kept {other : Sector} (member : own other ∨ keep other) : disk.view other = middle.disk.view other := by
    rw [view, if_neg (differs (service.used other member).1)]
  have heap : SameHeap middle { middle with disk } := ⟨rfl, rfl, rfl, rfl, rfl, rfl, rfl⟩
  have count := allocated.count
  have only (p : π) (absent : before p = 0) (present : after p ≠ 0) : p = place := by
    by_cases same : p = place
    · exact same
    · rw [others p same] at present
      exact absurd absent present
  refine ⟨allocated.heap.trans heap, ?_, ?_, ?_, ⟨?_, ?_, ?_, fun r => allocated.mono⟩, ?_, ?_, ?_, ?_, ?_, ?_, ?_⟩
  · exact allocated.service.congr heap size rfl (fun other member => allocated.mono (service.all_used other member))
      fun other member => kept (.inr member)
  · exact (Follows.of_written allocated.synced).trans (.congr allocated.service rfl (fun _ _ => rfl) rfl
      fun other member => kept member)
  · exact (congrArg List.length allocated.map).trans (by simp)
  · intro p present
    refine others p fun same => ?_
    rw [same] at present
    exact present here
  · intro p absent present
    rw [only p absent present, here']
    exact ⟨allocated.unused, allocated.used⟩
  · intro p q absent absent' present same
    rw [only p absent present, only q absent' (same ▸ present)]
  · intro p _ absent present
    rw [only p absent present, here']
    exact (view sector).trans (if_pos rfl)
  · refine (allocated.touches.mono fun other mine => .inl mine).trans ?_
    exact .write (.inr (.inl ⟨allocated.unused, allocated.used⟩)) size written view
  · intro due
    rw [List.getElem?_eq_none (by rw [List.length_singleton]; omega)] at due
    cases due
  · change freeCount middle = _
    rw [List.length_singleton]
    omega
  · simp only [List.length_singleton, true_iff]
    omega
  · intro _ p want
    rw [(needs p).mp want, here']
    exact nonzero
  · intro _ p idle absent
    rw [others p fun same => idle ((needs p).mpr same)]
    exact absent

/-- Without a free sector nothing changes, but an index block that is due is
written all the same: over sector 0. -/
theorem Reserved.none_left (service : Service own keep fs) (full : freeCount fs = 0) (heap : SameHeap fs fs')
    (map : fs'.freeMap = fs.freeMap) {index : Bool} {rest : List Bool}
    (touches : Touches (fun sector => sector = 0 ∧ index = true) fs fs')
    (spoils : index = true → fs.disk.written.count 0 < fs'.disk.written.count 0) (same : ∀ p, after p = before p) :
    Reserved own keep isData needed (index :: rest) fs fs' before after false := by
  have used {sector : Sector} (member : Used fs sector) : Used fs' sector := by rwa [Used, map]
  have kept {sector : Sector} (nonzero : sector ≠ 0) : fs'.disk.view sector = fs.disk.view sector :=
    touches.view fun member => nonzero member.1
  have head : (index :: rest)[freeCount fs]? = some index := by rw [full]; rfl
  refine ⟨heap, ?_, ?_, by rw [map], ?_, ?_, ?_, ?_, ?_, ?_, by simp, by simp⟩
  · exact service.congr heap touches.size (by rw [map]) (fun other member => used (service.all_used other member))
      fun other member => kept (service.used other (.inr member)).2
  · exact .congr service heap.freeMapFile (fun file _ => heap.inode? file.inode) map
      fun other member => kept (service.used other member).2
  · obtain rfl : after = before := funext same
    refine ⟨fun _ _ => rfl, fun _ absent present => absurd absent present, fun _ _ absent _ present => absurd absent present,
      fun _ => used⟩
  · intro p _ absent present
    rw [same] at present
    exact absurd absent present
  · refine touches.mono fun sector member => .inr (.inr (.inr ⟨member.1, ?_⟩))
    rw [head, member.2]
  · rw [head]
    exact fun due => spoils (Option.some.inj due)
  · have same : freeCount fs' = freeCount fs := congrArg (List.count false) map
    rw [same, List.length_cons]
    omega
  · simp only [Bool.false_eq_true, List.length_cons, false_iff]
    omega

theorem reserveSector_tree : ReservesTree own keep 0 fun entry _ => reserveSector (freeMapAllocate 1) entry := by
  intro fs entry numSectors service held positive _
  dsimp only [reserveSector]
  by_cases absent : entry = 0
  · subst absent
    have list : missingTree 0 (treeAt fs.disk.view 0) numSectors = [false] := if_pos rfl
    rw [if_pos rfl, wp_bind, list]
    rcases Nat.eq_zero_or_pos (freeCount fs) with full | room
    · refine Wp.of_eq (freeMapAllocate_full full) ((wp_pure _).mpr ?_)
      exact .none_left service full .refl rfl .refl (by simp) fun _ => rfl
    · refine (freeMapAllocate_wp service room).mono ?_
      rintro _ middle ⟨sector, rfl, allocated⟩
      rw [wp_bind]
      have bounded := allocated.service.bounded allocated.used
      refine wp_bufferCacheWrite bounded fun disk view size written => (wp_pure _).mpr ?_
      refine .one service allocated view size written false .here rfl rfl (fun p away => ?_) fun p => ?_
      · cases p
        exact absurd rfl away
      · cases p
        simpa [TreePos.first] using positive
  · have list : missingTree 0 (treeAt fs.disk.view entry) numSectors = [] := if_neg absent
    rw [if_neg absent, list]
    refine (wp_pure _).mpr (.refl service fun p _ => ?_)
    cases p
    exact absent

/-- Without a free sector an absent tree stays absent; above level 0 the zeros
meant for its root go to sector 0. -/
theorem inodeReserveIndirect_full (level numSectors : Nat) (fs : FileSystem) (service : Service own keep fs)
    (full : freeCount fs = 0) (positive : 0 < numSectors) :
    Wp (inodeReserveIndirect (freeMapAllocate 1) level 0 numSectors) (fun result fs' =>
      result = (false, 0) ∧ SameHeap fs fs' ∧ fs'.freeMap = fs.freeMap ∧
        Touches (fun sector => sector = 0 ∧ (level != 0) = true) fs fs' ∧
        ((level != 0) = true → fs.disk.written.count 0 < fs'.disk.written.count 0)) fs := by
  induction level generalizing numSectors fs with
  | zero =>
    rw [inodeReserveIndirect, reserveSector, if_pos rfl, wp_bind]
    exact Wp.of_eq (freeMapAllocate_full full) ((wp_pure _).mpr ⟨rfl, .refl, rfl, .refl, by simp⟩)
  | succ level ih =>
    simp only [inodeReserveIndirect, if_true, wp_bind]
    refine Wp.of_eq (freeMapAllocate_full full) ?_
    rw [Option.getD_none]
    refine wp_bufferCacheWrite (service.bounded service.zero) fun disk view size written => ?_
    rw [wp_pure]
    have heap : SameHeap fs { fs with disk } := ⟨rfl, rfl, rfl, rfl, rfl, rfl, rfl⟩
    have service' : Service own keep { fs with disk } :=
      service.congr heap size rfl service.all_used fun sector member =>
        (view sector).trans (if_neg (service.used sector (.inr member)).2)
    have touched : Touches (fun sector => sector = 0 ∧ (level + 1 != 0) = true) fs { fs with disk } :=
      .write ⟨rfl, rfl⟩ size written view
    refine Wp.of_eq (bufferCacheRead_eq (service'.bounded service'.zero)) ?_
    have content : disk.view 0 = zeros := (view 0).trans (if_pos rfl)
    have unit : 0 < unitOf (level + 1) := by unfold unitOf; split <;> decide
    obtain ⟨left, rounds⟩ : ∃ left, divRoundUp numSectors (unitOf (level + 1)) = left + 1 := by
      refine ⟨(numSectors - 1) / unitOf (level + 1), ?_⟩
      rw [← Nat.add_div_right _ unit, divRoundUp]
      congr 1
      omega
    simp only [rounds, content, reserveEntries, dif_pos (show 0 < 128 by decide), wp_bind]
    rw [blocksOf_zeros]
    refine (ih (min numSectors (unitOf (level + 1))) { fs with disk } service' full (by omega)).mono ?_
    rintro _ fs' ⟨rfl, heap', map, touches, _⟩
    have later : Touches (fun sector => sector = 0 ∧ (level + 1 != 0) = true) _ fs' :=
      touches.mono fun sector zero => ⟨zero.1, rfl⟩
    simp only [Bool.false_eq_true, if_false, wp_pure]
    refine ⟨trivial, heap.trans heap', map, touched.trans later, fun _ => ?_⟩
    refine Nat.lt_of_lt_of_le ?_ (touches.count_le 0)
    change _ < disk.written.count 0
    rw [written, List.count_cons_self]
    omega

/-- An index block of the map is written, with the map as it then is. -/
theorem Reserved.write {missing : List Bool} (reserved : Reserved own keep isData needed missing fs fs' before after true)
    (service : Service own keep fs) (held : Held own keep fs before) {disk : Disk} {block : Block} {place : π}
    (index : isData place = false) (present : before place ≠ 0)
    (view : ∀ other, disk.view other = if other = before place then block else fs'.disk.view other)
    (size : disk.size = fs'.disk.size) (written : disk.written = before place :: fs'.disk.written) :
    Reserved own keep isData needed missing fs { fs' with disk } before after true := by
  have heap : SameHeap fs' { fs' with disk } := ⟨rfl, rfl, rfl, rfl, rfl, rfl, rfl⟩
  have foreign := held.foreign place present
  have kept {sector : Sector} (member : own sector ∨ keep sector) : disk.view sector = fs'.disk.view sector := by
    rw [view, if_neg]
    rintro rfl
    exact member.elim foreign.1 foreign.2
  have held' := reserved.held service held
  refine ⟨reserved.heap.trans heap, ?_, ?_, reserved.length, ⟨reserved.grows.keep, reserved.grows.fresh,
    reserved.grows.apart, reserved.grows.mono⟩, ?_, ?_, fun due => ?_, reserved.count, reserved.outcome,
    reserved.complete, reserved.minimal⟩
  · exact reserved.service.congr heap size rfl (fun other member => reserved.service.all_used other member)
      fun other member => kept (.inr member)
  · exact reserved.follows.trans (.congr reserved.service rfl (fun _ _ => rfl) rfl
      fun other member => kept member)
  · intro p atBottom absent assigned
    refine Eq.trans ?_ (reserved.blank p atBottom absent assigned)
    refine (view (after p)).trans (if_neg ?_)
    rw [← reserved.grows.keep place present]
    intro same
    rw [held'.placed.distinct p place assigned same, index] at atBottom
    cases atBottom
  · exact reserved.touches.trans (.write (.inr (.inr (.inl ⟨place, index, present, rfl⟩))) size written view)
  · refine Nat.lt_of_lt_of_le (reserved.spoils due) ?_
    change _ ≤ disk.written.count 0
    rw [written]
    exact List.count_le_count_cons

theorem treeAt_child {v : View} {entry : Sector} {level : Nat} (present : entry ≠ 0) (p : Fin 128 × TreePos level) :
    treeAt v entry (.child p.1 p.2) = forestAt v (blocksOf (v entry)) p := by
  rw [treeAt, childEntry, if_neg present, forestAt]

theorem rounds_le {level numSectors : Nat} (bound : numSectors ≤ capacity (level + 1)) :
    divRoundUp numSectors (capacity level) ≤ 128 := by
  have positive : 0 < capacity level := Nat.pow_pos (by decide)
  have grown : capacity (level + 1) = 128 * capacity level := by simp only [capacity, Nat.pow_succ]; omega
  rw [divRoundUp, Nat.le_iff_lt_add_one, Nat.div_lt_iff_lt_mul positive]
  have more : (128 + 1) * capacity level = 128 * capacity level + capacity level := Nat.succ_mul _ _
  omega

private theorem reserveBlock_wp {level : Nat} {reserve : Sector → Nat → M (Bool × Sector)}
    (spec : ReservesTree own keep level reserve) {entry : Sector} {numSectors : Nat} (present : entry ≠ 0)
    (service : Service own keep fs) (held : Held own keep fs (treeAt fs.disk.view entry : TreePos (level + 1) → Sector))
    (bound : numSectors ≤ capacity (level + 1)) :
    Wp (do
      let indirectBlock ← bufferCacheRead entry
      let (success, blocks) ← reserveEntries reserve (capacity level) (blocksOf indirectBlock) 0
        (divRoundUp numSectors (capacity level)) numSectors
      if success then do
        bufferCacheWrite entry (ofBlocks blocks)
        pure (true, entry)
      else pure (false, entry)) (fun result fs' =>
        Reserved own keep TreePos.isData (fun p : TreePos (level + 1) => p.first < numSectors ∧ p ≠ .here)
          (missingTree (level + 1) (treeAt fs.disk.view entry) numSectors) fs fs' (treeAt fs.disk.view entry)
          (treeAt fs'.disk.view result.2) result.1) fs := by
  let blocks := blocksOf (fs.disk.view entry)
  have below : ∀ p : Fin 128 × TreePos level,
      treeAt fs.disk.view entry (.child p.1 p.2) = forestAt fs.disk.view blocks p := treeAt_child present
  have forest : Held own keep fs (forestAt fs.disk.view blocks : Fin _ × TreePos level → Sector) := by
    refine ⟨⟨fun p there => ?_, fun p q there same => ?_⟩, fun p there => ?_⟩
    · rw [← below] at there ⊢
      exact held.placed.used _ there
    · rw [← below] at there
      rw [← below, ← below] at same
      have place := held.placed.distinct _ _ there same
      injection place with _ first second
      exact Prod.ext first second
    · rw [← below] at there ⊢
      exact held.foreign _ there
  have room : 0 + divRoundUp numSectors (capacity level) ≤ 128 := by
    rw [Nat.zero_add]
    exact rounds_le bound
  have list : missingTree (level + 1) (treeAt fs.disk.view entry) numSectors =
      missingEntries (fun j => missingTree level fun p => forestAt fs.disk.view blocks (j, p)) (capacity level) 0
        (divRoundUp numSectors (capacity level)) numSectors := by
    have under : (fun j => missingTree level fun p => treeAt fs.disk.view entry (.child j p)) =
        fun j => missingTree level fun p => forestAt fs.disk.view blocks (j, p) :=
      funext fun j => congrArg (missingTree level) (funext fun p => below (j, p))
    rw [missingTree, treeAt_here, if_neg present, List.nil_append, under]
  rw [wp_bind, list]
  refine Wp.of_eq (bufferCacheRead_eq (service.bounded (held.placed.used .here present))) ?_
  rw [wp_bind]
  refine (reserveEntries_wp spec _ 0 numSectors blocks fs rfl room service forest).mono ?_
  rintro ⟨success, blocks'⟩ fs' reserved
  -- the map with the entries that the loop has in memory
  let grown : TreePos (level + 1) → Sector
    | .here => entry
    | .child index p => forestAt fs'.disk.view blocks' (index, p)
  have tree : Reserved own keep TreePos.isData (fun p : TreePos (level + 1) => p.first < numSectors ∧ p ≠ .here)
      (missingEntries (fun j => missingTree level fun p => forestAt fs.disk.view blocks (j, p)) (capacity level) 0
        (divRoundUp numSectors (capacity level)) numSectors) fs fs' (treeAt fs.disk.view entry) grown success := by
    refine reserved.embed (fun p => .child p.1 p.2) (fun _ => rfl) (fun k => ?_) below (fun _ => rfl) (fun k away => ?_)
    · cases k with
      | here => simp
      | child index p =>
        constructor
        · rintro ⟨short, _⟩
          exact ⟨(index, p), rfl, Nat.zero_le _, short⟩
        · rintro ⟨⟨index', p'⟩, same, _, short⟩
          injection same with _ first second
          subst first second
          exact ⟨short, nofun⟩
    · cases k with
      | here => rfl
      | child index p => exact absurd rfl (away (index, p))
  have separate (p : Fin 128 × TreePos level) : forestAt fs.disk.view blocks p ≠ entry := by
    intro same
    rw [← below] at same
    have clash := held.placed.distinct (.child p.1 p.2) .here (same.symm ▸ present) same
    cases clash
  cases success with
  | false =>
    simp only [Bool.false_eq_true, if_false, wp_pure]
    refine tree.drop fun k => ?_
    have root : fs'.disk.view entry = fs.disk.view entry :=
      reserved.view_eq (held.placed.used .here present) (held.foreign .here present).1 present
        fun p _ _ same => separate p same.symm
    cases k with
    | here => exact .inl rfl
    | child index p =>
      have same : treeAt fs'.disk.view entry (.child index p) = treeAt fs'.disk.view (blocks.get index) p := by
        rw [treeAt, childEntry, if_neg present, root]
      rw [same]
      by_cases absent : blocks.get index = 0
      · exact .inr ⟨by rw [below (index, p), forestAt, absent, treeAt_zero], by rw [absent, treeAt_zero]⟩
      · left
        have kept := reserved.grows.keep (index, .here) absent
        simp only [forestAt, treeAt_here] at kept
        simp only [grown, forestAt, kept]
  | true =>
    simp only [if_true, wp_bind]
    have used : Used fs' entry := reserved.grows.mono _ (held.placed.used .here present)
    refine wp_bufferCacheWrite (reserved.service.bounded used) fun disk view size written => (wp_pure _).mpr ?_
    have index : (.here : TreePos (level + 1)).isData = false := rfl
    have wrote := tree.write service held index present view size written
    have final : treeAt disk.view entry = grown := by
      funext k
      cases k with
      | here => rfl
      | child index p =>
        have stored : childEntry disk.view entry index = blocks'.get index := by
          rw [childEntry, if_neg present, view, if_pos rfl, blocksOf_ofBlocks]
        rw [treeAt, stored]
        refine treeAt_congr p fun q _ there => (view _).trans (if_neg fun same => ?_)
        have grown' := tree.held service held
        have clash := grown'.placed.distinct (.child index q) .here there same
        cases clash
    rw [← final] at wrote
    exact wrote

theorem unitOf_eq {level : Nat} (small : level ≤ 1) : unitOf (level + 1) = capacity level := by
  match level, small with
  | 0, _ => rfl
  | 1, _ => rfl

theorem inodeReserveIndirect_tree {level : Nat} (small : level ≤ 2) :
    ReservesTree own keep level (inodeReserveIndirect (freeMapAllocate 1) level) := by
  induction level with
  | zero =>
    simp only [inodeReserveIndirect]
    exact reserveSector_tree
  | succ level ih =>
    intro fs entry numSectors service held positive bound
    have spec := ih (by omega)
    by_cases absent : entry = 0
    · subst absent
      have list : missingTree (level + 1) (treeAt fs.disk.view 0) numSectors = true ::
          missingEntries (fun j => missingTree level fun p => treeAt fs.disk.view 0 (.child j p)) (capacity level) 0
            (divRoundUp numSectors (capacity level)) numSectors := by
        rw [missingTree, treeAt_here, if_pos rfl]
        rfl
      rw [list]
      rcases Nat.eq_zero_or_pos (freeCount fs) with full | room
      · refine (inodeReserveIndirect_full (level + 1) numSectors fs service full positive).mono ?_
        rintro _ fs' ⟨rfl, heap, map, touches, spoils⟩
        refine .none_left service full heap map (touches.mono fun _ zero => ⟨zero.1, rfl⟩) (fun _ => spoils rfl) fun p => ?_
        rw [treeAt_zero, treeAt_zero]
      · simp only [inodeReserveIndirect, if_true, unitOf_eq (show level ≤ 1 by omega)]
        rw [wp_bind]
        refine (freeMapAllocate_wp service room).mono ?_
        rintro _ middle ⟨sector, rfl, allocated⟩
        rw [Option.getD_some, wp_bind]
        refine wp_bufferCacheWrite (allocated.service.bounded allocated.used) fun disk view size written => ?_
        rw [wp_bind, wp_pure]
        have nonzero : sector ≠ 0 := by
          rintro rfl
          exact allocated.unused service.zero
        have empty (index : Fin 128) (p : TreePos level) : treeAt disk.view sector (.child index p) = 0 := by
          rw [treeAt, childEntry, if_neg nonzero, view, if_pos rfl, blocksOf_zeros, treeAt_zero]
        have root : Reserved own keep TreePos.isData (fun p : TreePos (level + 1) => p = .here) [true] fs
            { middle with disk } (treeAt fs.disk.view 0) (treeAt disk.view sector) true := by
          refine .one service allocated view size written true .here rfl rfl (fun p away => ?_) fun p => .rfl
          cases p with
          | here => exact absurd rfl away
          | child index p => rw [empty, treeAt_zero]
        have below : (fun j => missingTree level fun p => treeAt fs.disk.view 0 (.child j p)) =
            fun j => missingTree level fun p => treeAt disk.view sector (.child j p) :=
          funext fun j => congrArg (missingTree level) (funext fun p => by rw [empty, treeAt_zero])
        have block := reserveBlock_wp spec nonzero root.service (root.held service held) bound
        rw [missingTree, treeAt_here, if_neg nonzero, List.nil_append] at block
        refine block.mono fun result fs' later => ?_
        rw [below]
        refine (root.trans later service held).needs fun p => ?_
        cases p with
        | here => simpa [TreePos.first] using positive
        | child index p => simp
    · have block := reserveBlock_wp spec absent service held bound
      simp only [inodeReserveIndirect, absent, if_false, unitOf_eq (show level ≤ 1 by omega)]
      rw [wp_bind, wp_pure]
      refine block.mono fun result fs' reserved => reserved.widen (fun p need => need.1) fun p need => ?_
      cases p with
      | here => exact .inr absent
      | child index p => exact .inl ⟨need, by simp⟩

end Trees

/-- The blocks that a file of so many sectors needs and the map does not have. -/
def missingBlocks (map : InodePos → Sector) (numSectors : Nat) : List Bool :=
  missingEntries (fun index => missingTree 0 fun _ => map (.direct index)) 1 0 (min numSectors 123) (min numSectors 123) ++
    ((if 123 < numSectors then missingTree 1 (fun p => map (.single p)) (min (numSectors - 123) 128) else []) ++
      (if 251 < numSectors then missingTree 2 (fun p => map (.double p)) (min (numSectors - 251) 16384) else []))

/-- The blocks, index blocks included, of a file of so many sectors. -/
def sectorsNeeded (numSectors : Nat) : Nat := (missingBlocks (fun _ => 0) numSectors).length

theorem missingEntries_nil {sub : Fin n → Nat → List Bool} {unit : Nat} (positive : 0 < unit) (left i numSectors : Nat)
    (rounds : divRoundUp numSectors unit = left)
    (nothing : ∀ (j : Fin n) (m : Nat), i ≤ j.val → 0 < m → m ≤ unit → (j.val - i) * unit + m ≤ numSectors → sub j m = []) :
    missingEntries sub unit i left numSectors = [] := by
  induction left generalizing i numSectors with
  | zero => rfl
  | succ left ih =>
    obtain ⟨some_left, rounds'⟩ := rounds_next positive rounds
    rw [missingEntries, ih (i + 1) _ rounds', List.append_nil]
    · split
      next inside =>
        refine nothing ⟨i, inside⟩ _ (Nat.le_refl i) (by omega) (by omega) ?_
        rw [Nat.sub_self, Nat.zero_mul]
        omega
      next => rfl
    · intro j m later positive' small fits
      refine nothing j m (by omega) positive' small ?_
      obtain ⟨d, further⟩ : ∃ d, j.val = i + 1 + d := ⟨j.val - (i + 1), by omega⟩
      rw [further, show i + 1 + d - (i + 1) = d by omega] at fits
      rw [further, show i + 1 + d - i = d + 1 by omega, Nat.succ_mul]
      omega

theorem missingTree_nil {level : Nat} (map : TreePos level → Sector) (numSectors : Nat) (positive : 0 < numSectors)
    (there : ∀ p, p.first < numSectors → map p ≠ 0) : missingTree level map numSectors = [] := by
  induction level generalizing numSectors with
  | zero => exact if_neg (there .here positive)
  | succ level ih =>
    rw [missingTree, if_neg (there .here positive), List.nil_append]
    have unit : 0 < capacity level := Nat.pow_pos (by decide)
    refine missingEntries_nil unit _ 0 _ rfl fun j m _ positive' _ fits => ?_
    refine ih _ m positive' fun p short => there (.child j p) ?_
    rw [Nat.sub_zero] at fits
    simp only [TreePos.first]
    omega

theorem missingTree_congr {level : Nat} {map map' : TreePos level → Sector} (same : ∀ p, map p = 0 ↔ map' p = 0) (numSectors : Nat) :
    missingTree level map numSectors = missingTree level map' numSectors := by
  induction level generalizing numSectors with
  | zero => rw [missingTree, missingTree, ite_congr (propext (same .here)) (fun _ => rfl) fun _ => rfl]
  | succ level ih =>
    rw [missingTree, missingTree, ite_congr (propext (same .here)) (fun _ => rfl) fun _ => rfl]
    congr 1
    exact missingEntries_congr _ _ _ fun j _ => funext fun m => ih (fun p => same (.child j p)) m

theorem missingBlocks_congr {map map' : InodePos → Sector} (same : ∀ p, map p = 0 ↔ map' p = 0) (numSectors : Nat) :
    missingBlocks map numSectors = missingBlocks map' numSectors := by
  rw [missingBlocks, missingBlocks, missingTree_congr (fun p => same (.single p)), missingTree_congr (fun p => same (.double p))]
  congr 1
  exact missingEntries_congr _ _ _ fun j _ => funext fun m => missingTree_congr (fun _ => same (.direct j)) m

theorem missingBlocks_nil {map : InodePos → Sector} {numSectors : Nat} (there : ∀ p, p.first < numSectors → map p ≠ 0) :
    missingBlocks map numSectors = [] := by
  have direct : missingEntries (fun index => missingTree 0 fun _ => map (.direct index)) 1 0 (min numSectors 123)
      (min numSectors 123) = [] := by
    refine missingEntries_nil Nat.one_pos _ 0 _ (by simp [divRoundUp]) fun j m _ positive _ fits => ?_
    exact missingTree_nil _ m positive fun p _ => there (.direct j) (by simp only [InodePos.first]; omega)
  rw [missingBlocks, direct, List.nil_append, List.append_eq_nil_iff]
  constructor
  · split
    next more => exact missingTree_nil _ _ (by omega) fun p short => there (.single p) (by simp only [InodePos.first]; omega)
    next => rfl
  · split
    next more => exact missingTree_nil _ _ (by omega) fun p short => there (.double p) (by simp only [InodePos.first]; omega)
    next => rfl

private theorem missingEntries_length (sub : Fin n → Nat → List Bool) {unit extra : Nat} (positive : 0 < unit) (left i numSectors : Nat)
    (rounds : divRoundUp numSectors unit = left) (inside : i + left ≤ n)
    (each : ∀ (j : Fin n) (m : Nat), 0 < m → m ≤ unit → (sub j m).length = m + extra) :
    (missingEntries sub unit i left numSectors).length = numSectors + extra * left := by
  induction left generalizing i numSectors with
  | zero =>
    have empty : numSectors = 0 := by
      unfold divRoundUp at rounds
      rw [Nat.div_eq_zero_iff] at rounds
      omega
    rw [empty]
    rfl
  | succ left ih =>
    obtain ⟨some_left, rounds'⟩ := rounds_next positive rounds
    rw [missingEntries, dif_pos (by omega), List.length_append, ih (i + 1) _ rounds' (by omega), each _ _ (by omega) (by omega),
      Nat.mul_succ]
    omega

/-- The blocks of a file that has none yet, from its number of sectors. -/
theorem sectorsNeeded_eq {numSectors : Nat} (small : numSectors ≤ 16635) :
    sectorsNeeded numSectors = numSectors + (if 123 < numSectors then 1 else 0) +
      (if 251 < numSectors then 1 + divRoundUp (numSectors - 251) 128 else 0) := by
  have leaf (m : Nat) : (missingTree 0 (fun _ => 0) m).length = 1 := rfl
  have block (m : Nat) (inside : m ≤ 128) : (missingTree 1 (fun _ => 0) m).length = m + 1 := by
    have rounds : divRoundUp m 1 ≤ 128 := by
      rw [divRoundUp]
      omega
    have entries := missingEntries_length (fun _ : Fin 128 => missingTree 0 fun _ => 0) (by decide) (divRoundUp m 1) 0 m rfl
      (by omega) fun j k positive one => (leaf k).trans (show 1 = k + 0 by omega)
    rw [missingTree, if_pos rfl, List.length_append, show capacity 0 = 1 from rfl, entries, List.length_singleton]
    omega
  have tree (m : Nat) (inside : m ≤ 16384) : (missingTree 2 (fun _ => 0) m).length = m + 1 + divRoundUp m 128 := by
    have rounds : divRoundUp m 128 ≤ 128 := by
      rw [divRoundUp]
      omega
    have entries := missingEntries_length (fun _ : Fin 128 => missingTree 1 fun _ => 0) (by decide) (divRoundUp m 128) 0 m rfl
      (by omega) fun j k _ small => block k small
    rw [missingTree, if_pos rfl, List.length_append, show capacity 1 = 128 from rfl, entries, List.length_singleton]
    omega
  have direct : (missingEntries (fun _ : Fin 123 => missingTree 0 fun _ => 0) 1 0 (min numSectors 123) (min numSectors 123)).length =
      min numSectors 123 := by
    rw [missingEntries_length _ (by decide) _ 0 _ (by simp [divRoundUp]) (by omega)
      fun j k positive one => (leaf k).trans (show 1 = k + 0 by omega)]
    omega
  rw [sectorsNeeded, missingBlocks, List.length_append, List.length_append, direct]
  by_cases more : 123 < numSectors
  · rw [if_pos more, if_pos more, block _ (by omega)]
    by_cases most : 251 < numSectors
    · rw [if_pos most, if_pos most, tree _ (by omega), show min (numSectors - 251) 16384 = numSectors - 251 by omega]
      omega
    · rw [if_neg most, if_neg most, List.length_nil]
      omega
  · rw [if_neg more, if_neg more, if_neg (by omega), if_neg (by omega), List.length_nil]
    omega

section Inodes
variable {own keep : Sector → Prop} {fs fs' : FileSystem} {data : InodeDisk} {missing : List Bool} {success : Bool}

private theorem Held.part {π : Type} {map : InodePos → Sector} (held : Held own keep fs map) (place : π → InodePos)
    (injective : ∀ p q, place p = place q → p = q) : Held own keep fs fun p => map (place p) :=
  ⟨⟨fun p => held.placed.used (place p), fun p q present same => injective p q (held.placed.distinct _ _ present same)⟩,
    fun p => held.foreign (place p)⟩

private theorem elsewhere_same {π : Type} {isData : π → Bool} {needed : π → Prop} {after : π → Sector}
    {map : InodePos → Sector} (held : Held own keep fs map) (place : π → InodePos)
    (reserved : Reserved own keep isData needed missing fs fs' (fun p => map (place p)) after success)
    (k : InodePos) (away : ∀ p, k ≠ place p) (present : map k ≠ 0) : fs'.disk.view (map k) = fs.disk.view (map k) :=
  reserved.view_eq (held.placed.used k present) (held.foreign k present).1 present
    fun p _ _ same => away p (held.placed.distinct _ _ present same)

/-- A direct block is a tree of level 0. -/
def directPlace (p : Fin 123 × TreePos 0) : InodePos := .direct p.1

theorem directPlace_injective (p q : Fin 123 × TreePos 0) (same : directPlace p = directPlace q) : p = q := by
  obtain ⟨i, ⟨⟩⟩ := p
  obtain ⟨j, ⟨⟩⟩ := q
  injection same with same
  have same : i = j := same
  rw [same]

theorem forestAt_direct (v : View) :
    (forestAt v data.directBlocks : Fin _ × TreePos 0 → Sector) = fun p => blockAt v data (directPlace p) := by
  funext p
  obtain ⟨i, ⟨⟩⟩ := p
  rfl

/-- The first phase, the loop over the direct blocks, on the whole map. -/
theorem reserveDirect_wp (service : Service own keep fs) (held : Held own keep fs (blockAt fs.disk.view data))
    {count : Nat} (small : count ≤ 123) :
    Wp (reserveEntries (fun entry _ => reserveSector (freeMapAllocate 1) entry) 1 data.directBlocks 0 count count)
      (fun result fs' => Reserved own keep InodePos.isData (fun p => p.first < count)
        (missingEntries (fun index => missingTree 0 fun _ => blockAt fs.disk.view data (.direct index)) 1 0 count count)
        fs fs' (blockAt fs.disk.view data) (blockAt fs'.disk.view { data with directBlocks := result.2 }) result.1) fs := by
  have part := held.part directPlace directPlace_injective
  rw [← forestAt_direct] at part
  refine (reserveEntries_wp reserveSector_tree count 0 count data.directBlocks fs (by simp [divRoundUp, capacity])
    (by omega) service part).mono ?_
  rintro ⟨success, directBlocks⟩ fs' reserved
  rw [forestAt_direct] at reserved
  refine reserved.embed directPlace (fun p => ?_) (fun k => ?_) (fun _ => rfl) (fun p => ?_) (fun k away => ?_)
  · obtain ⟨i, ⟨⟩⟩ := p
    rfl
  · constructor
    · intro short
      cases k with
      | direct i => exact ⟨(i, .here), rfl, Nat.zero_le _, by simpa [InodePos.first, TreePos.first, capacity] using short⟩
      | single p => simp only [InodePos.first] at short; omega
      | double p => simp only [InodePos.first] at short; omega
    · rintro ⟨⟨i, ⟨⟩⟩, rfl, _, short⟩
      simpa [directPlace, InodePos.first, TreePos.first, capacity] using short
  · obtain ⟨i, ⟨⟩⟩ := p
    rfl
  · cases k with
    | direct i => exact absurd rfl (away (i, .here))
    | single p =>
      exact treeAt_congr p fun q _ present => elsewhere_same held directPlace reserved (.single q) (by simp [directPlace]) present
    | double p =>
      exact treeAt_congr p fun q _ present => elsewhere_same held directPlace reserved (.double q) (by simp [directPlace]) present

theorem reserveSingle_wp (service : Service own keep fs) (held : Held own keep fs (blockAt fs.disk.view data))
    {count : Nat} (positive : 0 < count) (small : count ≤ 128) :
    Wp (inodeReserveIndirect (freeMapAllocate 1) 1 data.indirectBlock count) (fun result fs' =>
      Reserved own keep InodePos.isData (fun k => ∃ p, k = .single p ∧ p.first < count)
        (missingTree 1 (fun p => blockAt fs.disk.view data (.single p)) count) fs fs' (blockAt fs.disk.view data)
        (blockAt fs'.disk.view { data with indirectBlock := result.2 }) result.1) fs := by
  have part := held.part .single fun p q same => by injection same
  refine (inodeReserveIndirect_tree (by decide) fs data.indirectBlock count service part positive small).mono ?_
  rintro ⟨success, indirectBlock⟩ fs' reserved
  refine reserved.embed .single (fun _ => rfl) (fun _ => .rfl) (fun _ => rfl) (fun _ => rfl) (fun k away => ?_)
  cases k with
  | direct i => rfl
  | single p => exact absurd rfl (away p)
  | double p =>
    exact treeAt_congr p fun q _ present => elsewhere_same held .single reserved (.double q) nofun present

theorem reserveDouble_wp (service : Service own keep fs) (held : Held own keep fs (blockAt fs.disk.view data))
    {count : Nat} (positive : 0 < count) (small : count ≤ 16384) :
    Wp (inodeReserveIndirect (freeMapAllocate 1) 2 data.doublyIndirectBlock count) (fun result fs' =>
      Reserved own keep InodePos.isData (fun k => ∃ p, k = .double p ∧ p.first < count)
        (missingTree 2 (fun p => blockAt fs.disk.view data (.double p)) count) fs fs' (blockAt fs.disk.view data)
        (blockAt fs'.disk.view { data with doublyIndirectBlock := result.2 }) result.1) fs := by
  have part := held.part .double fun p q same => by injection same
  refine (inodeReserveIndirect_tree (by decide) fs data.doublyIndirectBlock count service part positive small).mono ?_
  rintro ⟨success, doublyIndirectBlock⟩ fs' reserved
  refine reserved.embed .double (fun _ => rfl) (fun _ => .rfl) (fun _ => rfl) (fun _ => rfl) (fun k away => ?_)
  cases k with
  | direct i => rfl
  | single p =>
    exact treeAt_congr p fun q _ present => elsewhere_same held .double reserved (.single q) nofun present
  | double p => exact absurd rfl (away p)

theorem Reserved.idle {π : Type} {isData : π → Bool} {needed : π → Prop} {before after : π → Sector}
    (reserved : Reserved own keep isData needed missing fs fs' before after true) (p : π) (idle : ¬ needed p) :
    after p = before p := by
  by_cases absent : before p = 0
  · rw [reserved.minimal rfl p idle absent, absent]
  · exact reserved.grows.keep p absent

private theorem every {numSectors : Nat} (past : 251 < numSectors) (k : InodePos) :
    (k.first < 123 ∨ ∃ p, k = .single p ∧ p.first < 128) ∨
      (∃ p, k = .double p ∧ p.first < min (numSectors - 251) 16384) ↔ k.first < numSectors := by
  cases k with
  | direct i => simp only [InodePos.first, reduceCtorEq, false_and, exists_false, or_false]; omega
  | single p =>
    have bound := first_lt p
    simp only [capacity] at bound
    simp only [InodePos.first, InodePos.single.injEq, reduceCtorEq, false_and, exists_false, or_false]
    exact ⟨fun _ => by omega, fun _ => .inr ⟨p, rfl, by omega⟩⟩
  | double p =>
    have bound := first_lt p
    simp only [capacity] at bound
    simp only [InodePos.first, InodePos.double.injEq, reduceCtorEq, false_and, exists_false, or_false]
    constructor
    · rintro (short | ⟨q, rfl, short⟩) <;> omega
    · exact fun short => .inr ⟨p, rfl, by omega⟩

/-- All of `inode_reserve` for a length that is not negative. -/
theorem inodeReserve_wp (service : Service own keep fs) (held : Held own keep fs (blockAt fs.disk.view data))
    {length : Int} (nonneg : 0 ≤ length) {numSectors : Nat} (sectors : bytesToSectors length = numSectors) :
    Wp (inodeReserve (freeMapAllocate 1) data length) (fun result fs' => ∃ enough : Bool,
      result.1 = (enough && decide (numSectors ≤ 16635)) ∧
      Reserved own keep InodePos.isData (fun p => p.first < numSectors) (missingBlocks (blockAt fs.disk.view data) numSectors)
        fs fs' (blockAt fs.disk.view data) (blockAt fs'.disk.view result.2) enough ∧
      result.2.length = data.length ∧ result.2.isDir = data.isDir ∧ result.2.magic = data.magic) fs := by
  rw [inodeReserve, if_neg (by omega), sectors]
  dsimp only
  rw [wp_bind]
  refine (reserveDirect_wp service held (Nat.min_le_right _ _)).mono ?_
  rintro ⟨_ | _, directBlocks⟩ first reserved
  · exact (wp_pure _).mpr ⟨false, rfl, reserved.stop, rfl, rfl, rfl⟩
  simp only [Bool.not_true, Bool.false_eq_true, if_false]
  split
  next done =>
    have small : numSectors ≤ 123 := by omega
    refine (wp_pure _).mpr ⟨true, by simp; omega, ?_, rfl, rfl, rfl⟩
    rw [missingBlocks, if_neg (by omega), if_neg (by omega), List.append_nil, List.append_nil]
    exact reserved.needs fun p => by omega
  next more =>
    have past : 123 < numSectors := by omega
    have taken : min numSectors 123 = 123 := by omega
    rw [taken] at reserved ⊢
    have kept (p : TreePos 1) : blockAt first.disk.view { data with directBlocks } (.single p) =
        blockAt fs.disk.view data (.single p) := reserved.idle (.single p) (by simp only [InodePos.first]; omega)
    have kept' (p : TreePos 2) : blockAt first.disk.view { data with directBlocks } (.double p) =
        blockAt fs.disk.view data (.double p) := reserved.idle (.double p) (by simp only [InodePos.first]; omega)
    have held' := reserved.held service held
    rw [wp_bind]
    refine (reserveSingle_wp reserved.service held' (by omega) (Nat.min_le_right _ _)).mono ?_
    rintro ⟨_ | _, indirectBlock⟩ second reserved'
    all_goals
      simp only [kept] at reserved'
      have both := reserved.trans reserved' service held
      rw [missingBlocks, taken, if_pos past, ← List.append_assoc]
    · exact (wp_pure _).mpr ⟨false, rfl, both.stop, rfl, rfl, rfl⟩
    simp only [Bool.not_true, Bool.false_eq_true, if_false]
    split
    next done =>
      have small : numSectors ≤ 251 := by omega
      refine (wp_pure _).mpr ⟨true, by simp; omega, ?_, rfl, rfl, rfl⟩
      rw [if_neg (by omega), List.append_nil]
      refine both.needs fun k => ?_
      cases k with
      | direct i => simp [InodePos.first]; omega
      | single p => simp [InodePos.first]; omega
      | double p => simp [InodePos.first]; omega
    next more =>
      have past' : 251 < numSectors := by omega
      have taken' : min (numSectors - 123) 128 = 128 := by omega
      rw [taken'] at reserved' both ⊢
      have kept'' (p : TreePos 2) :
          blockAt second.disk.view { data with directBlocks, indirectBlock } (.double p) =
            blockAt fs.disk.view data (.double p) :=
        (reserved'.idle (.double p) (by simp)).trans (kept' p)
      have held'' := both.held service held
      rw [if_pos past', wp_bind, show numSectors - 123 - 128 = numSectors - 251 by omega]
      refine (reserveDouble_wp reserved'.service held'' (by omega) (Nat.min_le_right _ _)).mono ?_
      rintro ⟨_ | _, doublyIndirectBlock⟩ third reserved''
      all_goals
        simp only [kept''] at reserved''
        have all := (both.trans reserved'' service held).needs (every past')
      · exact (wp_pure _).mpr ⟨false, rfl, all, rfl, rfl, rfl⟩
      simp only [Bool.not_true, Bool.false_eq_true, if_false]
      split
      next done => exact (wp_pure _).mpr ⟨true, by simp; omega, all, rfl, rfl, rfl⟩
      next more => exact (wp_pure _).mpr ⟨true, by simp; omega, all, rfl, rfl, rfl⟩

end Inodes

end Comp310.Fs
