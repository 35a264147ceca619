import Mathlib.Data.Bool.Count
import Comp310.Fs.Creation

/-! Where first fit puts the blocks of a new file when the sectors in use are the
first ones: right behind them, each index block before the blocks under it. -/

namespace Comp310.Fs
open Comp310.Lib

def usedCount (fs : FileSystem) : Nat := fs.freeMap.count true

namespace TreePos

def blocks : Nat → Nat
  | 0 => 1
  | level + 1 => 1 + 128 * blocks level

/-- The blocks of a full tree that come before the one at a position. -/
def rank : TreePos level → Nat
  | here => 0
  | @child level index below => 1 + index.val * blocks level + below.rank

end TreePos

/-- The blocks of a full file that come before the one at a position. -/
def InodePos.rank : InodePos → Nat
  | direct index => index
  | single below => 123 + below.rank
  | double below => 252 + below.rank

/-- The rank of a data sector: the single index block comes before sector 123, the double one and its first block
before sector 251, and another block before each 128 sectors after that. -/
theorem data_rank {index : Nat} (inside : index < 16635) : (InodePos.data index).rank =
    if index < 123 then index else if index < 251 then index + 1 else index + 3 + (index - 251) / 128 := by
  unfold InodePos.data
  split
  next => rfl
  next =>
    split
    next =>
      simp only [InodePos.rank, TreePos.leaf, TreePos.rank, TreePos.blocks, capacity]
      omega
    next =>
      simp only [InodePos.rank, TreePos.leaf, TreePos.rank, TreePos.blocks, capacity]
      omega

theorem data_next {index : Nat} (inside : index + 1 < 16635) :
    (InodePos.data index).rank < (InodePos.data (index + 1)).rank ∧
      (InodePos.data (index + 1)).rank ≤ (InodePos.data index).rank + 3 := by
  rw [data_rank (by omega), data_rank inside]
  split_ifs <;> omega

/-- Between two data sectors there are only the index blocks that the second one needs. -/
theorem index_between {index between : Nat} (inside : index + 1 < 16635) (low : (InodePos.data index).rank < between)
    (high : between < (InodePos.data (index + 1)).rank) :
    ∃ p : InodePos, p.isData = false ∧ p.first ≤ index + 1 ∧ p.rank = between := by
  rw [data_rank (by omega)] at low
  rw [data_rank inside] at high
  by_cases single : index < 123
  · refine ⟨.single .here, rfl, ?_, ?_⟩
    · simp only [InodePos.first, TreePos.first]
      split_ifs at low high <;> omega
    · simp only [InodePos.rank, TreePos.rank]
      split_ifs at low high <;> omega
  by_cases double : between = 252
  · refine ⟨.double .here, rfl, ?_, double.symm⟩
    simp only [InodePos.first, TreePos.first]
    split_ifs at low high <;> omega
  · have slot : (index + 1 - 251) / 128 < 128 := by omega
    refine ⟨.double (.child ⟨(index + 1 - 251) / 128, slot⟩ .here), rfl, ?_, ?_⟩
    · simp only [InodePos.first, TreePos.first, capacity]
      split_ifs at low high <;> omega
    · simp only [InodePos.rank, TreePos.rank, TreePos.blocks]
      split_ifs at low high <;> omega

section Allocating
variable {own keep : Sector → Prop} {fs middle fs' : FileSystem} {sector : Sector}

theorem usedCount_add (fs : FileSystem) : usedCount fs + freeCount fs = fs.freeMap.length :=
  List.count_true_add_count_false fs.freeMap

theorem Packed.used_iff (packed : Packed fs.freeMap) : Used fs sector ↔ sector.toNat < usedCount fs := packed.set_iff

theorem freeMapAllocate_scan (ran : freeMapAllocate 1 fs = some (some sector, fs')) :
    ∃ idx, bitmapScan fs.freeMap 0 1 false = some idx ∧ sector = UInt32.ofNat idx := by
  obtain ⟨fs₀, _, start, ran⟩ := bind_some ran
  cases start
  cases found : bitmapScan fs.freeMap 0 1 false with
  | none =>
    rw [bitmapScanAndFlip, found] at ran
    cases ran
  | some idx =>
    refine ⟨idx, rfl, ?_⟩
    rw [bitmapScanAndFlip, found] at ran
    obtain ⟨_, fs₁, _, ran⟩ := bind_some ran
    cases home : fs.freeMapFile with
    | none =>
      rw [home] at ran
      cases ran
      rfl
    | some file =>
      rw [home] at ran
      obtain ⟨success, fs₂, _, ran⟩ := bind_some ran
      cases success with
      | false =>
        obtain ⟨_, fs₃, _, ran⟩ := bind_some ran
        cases ran
      | true =>
        cases ran
        rfl

theorem freeMapAllocate_next (service : Service own keep fs) (packed : Packed fs.freeMap)
    (ran : freeMapAllocate 1 fs = some (some sector, fs')) :
    Allocated own keep fs fs' sector ∧ sector.toNat = usedCount fs ∧ Packed fs'.freeMap ∧ usedCount fs' = usedCount fs + 1 := by
  have room : 0 < freeCount fs := by
    apply Nat.pos_of_ne_zero
    intro full
    cases (freeMapAllocate_full full).symm.trans ran
  obtain ⟨_, same, allocated⟩ := (freeMapAllocate_wp service room).result ran
  cases same
  obtain ⟨idx, found, rfl⟩ := freeMapAllocate_scan ran
  have bound := (List.getElem?_eq_some_iff.mp (bitmapScan_some found)).1
  have size := service.size
  have limit := fs.disk.size_lt
  have number : (UInt32.ofNat idx).toNat = usedCount fs := by
    rw [UInt32.toNat_ofNat_of_lt' (by simp only [UInt32.size]; omega)]
    exact packed.scan found
  have count := allocated.count
  have total := usedCount_add fs
  have total' := usedCount_add fs'
  have length : fs'.freeMap.length = fs.freeMap.length := by rw [allocated.map, List.length_set]
  refine ⟨allocated, number, ?_, by omega⟩
  rw [allocated.map, number]
  exact packed.mark

theorem Reserved.usedCount {π : Type} {isData : π → Bool} {needed : π → Prop} {missing : List Bool} {before after : π → Sector}
    (reserved : Reserved own keep isData needed missing fs fs' before after true) :
    usedCount fs' = usedCount fs + missing.length := by
  have total := usedCount_add fs
  have total' := usedCount_add fs'
  have count := reserved.count
  have length := reserved.length
  have enough := reserved.outcome.mp rfl
  omega

theorem bufferCacheWrite_result {block : Block} {value : PUnit} (inside : sector.toNat < fs.disk.size)
    (ran : bufferCacheWrite sector block fs = some (value, fs')) : ∃ disk : Disk, fs' = { fs with disk } ∧
      (∀ other, disk.view other = if other = sector then block else fs.disk.view other) ∧
      disk.size = fs.disk.size ∧ disk.written = sector :: fs.disk.written := by
  have write : Wp (bufferCacheWrite sector block) (fun _ fs' => ∃ disk : Disk, fs' = { fs with disk } ∧
      (∀ other, disk.view other = if other = sector then block else fs.disk.view other) ∧
      disk.size = fs.disk.size ∧ disk.written = sector :: fs.disk.written) fs :=
    wp_bufferCacheWrite inside fun disk view size written => ⟨disk, rfl, view, size, written⟩
  exact write.result ran

end Allocating

section Trees
variable {own keep : Sector → Prop} {level : Nat} {reserve : Sector → Nat → M (Bool × Sector)} {fs fs' : FileSystem}

/-- What reserving a new tree does, for its level, when the sectors in use are the first ones. -/
def LaysTree (own keep : Sector → Prop) (level : Nat) (reserve : Sector → Nat → M (Bool × Sector)) : Prop :=
  ∀ fs numSectors entry fs', Service own keep fs → Packed fs.freeMap → 0 < numSectors → numSectors ≤ capacity level →
    reserve 0 numSectors fs = some ((true, entry), fs') → Packed fs'.freeMap ∧
      ∀ p : TreePos level, p.first < numSectors → (treeAt fs'.disk.view entry p).toNat = usedCount fs + p.rank

private theorem missingEntries_full {sub : Fin n → Nat → List Bool} {unit size : Nat} (full : ∀ j, (sub j unit).length = size)
    (left i : Nat) (inside : i + left ≤ n) : (missingEntries sub unit i left (left * unit)).length = left * size := by
  induction left generalizing i with
  | zero => simp [missingEntries]
  | succ left ih =>
    have least : min ((left + 1) * unit) unit = unit := Nat.min_eq_right (Nat.le_mul_of_pos_left unit (Nat.zero_lt_succ left))
    have rest : (left + 1) * unit - unit = left * unit := by rw [Nat.succ_mul, Nat.add_sub_cancel]
    rw [missingEntries, dif_pos (by omega), List.length_append, least, full, rest, ih (i + 1) (by omega), Nat.succ_mul]
    omega

theorem missingTree_full (level : Nat) : (missingTree level (fun _ => 0) (capacity level)).length = TreePos.blocks level := by
  induction level with
  | zero => rfl
  | succ level ih =>
    have positive : 0 < capacity level := Nat.pow_pos (by decide)
    have grown : capacity (level + 1) = 128 * capacity level := by simp only [capacity, Nat.pow_succ]; omega
    have rounds : divRoundUp (capacity (level + 1)) (capacity level) = 128 := by
      rw [divRoundUp, grown, Nat.add_sub_assoc positive, Nat.mul_comm, Nat.mul_add_div positive,
        Nat.div_eq_of_lt (Nat.sub_lt positive Nat.one_pos)]
    rw [missingTree, if_pos rfl, rounds, grown, List.length_append, missingEntries_full (fun _ => ih) 128 0 (Nat.le_refl 128)]
    rfl

theorem reserveEntries_laid (spec : ReservesTree own keep level reserve) (lays : LaysTree own keep level reserve)
    (left i numSectors : Nat) {blocks blocks' : Vector Sector n} (rounds : divRoundUp numSectors (capacity level) = left)
    (room : i + left ≤ n) (service : Service own keep fs)
    (held : Held own keep fs (forestAt fs.disk.view blocks : Fin _ × TreePos level → Sector)) (packed : Packed fs.freeMap)
    (blank : ∀ j : Fin n, i ≤ j.val → blocks.get j = 0)
    (ran : reserveEntries reserve (capacity level) blocks i left numSectors fs = some ((true, blocks'), fs')) :
    Packed fs'.freeMap ∧ ∀ p : Fin n × TreePos level, fromEntry level i numSectors p →
      (forestAt fs'.disk.view blocks' p).toNat = usedCount fs + (p.1.val - i) * TreePos.blocks level + p.2.rank := by
  have positive : 0 < capacity level := Nat.pow_pos (by decide)
  induction left generalizing i numSectors blocks fs with
  | zero =>
    have none_left : numSectors = 0 := by
      unfold divRoundUp at rounds
      rcases Nat.div_eq_zero_iff.mp rounds with zero | small
      · omega
      · omega
    cases ran
    refine ⟨packed, fun p need => ?_⟩
    rw [none_left] at need
    exact absurd need.2 (Nat.not_lt_zero _)
  | succ left ih =>
    obtain ⟨some_left, rest⟩ := rounds_next positive rounds
    have inside : i < n := by omega
    have one_wp := spec.entry_wp (min numSectors (capacity level)) inside service held (by omega) (by omega)
    have absent := blank ⟨i, inside⟩ (Nat.le_refl i)
    rw [reserveEntries, dif_pos inside] at ran
    obtain ⟨⟨success, entry⟩, middle, first, ran⟩ := bind_some ran
    cases success with
    | false => cases ran
    | true =>
      obtain ⟨one, others⟩ := one_wp.result first
      rw [absent] at first one
      obtain ⟨packed₁, placed⟩ := lays fs _ entry middle service packed (by omega) (by omega) first
      have later := (reserveEntries_wp spec left (i + 1) (numSectors - min numSectors (capacity level)) (blocks.set i entry inside)
        middle rest (by omega) one.service (one.held service held)).result ran
      have blank₁ (j : Fin n) (after : i + 1 ≤ j.val) : (blocks.set i entry inside).get j = 0 := by
        rw [get_set inside, if_neg (by omega)]
        exact blank j (by omega)
      obtain ⟨packed', behind⟩ := ih (i + 1) (numSectors - min numSectors (capacity level)) rest (by omega) one.service
        (one.held service held) packed₁ blank₁ ran
      refine ⟨packed', fun p need => ?_⟩
      rcases (fromEntry_succ p).mp need with here | further
      · obtain ⟨j, below⟩ := p
        obtain ⟨rfl, short⟩ := here
        have present := one.complete rfl (j, below) ⟨rfl, short⟩
        have mine : forestAt middle.disk.view (blocks.set j entry inside) (j, below) = treeAt middle.disk.view entry below := by
          rw [forestAt, get_set inside, if_pos rfl]
        rw [later.grows.keep _ present, mine, placed below short, Nat.sub_self, Nat.zero_mul]
        rfl
      · have full : min numSectors (capacity level) = capacity level := by
          have some := further.2
          omega
        have blocks_one : usedCount middle = usedCount fs + TreePos.blocks level := by
          rw [one.usedCount, full, ← missingTree_full level]
          congr
          funext q
          exact treeAt_zero q
        obtain ⟨d, further'⟩ : ∃ d, p.1.val = i + 1 + d := ⟨p.1.val - (i + 1), by have low := further.1; omega⟩
        rw [behind p further, blocks_one, further', show i + 1 + d - i = d + 1 by omega, show i + 1 + d - (i + 1) = d by omega,
          Nat.succ_mul]
        omega

theorem reserveSector_lays : LaysTree own keep 0 fun entry _ => reserveSector (freeMapAllocate 1) entry := by
  intro fs numSectors entry fs' service packed _ _ ran
  dsimp only [reserveSector] at ran
  rw [if_pos rfl] at ran
  obtain ⟨found, middle, allocate, ran⟩ := bind_some ran
  cases found with
  | none => cases ran
  | some sector =>
    obtain ⟨allocated, number, packed₁, _⟩ := freeMapAllocate_next service packed allocate
    obtain ⟨_, fs₁, wrote, ran⟩ := bind_some ran
    cases ran
    obtain ⟨disk, rfl, _⟩ := bufferCacheWrite_result (allocated.service.bounded allocated.used) wrote
    refine ⟨packed₁, fun p _ => ?_⟩
    cases p
    exact number

private theorem reserveBlock_lays {reserve : Sector → Nat → M (Bool × Sector)} (spec : ReservesTree own keep level reserve)
    (lays : LaysTree own keep level reserve) {entry root : Sector} {numSectors : Nat} (service : Service own keep fs)
    (packed : Packed fs.freeMap) (used : Used fs root) (nonzero : root ≠ 0) (blank : fs.disk.view root = zeros)
    (bound : numSectors ≤ capacity (level + 1))
    (ran : (do
      let indirectBlock ← bufferCacheRead root
      let (success, blocks) ← reserveEntries reserve (capacity level) (blocksOf indirectBlock) 0
        (divRoundUp numSectors (capacity level)) numSectors
      if success then do
        bufferCacheWrite root (ofBlocks blocks)
        pure (true, root)
      else pure (false, root)) fs = some ((true, entry), fs')) :
    entry = root ∧ Packed fs'.freeMap ∧ ∀ (index : Fin 128) (p : TreePos level), index.val * capacity level + p.first < numSectors →
      (treeAt fs'.disk.view root (.child index p)).toNat = usedCount fs + index.val * TreePos.blocks level + p.rank := by
  have room : 0 + divRoundUp numSectors (capacity level) ≤ 128 := by
    rw [Nat.zero_add]
    exact rounds_le bound
  have empty (j : Fin 128) : (blocksOf (fs.disk.view root)).get j = 0 := by rw [blank, blocksOf_zeros]
  have nothing : (forestAt fs.disk.view (blocksOf (fs.disk.view root)) : Fin 128 × TreePos level → Sector) = fun _ => 0 := by
    funext p
    rw [forestAt, empty, treeAt_zero]
  have held : Held own keep fs (forestAt fs.disk.view (blocksOf (fs.disk.view root)) : Fin 128 × TreePos level → Sector) :=
    .of_nothing nothing
  rw [run_bind (bufferCacheRead_eq (service.bounded used))] at ran
  obtain ⟨⟨success, blocks⟩, middle, loop, ran⟩ := bind_some ran
  cases success with
  | false => cases ran
  | true =>
    have reserved := (reserveEntries_wp spec _ 0 numSectors _ fs rfl room service held).result loop
    obtain ⟨packed₁, placed⟩ := reserveEntries_laid spec lays _ 0 numSectors rfl room service held packed (fun j _ => empty j) loop
    have used₁ := reserved.grows.mono _ used
    obtain ⟨_, fs₁, wrote, ran⟩ := bind_some ran
    cases ran
    obtain ⟨disk, rfl, view, _⟩ := bufferCacheWrite_result (reserved.service.bounded used₁) wrote
    refine ⟨rfl, packed₁, fun index p short => ?_⟩
    have stored : childEntry disk.view entry index = blocks.get index := by
      rw [childEntry, if_neg nonzero, view, if_pos rfl, blocksOf_ofBlocks]
    have kept : treeAt disk.view (blocks.get index) p = treeAt middle.disk.view (blocks.get index) p := by
      refine treeAt_congr p fun q _ present => (view _).trans (if_neg fun same => ?_)
      have fresh := reserved.grows.fresh (index, q) (congrFun nothing (index, q)) present
      exact fresh.1 (by rw [forestAt, same]; exact used)
    have number := placed (index, p) ⟨Nat.zero_le _, short⟩
    rw [treeAt, stored, kept]
    exact number

theorem inodeReserveIndirect_lays (small : level ≤ 2) : LaysTree own keep level (inodeReserveIndirect (freeMapAllocate 1) level) := by
  induction level with
  | zero =>
    simp only [inodeReserveIndirect]
    exact reserveSector_lays
  | succ level ih =>
    intro fs numSectors entry fs' service packed positive bound ran
    have full : freeCount fs ≠ 0 := by
      intro full
      have failed := (inodeReserveIndirect_full (level + 1) numSectors fs service full positive).result ran
      cases failed.1
    simp only [inodeReserveIndirect, if_true, unitOf_eq (show level ≤ 1 by omega)] at ran
    obtain ⟨found, fs₁, allocate, ran⟩ := bind_some ran
    obtain ⟨root, same, _⟩ := (freeMapAllocate_wp service (Nat.pos_of_ne_zero full)).result allocate
    subst same
    obtain ⟨allocated, number, packed₁, count⟩ := freeMapAllocate_next service packed allocate
    rw [Option.getD_some] at ran
    obtain ⟨_, fs₂, wrote, ran⟩ := bind_some ran
    rw [pure_bind] at ran
    obtain ⟨disk, rfl, view, size, written⟩ := bufferCacheWrite_result (allocated.service.bounded allocated.used) wrote
    have one : Reserved own keep (fun _ : Unit => false) (fun _ => True) [true] fs { fs₁ with disk } (fun _ => 0) (fun _ => root) true :=
      .one service allocated view size written true () rfl rfl (fun p away => absurd rfl away) fun p => iff_of_true trivial rfl
    have nonzero : root ≠ 0 := one.complete rfl () trivial
    have blank : disk.view root = zeros := (view root).trans (if_pos rfl)
    obtain ⟨rfl, packed', placed⟩ := reserveBlock_lays (inodeReserveIndirect_tree (by omega)) (ih (by omega)) one.service packed₁
      allocated.used nonzero blank bound ran
    have count₁ : usedCount { fs₁ with disk } = usedCount fs + 1 := count
    refine ⟨packed', fun p short => ?_⟩
    cases p with
    | here => exact number
    | child index p =>
      rw [placed index p short, count₁, TreePos.rank]
      omega

end Trees

section Inodes
variable {own keep : Sector → Prop} {fs fs' : FileSystem} {data data' : InodeDisk} {needed : InodePos → Prop} {missing : List Bool}
  {first count count' : Nat}

/-- The first sectors of a new file are laid out, and no others are there yet. -/
private structure Part (own keep : Sector → Prop) (first count : Nat) (fs : FileSystem) (data : InodeDisk) : Prop where
  service : Service own keep fs
  held : Held own keep fs (blockAt fs.disk.view data)
  packed : Packed fs.freeMap
  positive : 0 < first
  placed : ∀ p : InodePos, p.first < count → (blockAt fs.disk.view data p).toNat = first + p.rank
  rest : ∀ p : InodePos, count ≤ p.first → blockAt fs.disk.view data p = 0

private theorem Part.blank (service : Service own keep fs) (packed : Packed fs.freeMap) (blank : blockAt fs.disk.view data = fun _ => 0) :
    Part own keep (usedCount fs) 0 fs data :=
  ⟨service, .of_nothing blank, packed, Nat.zero_lt_of_lt (packed.used_iff.mp service.zero),
    fun _ before => absurd before (Nat.not_lt_zero _), fun p _ => congrFun blank p⟩

private theorem Part.grow (part : Part own keep first count fs data) (more : count ≤ count')
    (reserved : Reserved own keep InodePos.isData needed missing fs fs' (blockAt fs.disk.view data) (blockAt fs'.disk.view data') true)
    (packed : Packed fs'.freeMap) (only : ∀ p, needed p → p.first < count')
    (placed : ∀ p : InodePos, count ≤ p.first → p.first < count' → (blockAt fs'.disk.view data' p).toNat = first + p.rank) :
    Part own keep first count' fs' data' := by
  have positive := part.positive
  refine ⟨reserved.service, reserved.held part.service part.held, packed, positive, fun p inside => ?_, fun p past => ?_⟩
  · rcases Nat.lt_or_ge p.first count with before | new
    · have there := part.placed p before
      have present : blockAt fs.disk.view data p ≠ 0 := fun absent => by
        rw [absent, UInt32.toNat_zero] at there
        omega
      rw [reserved.grows.keep p present]
      exact there
    · exact placed p new inside
  · exact reserved.minimal rfl p (fun need => Nat.not_lt.mpr past (only p need)) (part.rest p (Nat.le_trans more past))

private theorem Part.direct (part : Part own keep first 0 fs data) (start : usedCount fs = first) (small : count ≤ 123)
    {directBlocks : Vector Sector 123}
    (ran : reserveEntries (fun entry _ => reserveSector (freeMapAllocate 1) entry) 1 data.directBlocks 0 count count fs =
      some ((true, directBlocks), fs')) :
    Part own keep first count fs' { data with directBlocks } ∧ usedCount fs' = first + count := by
  have nothing : blockAt fs.disk.view data = fun _ => 0 := funext fun p => part.rest p (Nat.zero_le _)
  have forest : (forestAt fs.disk.view data.directBlocks : Fin 123 × TreePos 0 → Sector) = fun _ => 0 := by
    rw [forestAt_direct, nothing]
  have reserved := (reserveDirect_wp part.service part.held small).result ran
  obtain ⟨packed, placed⟩ := reserveEntries_laid reserveSector_tree reserveSector_lays count 0 count (by simp [divRoundUp, capacity])
    (by omega) part.service (.of_nothing forest) part.packed (fun j _ => congrFun nothing (.direct j)) ran
  refine ⟨part.grow (Nat.zero_le _) reserved packed (fun _ => id) fun p _ inside => ?_, ?_⟩
  · cases p with
    | direct j =>
      have number : (directBlocks.get j).toNat = usedCount fs + (j.val - 0) * 1 + 0 :=
        placed (j, .here) ⟨Nat.zero_le _, by simpa [capacity, TreePos.first, InodePos.first] using inside⟩
      rw [Nat.sub_zero, Nat.mul_one, start] at number
      exact number
    | single p => simp only [InodePos.first] at inside; omega
    | double p => simp only [InodePos.first] at inside; omega
  · have length : (missingEntries (fun index : Fin 123 => missingTree 0 fun _ => (0 : Sector)) 1 0 count (count * 1)).length = count * 1 :=
      missingEntries_full (fun _ => missingTree_full 0) count 0 (by omega)
    rw [Nat.mul_one] at length
    rw [reserved.usedCount, start, nothing, length]

private theorem Part.single (part : Part own keep first 123 fs data) (start : usedCount fs = first + 123) (positive : 0 < count)
    (small : count ≤ 128) {indirectBlock : Sector}
    (ran : inodeReserveIndirect (freeMapAllocate 1) 1 data.indirectBlock count fs = some ((true, indirectBlock), fs')) :
    Part own keep first (123 + count) fs' { data with indirectBlock } ∧ (count = 128 → usedCount fs' = first + 252) := by
  have nothing (p : TreePos 1) : blockAt fs.disk.view data (.single p) = 0 := part.rest _ (Nat.le_add_right _ _)
  have absent : data.indirectBlock = 0 := nothing .here
  have reserved := (reserveSingle_wp part.service part.held positive small).result ran
  rw [absent] at ran
  obtain ⟨packed, placed⟩ := inodeReserveIndirect_lays (show 1 ≤ 2 by decide) fs _ indirectBlock fs' part.service part.packed positive
    small ran
  refine ⟨part.grow (Nat.le_add_right _ _) reserved packed ?_ fun p past inside => ?_, fun full => ?_⟩
  · rintro _ ⟨p, rfl, inside⟩
    exact Nat.add_lt_add_left inside 123
  · cases p with
    | direct j => exact absurd past (Nat.not_le.mpr j.isLt)
    | single p =>
      have number := placed p (Nat.lt_of_add_lt_add_left inside)
      rw [start, Nat.add_assoc] at number
      exact number
    | double p => simp only [InodePos.first] at inside; omega
  · subst full
    simp only [nothing] at reserved
    have length : (missingTree 1 (fun _ => 0) 128).length = 129 := missingTree_full 1
    rw [reserved.usedCount, start, length]

private theorem Part.double (part : Part own keep first 251 fs data) (start : usedCount fs = first + 252) (positive : 0 < count)
    (small : count ≤ 16384) {doublyIndirectBlock : Sector}
    (ran : inodeReserveIndirect (freeMapAllocate 1) 2 data.doublyIndirectBlock count fs = some ((true, doublyIndirectBlock), fs')) :
    Part own keep first (251 + count) fs' { data with doublyIndirectBlock } := by
  have absent : data.doublyIndirectBlock = 0 := part.rest (.double .here) (Nat.le_refl 251)
  have reserved := (reserveDouble_wp part.service part.held positive small).result ran
  rw [absent] at ran
  obtain ⟨packed, placed⟩ := inodeReserveIndirect_lays (show 2 ≤ 2 by decide) fs _ doublyIndirectBlock fs' part.service part.packed
    positive small ran
  refine part.grow (Nat.le_add_right _ _) reserved packed ?_ fun p past inside => ?_
  · rintro _ ⟨p, rfl, inside⟩
    exact Nat.add_lt_add_left inside 251
  · cases p with
    | direct j => exact absurd past (Nat.not_le.mpr (Nat.lt_trans j.isLt (by decide)))
    | single p => exact absurd past (Nat.not_le.mpr (Nat.add_lt_add_left (first_lt p) 123))
    | double p =>
      have number := placed p (Nat.lt_of_add_lt_add_left inside)
      rw [start, Nat.add_assoc] at number
      exact number

/-- All of `inode_reserve` for an inode without blocks. -/
theorem inodeReserve_laid (service : Service own keep fs) (packed : Packed fs.freeMap)
    (blank : blockAt fs.disk.view data = fun _ => 0) {length : Int} (nonneg : 0 ≤ length)
    (ran : inodeReserve (freeMapAllocate 1) data length fs = some ((true, data'), fs')) :
    Packed fs'.freeMap ∧
      ∀ p : InodePos, p.first < bytesToSectors length → (blockAt fs'.disk.view data' p).toNat = usedCount fs + p.rank := by
  rw [inodeReserve, if_neg (by omega)] at ran
  generalize bytesToSectors length = numSectors at ran ⊢
  dsimp only at ran
  obtain ⟨⟨success, directBlocks⟩, fs₁, direct, ran⟩ := bind_some ran
  cases success with
  | false => cases ran
  | true =>
    obtain ⟨part₁, count₁⟩ := (Part.blank service packed blank).direct rfl (Nat.min_le_right numSectors 123) direct
    simp only [Bool.not_true, Bool.false_eq_true, if_false] at ran
    split at ran
    next done =>
      cases ran
      exact ⟨part₁.packed, fun p inside => part₁.placed p (by omega)⟩
    next more =>
      rw [show min numSectors 123 = 123 by omega] at part₁ count₁ ran
      obtain ⟨⟨success, indirectBlock⟩, fs₂, single, ran⟩ := bind_some ran
      cases success with
      | false => cases ran
      | true =>
        obtain ⟨part₂, count₂⟩ := part₁.single count₁ (by omega) (Nat.min_le_right (numSectors - 123) 128) single
        simp only [Bool.not_true, Bool.false_eq_true, if_false] at ran
        split at ran
        next done =>
          cases ran
          exact ⟨part₂.packed, fun p inside => part₂.placed p (by omega)⟩
        next more' =>
          have full : min (numSectors - 123) 128 = 128 := by omega
          rw [full] at part₂ ran
          obtain ⟨⟨success, doublyIndirectBlock⟩, fs₃, double, ran⟩ := bind_some ran
          cases success with
          | false => cases ran
          | true =>
            have part₃ := part₂.double (count₂ full) (by omega) (Nat.min_le_right (numSectors - 123 - 128) 16384) double
            simp only [Bool.not_true, Bool.false_eq_true, if_false] at ran
            split at ran
            next done =>
              cases ran
              exact ⟨part₃.packed, fun p inside => part₃.placed p (by omega)⟩
            next => cases ran

end Inodes

section Objects
variable {own keep live : Sector → Prop} {fs fs' : FileSystem} {sector : Sector} {size : Int} {isDir : Bool} {first : Nat}

/-- The blocks of a file follow one another from this sector on. -/
def Laid (first : Nat) (fs : FileSystem) (sector : Sector) : Prop :=
  ∀ p : InodePos, p.first < bytesToSectors (curData fs sector).length →
    (blockAt fs.disk.view (curData fs sector) p).toNat = first + p.rank

theorem Same.laid (same : Same fs fs' sector) (laid : Laid first fs sector) : Laid first fs' sector := by
  rw [Laid, same.blockAt, same.data]
  exact laid

/-- The inode that is stored has its blocks right behind the sectors in use. -/
theorem inodeCreate_stored (service : Service own keep fs) (used : Used fs sector) (packed : Packed fs.freeMap)
    (ran : inodeCreate sector size isDir fs = some (true, fs')) : Packed fs'.freeMap ∧ ∃ data : InodeDisk,
      fs'.disk.view sector = data.toBlock ∧ data.length = size ∧
        ∀ p : InodePos, p.first < bytesToSectors size → (blockAt fs'.disk.view data p).toNat = usedCount fs + p.rank := by
  have nothing : blockAt fs.disk.view (blankInode isDir size) = fun _ => 0 := blockAt_blank fs.disk.view
  obtain ⟨⟨success, data⟩, middle, reserve, ran⟩ := bind_some ran
  cases success with
  | false => cases ran
  | true =>
    have nonneg : 0 ≤ size := by
      refine Int.not_lt.mp fun negative => ?_
      rw [inodeReserve, if_pos negative] at reserve
      cases reserve
    obtain ⟨packed₁, placed⟩ := inodeReserve_laid service packed nothing nonneg reserve
    obtain ⟨_, _, reserved, length, _⟩ := (inodeReserve_wp service (.of_nothing nothing) nonneg rfl).result reserve
    obtain ⟨_, fs₁, wrote, ran⟩ := bind_some ran
    cases ran
    obtain ⟨disk, rfl, view, _⟩ := bufferCacheWrite_result (reserved.service.bounded (reserved.grows.mono _ used)) wrote
    refine ⟨packed₁, data, (view sector).trans (if_pos rfl), length, fun p short => ?_⟩
    rw [← placed p short]
    congr 1
    refine blockAt_congr p fun q _ present => (view _).trans (if_neg fun same => ?_)
    exact (reserved.grows.fresh q (congrFun nothing q) present).1 (same ▸ used)

theorem Objects.inodeCreate_laid (objects : Objects live fs) (used : Used fs sector) (unclaimed : Unclaimed live fs sector)
    (high : size < 2147483648) (packed : Packed fs.freeMap) (ran : inodeCreate sector size isDir fs = some (true, fs')) :
    Packed fs'.freeMap ∧ Laid (usedCount fs) fs' sector := by
  obtain ⟨outcome, _, _, objects', unclaimed', _⟩ := (objects.inodeCreate_wp used unclaimed high).result ran
  obtain ⟨nonneg, _⟩ := outcome.mp rfl
  obtain ⟨packed', data, stored, length, placed⟩ := inodeCreate_stored objects.blocks.service used packed ran
  have closed : ∀ entry ∈ fs'.openInodes, entry.2.sector ≠ sector := fun entry member equal =>
    unclaimed'.not_live (equal ▸ objects'.blocks.opens entry member)
  have current : curData fs' sector = data := by
    rw [curData_closed closed, stored]
    exact InodeDisk.ofBlock_toBlock (by omega) (by omega)
  refine ⟨packed', fun p short => ?_⟩
  rw [current, length] at short
  rw [current, placed p short]

end Objects

section Creation
variable {fs start allocated made fs' : FileSystem} {name : CString} {sector : Sector} {size : Int}

/-- The sectors in use are the first ones, and the blocks of every file follow one another. -/
structure Compact (fs : FileSystem) : Prop where
  packed : Packed fs.freeMap
  files : ∀ name sector, Named fs name sector → ∃ first, Laid first fs sector

/-- The blocks of a new file come right behind its inode, unless the directory had to grow. -/
theorem CreateSteps.laid (steps : CreateSteps fs start allocated made fs' size sector) (high : size < 2147483648)
    (packed : Packed fs.freeMap) (nothing : rootShort fs = []) : Packed fs'.freeMap ∧ Laid (usedCount fs + 1) fs' sector := by
  rw [← steps.store.freeMap] at packed
  obtain ⟨_, _, packed₁, count₁⟩ := freeMapAllocate_next steps.service packed steps.allocate
  obtain ⟨packed₂, laid⟩ := steps.objects.inodeCreate_laid steps.used steps.unclaimed high packed₁ steps.create
  obtain ⟨_, _, _, objects, _⟩ := (steps.objects.inodeCreate_wp steps.used steps.unclaimed high).result steps.create
  have count : freeCount fs' = freeCount made := by
    rw [← steps.count, nothing, List.length_nil, Nat.add_zero]
  have before : usedCount allocated = usedCount fs + 1 := by
    rw [count₁, usedCount, steps.store.freeMap, usedCount]
  rw [objects.blocks.freeMap_ext steps.length steps.mono count, ← before]
  exact ⟨packed₂, steps.mine.laid laid⟩

theorem CreateSteps.compact (steps : CreateSteps fs start allocated made fs' size sector) (done : CreateDone fs fs' name size sector)
    (root : Root fs) (high : size < 2147483648) (nothing : rootShort fs = []) (compact : Compact fs) : Compact fs' := by
  obtain ⟨packed, mine⟩ := steps.laid high compact.packed nothing
  refine ⟨packed, fun other there named => ?_⟩
  rcases (done.named other there).mp named with before | ⟨_, rfl⟩
  · obtain ⟨first, laid⟩ := compact.files other there before
    exact ⟨first, (steps.others there before.live (root.plain other there before).2.2.2).laid laid⟩
  · exact ⟨_, mine⟩

end Creation

end Comp310.Fs
