import Comp310.Lib.Bytes
import Comp310.Fs.DataSectors
import Comp310.Fs.Recover

/-! What `recover(0)` does to the ownership of sectors. It marks as many sectors as the file has data sectors, from the
inode on and wherever these are. The inode takes the first place of that run, so a file gets all that it needs only where
other sectors were marked before. -/

namespace Comp310.Proofs.RecoveredFiles
open Comp310.Fs Comp310.Lib

/-- The index blocks that the length of an object needs. -/
inductive Indexes (fs : FileSystem) (object : Sector) : Sector → Prop where
  | indirect (below : 123 < bytesToSectors (curData fs object).length) : Indexes fs object (curData fs object).indirectBlock
  | doublyIndirect (below : 251 < bytesToSectors (curData fs object).length) : Indexes fs object (curData fs object).doublyIndirectBlock
  | second (entry : Fin 128) (below : 251 + 128 * entry.val < bytesToSectors (curData fs object).length) :
      Indexes fs object ((blocksOf (fs.disk.view (curData fs object).doublyIndirectBlock)).get entry)

/-- The sector of an object's inode, its data sectors as they are listed, and its index blocks. -/
inductive Owns (fs : FileSystem) (object : Sector) : Sector → Prop where
  | inode : Owns fs object object
  | data (listed : getInodeDataSectors (curData fs object) fs = some (some sectors, fs)) (member : sector ∈ sectors) : Owns fs object sector
  | index (index : Indexes fs object sector) : Owns fs object sector

/-- No sector is owned by two live objects, and every owned sector is marked. -/
structure Owned (fs : FileSystem) : Prop where
  once : ∀ object object' sector, Live fs object → Live fs object' → Owns fs object sector → Owns fs object' sector → object = object'
  marked : ∀ object sector, Live fs object → Owns fs object sector → bitmapTest fs.freeMap sector.toNat = true

/-- The files that got a name back are files: they have an inode, and sectors of their own. -/
structure Restored (fs fs' : FileSystem) : Prop where
  owned : Owned fs'
  inodes : ∀ name sector, Named fs' name sector → ¬ Named fs name sector → (InodeDisk.ofBlock (fs'.disk.view sector)).magic = inodeMagic

/-- What is taken for an inode is one where it gets a name, with sectors that it shares with no other and that were marked
before, or are in one of the runs. -/
structure Restorable (fs : FileSystem) : Prop where
  fits : ∀ start ∈ takenUp fs fs.freeMap.length, FitsBuffers fs start
  inodes : ∀ start ∈ addedAgain fs fs.freeMap.length, (InodeDisk.ofBlock (fs.disk.view (UInt32.ofNat start))).magic = inodeMagic
  alone : ∀ start ∈ addedAgain fs fs.freeMap.length, ∀ sector, Owns fs (UInt32.ofNat start) sector →
    ∀ object, Live fs object → ¬ Owns fs object sector
  apart : ∀ start ∈ addedAgain fs fs.freeMap.length, ∀ other ∈ addedAgain fs fs.freeMap.length, ∀ sector,
    Owns fs (UInt32.ofNat start) sector → Owns fs (UInt32.ofNat other) sector → start = other
  marked : ∀ start ∈ addedAgain fs fs.freeMap.length, ∀ sector, Owns fs (UInt32.ofNat start) sector →
    bitmapTest fs.freeMap sector.toNat = true ∨
      sector.toNat < fs.freeMap.length ∧ ∃ other ∈ takenUp fs fs.freeMap.length, InRun fs other sector.toNat

variable {fs fs' : FileSystem} {sector object : Sector} {taken added : List Nat} {start : Nat}

section Reading

/-- Two states in which a program that only reads gives the same. -/
private def Agree (program : M α) (fs fs' : FileSystem) : Prop :=
  ∃ result : Option α, program fs = result.map (fun value => (value, fs)) ∧ program fs' = result.map fun value => (value, fs')

private theorem Agree.pure (value : α) : Agree (pure value) fs fs' := ⟨some value, rfl, rfl⟩

private theorem Agree.fault : Agree (fault : M α) fs fs' := ⟨none, rfl, rfl⟩

private theorem Agree.bind {program : M α} {next : α → M β} (first : Agree program fs fs') (rest : ∀ value, Agree (next value) fs fs') :
    Agree (program >>= next) fs fs' := by
  obtain ⟨_ | value, left, right⟩ := first
  · exact ⟨none, run_bind_fault left next, run_bind_fault right next⟩
  · obtain ⟨result, left', right'⟩ := rest value
    exact ⟨result, (run_bind left next).trans left', (run_bind right next).trans right'⟩

private theorem Agree.read (size : fs'.disk.size = fs.disk.size) (view : fs'.disk.view sector = fs.disk.view sector)
    {next : Block → M β} (rest : Agree (next (fs.disk.view sector)) fs fs') : Agree (bufferCacheRead sector >>= next) fs fs' := by
  rcases Nat.lt_or_ge sector.toNat fs.disk.size with inside | beyond
  · have left := bufferCacheRead_eq inside
    have right : bufferCacheRead sector fs' = some (fs.disk.view sector, fs') := view ▸ bufferCacheRead_eq (size ▸ inside)
    obtain ⟨result, left', right'⟩ := rest
    exact ⟨result, (run_bind left next).trans left', (run_bind right next).trans right'⟩
  · have left : bufferCacheRead sector fs = none := by simp [bufferCacheRead, fs.disk.read_outside beyond]
    have right : bufferCacheRead sector fs' = none := by simp [bufferCacheRead, fs'.disk.read_outside (size ▸ beyond)]
    exact ⟨none, run_bind_fault left next, run_bind_fault right next⟩

private theorem Agree.dataSectorsUnder (size : fs'.disk.size = fs.disk.size) (blocks : Vector Sector 128) (i left numSectors : Nat)
    (view : ∀ entry : Fin 128, entry.val < i + left → fs'.disk.view (blocks.get entry) = fs.disk.view (blocks.get entry)) :
    Agree (dataSectorsUnder blocks i left numSectors) fs fs' := by
  induction left generalizing i numSectors with
  | zero => exact .pure _
  | succ left ih =>
    rw [Fs.dataSectorsUnder]
    split
    next inside => exact .read size (view ⟨i, inside⟩ (by dsimp only; omega)) (.bind (ih _ _ fun entry below => view entry (by omega)) fun _ => .pure _)
    next => exact .fault

private theorem Agree.getInodeDataSectors (size : fs'.disk.size = fs.disk.size)
    (view : ∀ sector, Indexes fs object sector → fs'.disk.view sector = fs.disk.view sector) :
    Agree (getInodeDataSectors (curData fs object)) fs fs' := by
  unfold Fs.getInodeDataSectors
  split
  next => exact .pure _
  next =>
    have last (direct single : List Sector) (l : Nat) (some : 0 < l → 251 + (l - 1) < bytesToSectors (curData fs object).length)
        (few : l ≤ 128 * 128) : @Agree (Option (List Sector)) (if 0 < l then do
        let indirectBlock ← bufferCacheRead (curData fs object).doublyIndirectBlock
        let double ← Fs.dataSectorsUnder (blocksOf indirectBlock) 0 (divRoundUp l 128) l
        Pure.pure (.some (direct ++ single ++ double))
      else do
        let double ← Pure.pure []
        Pure.pure (.some (direct ++ single ++ double))) fs fs' := by
      split
      next positive =>
        have below := some positive
        refine .read size (view _ (.doublyIndirect (by omega))) (.bind (.dataSectorsUnder size _ _ _ _ fun entry inside => ?_) fun _ => .pure _)
        refine view _ (.second entry ?_)
        unfold divRoundUp at inside
        omega
      next => exact .bind (.pure _) fun _ => .pure _
    dsimp only
    split
    next positive => exact .read size (view _ (.indirect (by omega))) (.bind (.pure _) fun _ => last _ _ _ (by omega) (by omega))
    next => exact .bind (.pure _) fun _ => last _ _ _ (by omega) (by omega)

end Reading

section Owners

/-- What an object owns is known from its inode and its index blocks. -/
theorem owns_congr (data : curData fs' object = curData fs object) (size : fs'.disk.size = fs.disk.size)
    (view : ∀ sector, Indexes fs object sector → fs'.disk.view sector = fs.disk.view sector) (sector : Sector) :
    Owns fs' object sector ↔ Owns fs object sector := by
  have index : Indexes fs' object sector ↔ Indexes fs object sector := by
    constructor
    · intro index
      cases index with
      | indirect below => exact data ▸ .indirect (data ▸ below)
      | doublyIndirect below => exact data ▸ .doublyIndirect (data ▸ below)
      | second entry below =>
        rw [data] at below ⊢
        rw [view _ (.doublyIndirect (by omega))]
        exact .second entry below
    · intro index
      cases index with
      | indirect below => exact data ▸ .indirect (data.symm ▸ below)
      | doublyIndirect below => exact data ▸ .doublyIndirect (data.symm ▸ below)
      | second entry below =>
        have same := view _ (.doublyIndirect (by omega))
        rw [← same, ← data]
        exact .second entry (data.symm ▸ below)
  have listed (sectors : List Sector) : getInodeDataSectors (curData fs' object) fs' = some (some sectors, fs') ↔
      getInodeDataSectors (curData fs object) fs = some (some sectors, fs) := by
    obtain ⟨result, left, right⟩ := Agree.getInodeDataSectors size view
    rw [data, left, right]
    cases result <;> simp
  constructor
  · intro owns
    cases owns with
    | inode => exact .inode
    | data found member => exact .data ((listed _).mp found) member
    | index there => exact .index (index.mp there)
  · intro owns
    cases owns with
    | inode => exact .inode
    | data found member => exact .data ((listed _).mpr found) member
    | index there => exact .index (index.mpr there)

theorem root_owns (readable : Readable fs (curData fs 1)) (there : DataSector fs.disk.view (curData fs 1) sector) : Owns fs 1 sector := by
  obtain ⟨index, inside, rfl⟩ := there
  have nonneg := readable.nonneg
  have limit := readable.limit
  have count := bytesToSectors_eq nonneg (by omega)
  refine .data (getInodeDataSectors_eq readable) (List.mem_map.mpr ⟨index, List.mem_range.mpr (by omega), ?_⟩)
  rw [Nat.zero_add]

theorem index_place (readable : Readable fs (curData fs object)) (index : Indexes fs object sector) : ∃ p : InodePos, p.isData = false ∧
    blockAt fs.disk.view (curData fs object) p ≠ 0 ∧ blockAt fs.disk.view (curData fs object) p = sector := by
  have nonneg := readable.nonneg
  have limit := readable.limit
  have count := bytesToSectors_eq nonneg (by omega)
  cases index with
  | indirect below => exact ⟨.single .here, rfl, readable.mapped _ (by simp only [InodePos.first, TreePos.first]; omega), rfl⟩
  | doublyIndirect below => exact ⟨.double .here, rfl, readable.mapped _ (by simp only [InodePos.first, TreePos.first]; omega), rfl⟩
  | second entry below =>
    have present := readable.mapped (.double (.child entry .here)) (by simp only [InodePos.first, TreePos.first, capacity]; omega)
    exact ⟨.double (.child entry .here), rfl, present, (childEntry_present present).2⟩

theorem root_index (usable : Usable fs) (index : Indexes fs 1 sector) : ¬ DataSector fs.disk.view (curData fs 1) sector := by
  obtain ⟨p, inner, present, here⟩ := index_place usable.readable index
  rintro ⟨k, inside, same⟩
  rw [usable.distinct p (.data k) present (here.trans same), data_isData] at inner
  cases inner

theorem owns_claim (readable : Readable fs (curData fs object)) (owns : Owns fs object sector) :
    ∃ p, Filled fs (object, p) ∧ claim fs (object, p) = sector := by
  cases owns with
  | inode => exact ⟨none, filled_inode, rfl⟩
  | data found member =>
    rw [getInodeDataSectors_eq readable] at found
    cases found
    obtain ⟨i, inside, rfl⟩ := List.mem_map.mp member
    have nonneg := readable.nonneg
    have limit := readable.limit
    have count := bytesToSectors_eq nonneg (by omega)
    rw [List.mem_range] at inside
    have present := readable.mapped (.data i) (by rw [data_first (by omega)]; omega)
    exact ⟨some (.data i), filled_place.mpr present, congrArg (fun i => blockAt fs.disk.view (curData fs object) (.data i)) (Nat.zero_add i).symm⟩
  | index there =>
    obtain ⟨p, _, present, same⟩ := index_place readable there
    exact ⟨some p, filled_place.mpr present, same⟩

theorem running_owned (running : Running fs none) : Usable fs ∧ Owned fs := by
  have blocks := running.volume.objects.blocks
  have handles := blocks.handles
  have size := blocks.size
  have root : Live fs 1 := .inr (.inl rfl)
  obtain ⟨e, first, used, _⟩ := running.volume.root.parent
  refine ⟨⟨⟨handles.addrs, handles.sectors, handles.below, fun entry member _ => (handles.plain entry member).2.2, .inl running.session.1⟩, by omega,
    blocks.inRange (1, none) root filled_inode, blocks.readable root, blocks.distinct root, e, first, used⟩, ?_, ?_⟩
  · intro object object' sector here there owns owns'
    obtain ⟨p, filled, same⟩ := owns_claim (blocks.readable here) owns
    obtain ⟨p', filled', same'⟩ := owns_claim (blocks.readable there) owns'
    exact congrArg Prod.fst (blocks.apart (object, p) (object', p') here there filled filled' (same.trans same'.symm))
  · intro object sector here owns
    obtain ⟨p, filled, rfl⟩ := owns_claim (blocks.readable here) owns
    exact bitmapTest_eq.mpr (blocks.used (object, p) here filled)

end Owners

section Restoring

private theorem taken_toNat (usable : Usable fs) (member : start ∈ takenUp fs fs.freeMap.length) : (UInt32.ofNat start).toNat = start := by
  have below := (takenUp_spec member).1
  have size := usable.size
  exact UInt32.toNat_ofNat_of_lt' (Nat.lt_trans (show start < fs.disk.size by omega) fs.disk.size_lt)

variable (usable : Usable fs) (owned : Owned fs) (run : Recovering fs fs' (takenUp fs fs.freeMap.length) (addedAgain fs fs.freeMap.length))
include usable owned

private theorem root_marked (sector : Sector) (root : DataSector fs.disk.view (curData fs 1) sector) : bitmapTest fs.freeMap sector.toNat = true :=
  owned.marked 1 sector (.inr (.inl rfl)) (root_owns usable.readable root)

private theorem added_free (member : start ∈ addedAgain fs fs.freeMap.length) : ¬ Live fs (UInt32.ofNat start) ∧
    ¬ DataSector fs.disk.view (curData fs 1) (UInt32.ofNat start) := by
  have takes := (mem_addedAgain.mp member).1
  have free := (takenUp_spec takes).2.1
  have number := taken_toNat usable takes
  refine ⟨fun here => ?_, fun root => ?_⟩
  · have used := owned.marked _ _ here .inode
    rw [number, free] at used
    cases used
  · have used := root_marked usable owned _ root
    rw [number, free] at used
    cases used

include run

omit usable owned in
private theorem live_after (object : Sector) :
    Live fs' object ↔ Live fs object ∨ ∃ start ∈ addedAgain fs fs.freeMap.length, object = UInt32.ofNat start := by
  constructor
  · rintro (zero | one | ⟨name, named⟩)
    · exact .inl (.inl zero)
    · exact .inl (.inr (.inl one))
    · rcases (run.named name object).mp named with before | ⟨start, member, _, same⟩
      · exact .inl (.inr (.inr ⟨name, before⟩))
      · exact .inr ⟨start, member, same⟩
  · rintro ((zero | one | ⟨name, named⟩) | ⟨start, member, same⟩)
    · exact .inl zero
    · exact .inr (.inl one)
    · exact .inr (.inr ⟨name, (run.named name object).mpr (.inl named)⟩)
    · exact .inr (.inr ⟨recoveredName start, (run.named _ object).mpr (.inr ⟨start, member, rfl, same⟩)⟩)

private theorem owns_live (here : Live fs object) (sector : Sector) : Owns fs' object sector ↔ Owns fs object sector := by
  have rooted {sector : Sector} (root : DataSector fs.disk.view (curData fs 1) sector) (owns : Owns fs object sector) : object = 1 :=
    owned.once object 1 sector here (.inr (.inl rfl)) owns (root_owns usable.readable root)
  refine owns_congr ?_ run.touches.size (fun index there => run.touches.view fun root => ?_) sector
  · by_cases first : object = 1
    · rw [first]
      exact run.home
    · exact run.data object fun root => first (rooted root .inode)
  · obtain rfl := rooted root (.index there)
    exact root_index usable there root

private theorem owns_added (member : start ∈ addedAgain fs fs.freeMap.length)
    (apart : (∀ sector, Owns fs (UInt32.ofNat start) sector → ¬ DataSector fs.disk.view (curData fs 1) sector) ∨
      ∀ sector, Owns fs' (UInt32.ofNat start) sector → ¬ DataSector fs.disk.view (curData fs 1) sector) (sector : Sector) :
    Owns fs' (UInt32.ofNat start) sector ↔ Owns fs (UInt32.ofNat start) sector := by
  have data := run.data _ (added_free usable owned member).2
  have size := run.touches.size
  rcases apart with apart | apart
  · exact owns_congr data size (fun index there => run.touches.view (apart index (.index there))) sector
  · exact (owns_congr data.symm size.symm (fun index there => (run.touches.view (apart index (.index there))).symm) sector).symm

private theorem restored (whole : Restorable fs) : Restored fs fs' := by
  have owns {start : Nat} (member : start ∈ addedAgain fs fs.freeMap.length) :=
    owns_added usable owned run member (.inl fun sector there root => whole.alone start member sector there 1 (.inr (.inl rfl)) (root_owns usable.readable root))
  have before {object : Sector} (here : Live fs object) := owns_live usable owned run here
  have live := live_after run
  refine ⟨⟨fun object object' sector here there owns₁ owns₂ => ?_, fun object sector here owns₁ => (run.marked _).mpr ?_⟩,
    fun name sector named new => ?_⟩
  · rcases (live object).mp here with here | ⟨start, member, rfl⟩ <;> rcases (live object').mp there with there | ⟨other, member', rfl⟩
    · exact owned.once object object' sector here there ((before here sector).mp owns₁) ((before there sector).mp owns₂)
    · exact absurd ((before here sector).mp owns₁) (whole.alone other member' sector ((owns member' sector).mp owns₂) object here)
    · exact absurd ((before there sector).mp owns₂) (whole.alone start member sector ((owns member sector).mp owns₁) object' there)
    · rw [whole.apart start member other member' sector ((owns member sector).mp owns₁) ((owns member' sector).mp owns₂)]
  · rcases (live object).mp here with here | ⟨start, member, rfl⟩
    · exact .inl (owned.marked object sector here ((before here sector).mp owns₁))
    · exact whole.marked start member sector ((owns member sector).mp owns₁)
  · rcases (run.named name sector).mp named with old | ⟨start, member, _, rfl⟩
    · exact absurd old new
    · rw [run.touches.view (added_free usable owned member).2]
      exact whole.inodes start member

private theorem restorable (done : Restored fs fs') : Restorable fs := by
  have live := live_after run
  have before {object : Sector} (here : Live fs object) := owns_live usable owned run here
  have added {start : Nat} (member : start ∈ addedAgain fs fs.freeMap.length) : Live fs' (UInt32.ofNat start) :=
    (live _).mpr (.inr ⟨start, member, rfl⟩)
  have alone {start : Nat} (member : start ∈ addedAgain fs fs.freeMap.length) (sector : Sector) (owns : Owns fs' (UInt32.ofNat start) sector)
      (object : Sector) (here : Live fs object) : ¬ Owns fs object sector := fun mine => by
    have same := done.owned.once _ _ sector (added member) ((live object).mpr (.inl here)) owns ((before here sector).mpr mine)
    exact (added_free usable owned member).1 (same ▸ here)
  have owns {start : Nat} (member : start ∈ addedAgain fs fs.freeMap.length) :=
    owns_added usable owned run member (.inr fun sector there root => alone member sector there 1 (.inr (.inl rfl)) (root_owns usable.readable root))
  refine ⟨run.fits, fun start member => ?_, fun start member sector mine => alone member sector ((owns member sector).mpr mine),
    fun start member other member' sector mine theirs => ?_, fun start member sector mine => ?_⟩
  · have named := (run.named _ _).mpr (.inr ⟨start, member, rfl, rfl⟩)
    have new := (mem_addedAgain.mp member).2
    rw [← run.touches.view (added_free usable owned member).2]
    exact done.inodes _ _ named fun old => new (mem_names.mpr ⟨_, old⟩)
  · have same := done.owned.once _ _ sector (added member) (added member') ((owns member sector).mpr mine) ((owns member' sector).mpr theirs)
    have number := taken_toNat usable (mem_addedAgain.mp member).1
    rw [← number, same, taken_toNat usable (mem_addedAgain.mp member').1]
  · exact (run.marked _).mp (done.owned.marked _ sector (added member) ((owns member sector).mpr mine))

end Restoring

/-- `recover(0)` restores files whose sectors it marks, and no others. -/
theorem recover_restores (usable : Usable fs) (owned : Owned fs) (room : (addedAgain fs fs.freeMap.length).length ≤ unusedSlots fs) :
    (∃ files fs', recover 0 fs = some (files, fs') ∧ Restored fs fs') ↔ Restorable fs := by
  have runs := usable.recover (root_marked usable owned) room
  constructor
  · rintro ⟨files, fs', ran, done⟩
    exact restorable usable owned (runs.result ran).2 done
  · intro whole
    rcases runs with ⟨files, fs', ran, _, run⟩ | ⟨⟨start, member, overflow⟩, _⟩
    · exact ⟨files, fs', ran, restored usable owned run whole⟩
    · exact absurd (whole.fits start member) overflow

section Device

def oneSector (sector : Sector) (isDir : Bool) (length : Int) : InodeDisk :=
  ⟨Vector.ofFn fun index => if index.val = 0 then sector else 0, 0, 0, isDir.toUInt32, length, inodeMagic⟩

/-- A small device: the free map in sector 2, a root directory without files in sector 3, and in sector 4 what was left there. Sector 5 may be marked
without an owner. -/
def device (stray : Bool) (left : Block) : Array Block :=
  #[(oneSector 2 false 8).toBlock, (oneSector 3 true 72).toBlock, copyInto zeros 0 [if stray then 47 else 15],
    copyInto zeros 0 (DirEntry.bytes ⟨1, Vector.replicate 31 0, true⟩), left, zeros, zeros]

theorem device_size (stray : Bool) (left : Block) : (device stray left).size < 2 ^ 32 := by simp [device]

def mounted (stray : Bool) (left : Block) : FileSystem where
  disk := .mount (device stray left) (device_size stray left)
  freeMap := [true, true, true, true, false, stray]
  freeMapFile := some (fileOpen 0)
  openInodes := [(0, ⟨0, 1, false, 0, oneSector 2 false 8⟩)]
  dirs := []
  cwd := none
  fileTable := []
  nextAddr := 1
  panics := 0

variable {stray : Bool} {left : Block} {v : View} {isDir : Bool} {length : Int}

private theorem one_direct (index : Fin 123) : (oneSector sector isDir length).directBlocks.get index = if index.val = 0 then sector else 0 :=
  Vector.getElem_ofFn index.isLt

private theorem one_place {p : InodePos} (present : blockAt v (oneSector sector isDir length) p ≠ 0) : p = .direct 0 := by
  cases p with
  | direct index =>
    by_cases first : index.val = 0
    · rw [show index = 0 from Fin.ext first]
    · rw [blockAt, one_direct, if_neg first] at present
      exact absurd rfl present
  | single below => exact absurd (treeAt_zero below) present
  | double below => exact absurd (treeAt_zero below) present

private theorem one_block : blockAt v (oneSector sector isDir length) (.direct 0) = sector := by
  rw [blockAt, one_direct]
  rfl

private theorem one_readable (low : 0 ≤ length) (high : length ≤ 512) (nonzero : sector ≠ 0) (inside : sector.toNat < fs.disk.size) :
    Readable fs (oneSector sector isDir length) := by
  refine ⟨low, by change length ≤ _; omega, fun p present => ?_, fun p below => ?_⟩
  · obtain rfl := one_place present
    rw [one_block]
    exact inside
  · have zero : p.first = 0 := by
      change _ < length at below
      omega
    cases p with
    | direct index =>
      obtain rfl : index = 0 := Fin.ext zero
      rw [one_block]
      exact nonzero
    | single below => exact absurd zero (by simp [InodePos.first])
    | double below => exact absurd zero (by simp [InodePos.first])

private theorem one_byte (nonzero : sector ≠ 0) {k : Nat} (small : k < 512) :
    fileByte v (oneSector sector isDir length) k = byteAt (v sector) k := by
  have first : InodePos.data (k / 512) = .direct 0 := by
    rw [show k / 512 = 0 by omega]
    rfl
  rw [fileByte, first, one_block, if_neg nonzero, Nat.mod_eq_of_lt small]

private theorem one_count (low : 0 < length) (high : length ≤ 512) : bytesToSectors length = 1 := by
  have sectors := bytesToSectors_eq (show 0 ≤ length by omega) (by omega)
  omega

private theorem one_owns (data : curData fs object = oneSector sector isDir length) (low : 0 < length) (high : length ≤ 512)
    (nonzero : sector ≠ 0) (inside : sector.toNat < fs.disk.size) (owned : Sector) : Owns fs object owned ↔ owned = object ∨ owned = sector := by
  have count := one_count low high
  have whole : (oneSector sector isDir length).length = length := rfl
  have listed : getInodeDataSectors (curData fs object) fs = some (some [sector], fs) := by
    have first : sectorsFrom fs.disk.view (oneSector sector isDir length) 0 1 = [sector] := congrArg (fun block => [block]) one_block
    rw [data, getInodeDataSectors_eq (one_readable (by omega) high nonzero inside), whole, count, first]
  constructor
  · intro owns
    cases owns with
    | inode => exact .inl rfl
    | data listed' member =>
      rw [listed] at listed'
      cases listed'
      exact .inr (List.mem_singleton.mp member)
    | index there =>
      cases there <;> rename_i below <;> rw [data, whole, count] at below <;> omega
  · rintro (rfl | rfl)
    · exact .inode
    · exact .data listed List.mem_cons_self

theorem mounted_view (sector : Sector) : (mounted stray left).disk.view sector = (device stray left).getD sector.toNat zeros := by
  rw [mounted, Disk.mount_view]

private theorem mounted_inside (small : sector.toNat < 7) : sector.toNat < (mounted stray left).disk.size := small

private theorem map_data : curData (mounted stray left) 0 = oneSector 2 false 8 := rfl

private theorem root_data : curData (mounted stray left) 1 = oneSector 3 true 72 := by
  have closed : ∀ entry ∈ (mounted stray left).openInodes, entry.2.sector ≠ 1 := by simp [mounted]
  rw [curData_closed closed, mounted_view]
  exact InodeDisk.ofBlock_toBlock (by decide) (by decide)

private theorem left_data : curData (mounted stray left) 4 = .ofBlock left := by
  have closed : ∀ entry ∈ (mounted stray left).openInodes, entry.2.sector ≠ 4 := by simp [mounted]
  rw [curData_closed closed, mounted_view]
  rfl

private theorem one_range (nonzero : sector ≠ 0) {bytes : List UInt8} (held : v sector = copyInto zeros 0 bytes) {start count : Nat}
    (inside : start + count ≤ 512) (i : Nat) (below : i < count) :
    (fileRange v (oneSector sector isDir length) start count).getD i 0 = bytes.getD (start + i) 0 := by
  rw [fileRange_getD below, one_byte nonzero (by omega), held, byteAt_copyInto _ _ (by omega), Nat.sub_zero, byteAt_zeros]
  split
  next => rfl
  next past =>
    rw [List.getD_eq_getElem?_getD, List.getElem?_eq_none (by omega)]
    rfl

private theorem root_range {start : Nat} (inside : start + 36 ≤ 512) (i : Nat) (below : i < 36) :
    (fileRange (mounted stray left).disk.view (oneSector 3 true 72) start 36).getD i 0 =
      (DirEntry.bytes ⟨1, Vector.replicate 31 0, true⟩).getD (start + i) 0 :=
  one_range (by decide) (mounted_view 3) inside i below

private theorem root_slots : ∃ e, slots (mounted stray left) = [⟨1, Vector.replicate 31 0, true⟩, e] ∧ e.inUse = false := by
  refine ⟨slotAt (mounted stray left).disk.view (oneSector 3 true 72) 1, ?_, ?_⟩
  · have parent : slotAt (mounted stray left).disk.view (oneSector 3 true 72) 0 = ⟨1, Vector.replicate 31 0, true⟩ := by
      have bytes : fileRange (mounted stray left).disk.view (oneSector 3 true 72) (36 * 0) 36 = DirEntry.bytes ⟨1, Vector.replicate 31 0, true⟩ := by
        refine bytes_ext ((fileRange_length _ _).trans (DirEntry.bytes_length _).symm) fun i below => ?_
        rw [fileRange_length] at below
        rw [root_range (by decide) i below, Nat.mul_zero, Nat.zero_add]
      rw [slotAt, bytes, DirEntry.ofBytes_bytes]
    rw [slots, root_data, ← parent]
    rfl
  · have last : (fileRange (mounted stray left).disk.view (oneSector 3 true 72) (36 * 1) 36).getD 35 0 = 0 :=
      root_range (by decide) 35 (by decide)
    rw [slotAt, DirEntry.ofBytes, last]
    rfl

theorem mounted_init : filesysInit (device stray left) (device_size stray left) false = some (mounted stray left) := by
  let middle : FileSystem := { mounted stray left with freeMap := freeMapInit 7 }
  have low : ¬ (device stray left).size < 2 := by simp [device]
  have opening : inodeOpen freeMapSector (blankFileSystem (device stray left) (device_size stray left)) = some (0, { middle with freeMapFile := none }) := by
    have stored : InodeDisk.ofBlock ((blankFileSystem (device stray left) (device_size stray left)).disk.view 0) = oneSector 2 false 8 := by
      rw [blankFileSystem, Disk.mount_view]
      exact InodeDisk.ofBlock_toBlock (by decide) (by decide)
    have closed : ∀ entry ∈ (blankFileSystem (device stray left) (device_size stray left)).openInodes, entry.2.sector ≠ freeMapSector := nofun
    rw [inodeOpen_closed closed (@mounted_inside freeMapSector stray left (by decide)), readIn, show freeMapSector = 0 from rfl, stored]
    rfl
  have there : middle.inode? 0 = some ⟨0, 1, false, 0, oneSector 2 false 8⟩ := rfl
  let map : List UInt8 := [if stray then 47 else 15, 0, 0, 0, 0, 0, 0, 0]
  have bytes : fileRange middle.disk.view (oneSector 2 false 8) 0 8 = map := by
    refine bytes_ext (fileRange_length _ _) fun i below => ?_
    rw [fileRange_length] at below
    have first : ∀ i < 8, ([if stray then 47 else 15] : List UInt8).getD i 0 = map.getD i 0 := by cases stray <;> decide
    rw [one_range (by decide) (mounted_view 2) (by decide) i below, Nat.zero_add, first i below]
  have reading : bitmapRead (fileOpen 0) middle = some (true, mounted stray left) := by
    have readable : Readable middle (oneSector 2 false 8) := one_readable (by decide) (by decide) (by decide) (@mounted_inside 2 stray left (by decide))
    have size : bitmapFileSize (freeMapInit 7) = 8 := by decide
    have read : inodeReadAt (fileOpen 0).inode (bitmapFileSize middle.freeMap) 0 middle = some (map, middle) := by
      rw [show middle.freeMap = freeMapInit 7 from rfl, size, ← bytes]
      exact inodeReadAt_eq there readable 8 0
    have bits : bitmapOfBytes (freeMapInit 7).length map = (mounted stray left).freeMap := by
      change _ = [true, true, true, true, false, stray]
      cases stray <;> decide
    rw [bitmapRead, run_bind (show (get : M FileSystem) middle = some (middle, middle) from rfl), run_bind read,
      show middle.freeMap = freeMapInit 7 from rfl, size]
    change some (true, { middle with freeMap := bitmapOfBytes (freeMapInit 7).length map }) = _
    rw [bits]
  have mounting : freeMapOpen (blankFileSystem (device stray left) (device_size stray left)) = some (⟨⟩, mounted stray left) := by
    rw [freeMapOpen, run_bind opening]
    exact (run_bind (show (modify fun fs => { fs with freeMapFile := some (fileOpen 0) } : M PUnit) _ = some (⟨⟩, middle) from rfl) _).trans
      (run_bind reading _)
  rw [filesysInit, if_neg low]
  have done : (do
      freeMapOpen
      modify fun fs => { fs with fileTable := [] } : M PUnit) (blankFileSystem (device stray left) (device_size stray left)) = some (⟨⟩, mounted stray left) :=
    run_bind mounting _
  simp only [Bool.false_eq_true, if_false]
  exact congrArg (Option.bind · fun result => some result.2) done

private theorem mounted_named (name : CString) : ¬ Named (mounted stray left) name sector := by
  obtain ⟨free, entries, unused⟩ := @root_slots stray left
  rintro ⟨i, e, low, there, used, _⟩
  rw [entries] at there
  have short := (List.getElem?_eq_some_iff.mp there).1
  simp only [List.length_cons, List.length_nil] at short
  obtain rfl : i = 1 := by omega
  cases there
  rw [unused] at used
  cases used

private theorem mounted_owner (here : Live (mounted stray left) object) (owns : Owns (mounted stray left) object sector) :
    (object = 0 ∧ (sector = 0 ∨ sector = 2)) ∨ (object = 1 ∧ (sector = 1 ∨ sector = 3)) := by
  have first := one_owns (@map_data stray left) (by decide) (by decide) (by decide) (mounted_inside (by decide))
  have second := one_owns (@root_data stray left) (by decide) (by decide) (by decide) (mounted_inside (by decide))
  rcases here with rfl | rfl | ⟨name, named⟩
  · exact .inl ⟨rfl, (first sector).mp owns⟩
  · exact .inr ⟨rfl, (second sector).mp owns⟩
  · exact absurd named (mounted_named name)

theorem mounted_owned : Owned (mounted stray left) := by
  refine ⟨fun object object' sector here there owns owns' => ?_, fun object sector here owns => ?_⟩
  · have other := mounted_owner there owns'
    rcases mounted_owner here owns with ⟨rfl, rfl | rfl⟩ | ⟨rfl, rfl | rfl⟩ <;> exact Eq.symm (by simpa using other)
  · rcases mounted_owner here owns with ⟨rfl, rfl | rfl⟩ | ⟨rfl, rfl | rfl⟩ <;> rfl

private theorem ofWords_length (words : Vector UInt32 128) : (InodeDisk.ofWords words).length = toSigned (words.get 126) := by
  have last : words.get 126 = words[126] := rfl
  rw [InodeDisk.ofWords, last]

private theorem zeros_length : (InodeDisk.ofBlock zeros).length = 0 := by
  unfold InodeDisk.ofBlock zeros
  have zero : (Vector.replicate 128 (0 : UInt32)).get 126 = 0 := Vector.getElem_replicate (126 : Fin 128).isLt
  rw [toWords_zero (n := 128), ofWords_length, zero]
  decide

private theorem zeros_nothing (data : curData fs sector = .ofBlock zeros) : ¬ Recoverable (curData fs sector) sector := by
  rintro ⟨positive, _⟩
  rw [data, zeros_length] at positive
  exact absurd positive (by decide)


private theorem mounted_usable : Usable (mounted stray left) := by
  have root := @root_data stray left
  obtain ⟨free, entries, unused⟩ := @root_slots stray left
  refine ⟨⟨by simp [mounted], by simp [mounted], by simp [mounted], by simp [mounted], .inl rfl⟩, by change 6 ≤ 7; decide, by change 1 < 7; decide, ?_, ?_,
    ⟨_, by rw [entries]; rfl, rfl⟩⟩
  · rw [root]
    exact one_readable (by decide) (by decide) (by decide) (mounted_inside (by decide))
  · rw [root]
    intro p q present same
    have first : p = .direct 0 := one_place present
    have second : q = .direct 0 := one_place (same ▸ present)
    rw [first, second]

/-- What was left of a file of one sector. -/
def removed : Block := (oneSector 5 false 512).toBlock

private theorem removed_data : curData (mounted stray removed) 4 = oneSector 5 false 512 :=
  left_data.trans (InodeDisk.ofBlock_toBlock (by decide) (by decide))

private theorem takenUp_used {i : Nat} (used : bitmapTest fs.freeMap i = true) : takenUp fs (i + 1) = takenUp fs i := by
  rw [takenUp, if_neg fun takes => Bool.false_ne_true (takes.1.symm.trans used)]

private theorem mounted_taken : takenUp (mounted stray removed) (mounted stray removed).freeMap.length = [4] := by
  have used (i : Nat) (low : i < 4) : bitmapTest (mounted stray removed).freeMap i = true := by
    have all : ∀ i < 4, bitmapTest [true, true, true, true, false, stray] i = true := by cases stray <;> decide
    exact all i low
  have four : takenUp (mounted stray removed) 4 = [] := by
    rw [takenUp_used (used 3 (by decide)), takenUp_used (used 2 (by decide)), takenUp_used (used 1 (by decide)),
      takenUp_used (used 0 (by decide)), takenUp]
  have five : takenUp (mounted stray removed) 5 = [4] := by
    have looks : Recoverable (curData (mounted stray removed) (UInt32.ofNat 4)) (UInt32.ofNat 4) := by
      rw [show UInt32.ofNat 4 = 4 from rfl, removed_data]
      decide
    rw [takenUp, four, if_pos ⟨rfl, looks, by simp⟩, List.nil_append]
  change takenUp _ 6 = _
  cases stray with
  | true => rw [takenUp_used rfl, five]
  | false =>
    have closed : ∀ entry ∈ (mounted false removed).openInodes, entry.2.sector ≠ 5 := by simp [mounted]
    have blank : ¬ Recoverable (curData (mounted false removed) (UInt32.ofNat 5)) (UInt32.ofNat 5) :=
      zeros_nothing ((curData_closed closed).trans (congrArg _ (mounted_view 5)))
    rw [takenUp, if_neg fun takes => blank takes.2.1, five]

private theorem mounted_added : addedAgain (mounted stray removed) (mounted stray removed).freeMap.length = [4] := by
  have new : recoveredName 4 ∉ names (mounted stray removed) := fun there => by
    obtain ⟨sector, named⟩ := mem_names.mp there
    exact mounted_named _ named
  rw [addedAgain, mounted_taken, List.filter_cons, if_pos (decide_eq_true new), List.filter_nil]

private theorem mounted_room : (addedAgain (mounted stray removed) (mounted stray removed).freeMap.length).length ≤ unusedSlots (mounted stray removed) := by
  obtain ⟨free, entries, unused⟩ := @root_slots stray removed
  rw [mounted_added, unusedSlots, entries, List.countP_cons, List.countP_cons, unused]
  decide

private theorem removed_owns (sector : Sector) : Owns (mounted stray removed) 4 sector ↔ sector = 4 ∨ sector = 5 :=
  one_owns removed_data (by decide) (by decide) (by decide) (mounted_inside (by decide)) sector

private theorem removed_run {k : Nat} : InRun (mounted stray removed) 4 k ↔ k = 4 := by
  rw [InRun, show UInt32.ofNat 4 = 4 from rfl, removed_data]
  change 4 ≤ k ∧ k < 4 + (512 + 511) / 512 ↔ k = 4
  omega

private theorem mounted_run : ∃ fs', recover 0 (mounted stray removed) = some ([], fs') ∧ Recovering (mounted stray removed) fs' [4] [4] := by
  have usable : Usable (mounted stray removed) := mounted_usable
  have fits : FitsBuffers (mounted stray removed) 4 := by
    rw [FitsBuffers, show UInt32.ofNat 4 = 4 from rfl, removed_data]
    exact ⟨by decide, (by decide : 4 + (512 + 511) / 512 ≤ 8 * byteCnt 6)⟩
  have runs := usable.recover (root_marked usable mounted_owned) mounted_room
  rw [mounted_taken, mounted_added] at runs
  obtain ⟨files, fs', ran, rfl, run⟩ := runs.resolve_right fun stopped => by
    obtain ⟨start, member, overflow⟩ := stopped.1
    exact overflow (List.mem_singleton.mp member ▸ fits)
  exact ⟨fs', ran, run⟩

/-- The file has its name again, but its data sector is still free. -/
theorem recover_loses_sector : ∃ fs fs', filesysInit (device false removed) (device_size false removed) false = some fs ∧ Owned fs ∧
    recover 0 fs = some ([], fs') ∧ Named fs' (recoveredName 4) 4 ∧ Owns fs' 4 5 ∧ bitmapTest fs'.freeMap 5 = false ∧ ¬ Restored fs fs' := by
  obtain ⟨fs', ran, run⟩ := @mounted_run false
  have named : Named fs' (recoveredName 4) 4 := (run.named _ _).mpr (.inr ⟨4, List.mem_cons_self, rfl, rfl⟩)
  have added : 4 ∈ addedAgain (mounted false removed) (mounted false removed).freeMap.length := by
    rw [mounted_added]
    exact List.mem_cons_self
  have aside := (added_free mounted_usable mounted_owned added).2
  have owns : Owns fs' 4 5 := by
    have inside : (5 : Sector).toNat < fs'.disk.size := by
      rw [run.touches.size]
      exact mounted_inside (by decide)
    exact (one_owns ((run.data 4 aside).trans removed_data) (by decide) (by decide) (by decide) inside 5).mpr (.inr rfl)
  have free : bitmapTest fs'.freeMap 5 = false := by
    refine Bool.eq_false_iff.mpr fun marked => ?_
    rcases (run.marked 5).mp marked with used | ⟨_, start, member, run⟩
    · cases used
    · obtain rfl := List.mem_singleton.mp member
      exact absurd (removed_run.mp run) (by decide)
  refine ⟨mounted false removed, fs', mounted_init, mounted_owned, ran, named, owns, free, fun restored => ?_⟩
  have marked := restored.owned.marked 4 5 named.live owns
  exact Bool.false_ne_true (free.symm.trans marked)

/-- Where the data sector was marked before, the file is restored. -/
theorem recover_restores_stray : ∃ fs fs', filesysInit (device true removed) (device_size true removed) false = some fs ∧
    recover 0 fs = some ([], fs') ∧ Named fs' (recoveredName 4) 4 ∧ Restored fs fs' := by
  obtain ⟨fs', ran, run⟩ := @mounted_run true
  have named : Named fs' (recoveredName 4) 4 := (run.named _ _).mpr (.inr ⟨4, List.mem_cons_self, rfl, rfl⟩)
  have whole : Restorable (mounted true removed) := by
    refine ⟨?_, ?_, ?_, ?_, ?_⟩ <;> simp only [mounted_taken, mounted_added, List.forall_mem_singleton]
    · exact run.fits 4 List.mem_cons_self
    · have stored : InodeDisk.ofBlock ((mounted true removed).disk.view 4) = oneSector 5 false 512 := by
        rw [mounted_view]
        exact InodeDisk.ofBlock_toBlock (by decide) (by decide)
      exact congrArg InodeDisk.magic stored
    · intro sector mine object here theirs
      rcases (removed_owns sector).mp mine with rfl | rfl <;> exact absurd (mounted_owner here theirs) (by simp)
    · exact fun _ _ _ => trivial
    · intro sector mine
      rcases (removed_owns sector).mp mine with rfl | rfl
      · exact .inr ⟨by decide, 4, List.mem_cons_self, removed_run.mpr rfl⟩
      · exact .inl rfl
  obtain ⟨files, after, ran', restored⟩ := (recover_restores mounted_usable mounted_owned mounted_room).mpr whole
  cases ran.symm.trans ran'
  exact ⟨mounted true removed, fs', mounted_init, ran, named, restored⟩

end Device

end Comp310.Proofs.RecoveredFiles
