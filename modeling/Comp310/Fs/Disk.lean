import Comp310.Fs.Cache

/-! What the cache stands for: one flat array of sectors. The clock algorithm
decides when sectors move, never what a read of one returns. -/

namespace Comp310.Fs
namespace Storage

/-- What the device itself holds, behind the cache. -/
def onDevice (s : Storage) (sector : Sector) : Block := s.device.getD sector.toNat zeros

/-- The cache and the device together stand for the flat array `content`. No
sector is cached twice, and the device is stale only under a dirty entry. -/
structure Represents (s : Storage) (content : Sector → Block) : Prop where
  bounded : s.device.size < 2 ^ 32
  inRange : ∀ slot, (s.entry slot).occupied → (s.entry slot).diskSector.toNat < s.device.size
  unique : ∀ first second, (s.entry first).occupied → (s.entry second).occupied →
    (s.entry first).diskSector = (s.entry second).diskSector → first = second
  buffer : ∀ slot, (s.entry slot).occupied → (s.entry slot).buffer = content (s.entry slot).diskSector
  device : ∀ sector : Sector,
    (∀ slot, (s.entry slot).occupied → (s.entry slot).diskSector = sector → (s.entry slot).dirty = false) →
    s.onDevice sector = content sector

/-- The contents of a sector as the next `buffer_cache_read` would return them. -/
def view (s : Storage) (sector : Sector) : Block :=
  match s.bufferCacheLookup sector with
  | some slot => (s.entry slot).buffer
  | none => s.onDevice sector

def Uncached (s : Storage) (sector : Sector) : Prop :=
  ∀ slot, (s.entry slot).occupied → (s.entry slot).diskSector ≠ sector

variable {s s' : Storage} {content : Sector → Block} {sector : Sector} {slot : Fin 64}

theorem lookup_some (found : s.bufferCacheLookup sector = some slot) :
    (s.entry slot).occupied ∧ (s.entry slot).diskSector = sector := by
  simpa using List.find?_some found

theorem lookup_none (missing : s.bufferCacheLookup sector = none) : s.Uncached sector := by
  intro slot occupied same
  have differs := List.find?_eq_none.mp missing slot (List.mem_finRange slot)
  exact differs (by simp [occupied, same])

theorem Represents.view_eq (represents : s.Represents content) : s.view = content := by
  funext sector
  unfold view
  cases found : s.bufferCacheLookup sector with
  | none => exact represents.device sector fun slot held same => absurd same (lookup_none found slot held)
  | some slot =>
    obtain ⟨held, rfl⟩ := lookup_some found
    exact represents.buffer slot held

theorem onDevice_modifyEntry (slot : Fin 64) (change : CacheEntry → CacheEntry) :
    (s.modifyEntry slot change).onDevice sector = s.onDevice sector := rfl

theorem Represents.setAccess (represents : s.Represents content) (slot : Fin 64) (access : Bool) :
    (s.modifyEntry slot fun entry => { entry with access }).Represents content := by
  obtain ⟨bounded, inRange, unique, buffer, device⟩ := represents
  constructor <;> simp only [entry_modifyEntry, modifyEntry_device, onDevice_modifyEntry] <;> grind -ext

theorem Represents.setClock (represents : s.Represents content) (clock : Fin 64) :
    ({ s with clock } : Storage).Represents content :=
  ⟨represents.bounded, represents.inRange, represents.unique, represents.buffer, represents.device⟩

theorem onDevice_blockWrite {s s' : Storage} {buffer : Block} (wrote : s.blockWrite sector buffer = some s')
    (other : Sector) : s'.onDevice other = if sector = other then buffer else s.onDevice other := by
  unfold blockWrite at wrote
  split at wrote
  next inside =>
    cases wrote
    simp only [onDevice, Array.getD_eq_getD_getElem?, Array.getElem?_setIfInBounds, UInt32.toNat_inj]
    split
    · simp
    · rfl
  next => cases wrote

theorem Represents.flush (represents : s.Represents content) (occupied : (s.entry slot).occupied) :
    ∃ s', s.bufferCacheFlush slot = some s' ∧ s'.Represents content ∧ s'.clock = s.clock ∧
      s'.written = s.written ∧ s'.device.size = s.device.size ∧
      (s'.entry slot).dirty = false ∧
      ∀ other, (s'.entry other).occupied = (s.entry other).occupied ∧
        (s'.entry other).diskSector = (s.entry other).diskSector ∧
        ((s.entry other).dirty = false → (s'.entry other).dirty = false) := by
  have inside := represents.inRange slot occupied
  cases dirty : (s.entry slot).dirty with
  | false => exact ⟨s, by simp [bufferCacheFlush, dirty], represents, rfl, rfl, rfl, dirty, fun _ => ⟨rfl, rfl, id⟩⟩
  | true =>
    obtain ⟨middle, wrote⟩ : ∃ middle, s.blockWrite (s.entry slot).diskSector (s.entry slot).buffer = some middle :=
      ⟨_, if_pos inside⟩
    have stored := onDevice_blockWrite wrote
    obtain ⟨size, entries, clock, written⟩ : middle.device.size = s.device.size ∧
        (∀ other, middle.entry other = s.entry other) ∧ middle.clock = s.clock ∧ middle.written = s.written := by
      simp only [blockWrite, inside, if_true, Option.some.injEq] at wrote
      subst wrote
      exact ⟨Array.size_setIfInBounds, fun _ => rfl, rfl, rfl⟩
    refine ⟨middle.modifyEntry slot fun entry => { entry with dirty := false },
      by simp [bufferCacheFlush, dirty, wrote], ?_, clock, written, size, ?_, ?_⟩
    · obtain ⟨bounded, inRange, unique, buffer, device⟩ := represents
      constructor <;> simp only [entry_modifyEntry, modifyEntry_device, onDevice_modifyEntry] <;> grind -ext
    · grind [entry_modifyEntry]
    · grind [entry_modifyEntry]

theorem Represents.forget (represents : s.Represents content) (clean : (s.entry slot).dirty = false) :
    (s.modifyEntry slot fun entry => { entry with occupied := false }).Represents content := by
  obtain ⟨bounded, inRange, unique, buffer, device⟩ := represents
  constructor <;> simp only [entry_modifyEntry, modifyEntry_device, onDevice_modifyEntry] <;> grind -ext

theorem Represents.fill (represents : s.Represents content) (empty : (s.entry slot).occupied = false)
    (missing : s.Uncached sector) (inside : sector.toNat < s.device.size) :
    (s.modifyEntry slot fun entry =>
      { entry with occupied := true, diskSector := sector, dirty := false, buffer := s.onDevice sector }).Represents
        content := by
  obtain ⟨bounded, inRange, unique, buffer, device⟩ := represents
  have fetched := device sector fun slot held same => absurd same (missing slot held)
  unfold Uncached at missing
  constructor <;> simp only [entry_modifyEntry, modifyEntry_device, onDevice_modifyEntry] <;> grind -ext

theorem Represents.overwrite (represents : s.Represents content) (occupied : (s.entry slot).occupied)
    (source : Block) :
    (s.modifyEntry slot fun entry => { entry with access := true, dirty := true, buffer := source }).Represents
      (fun sector => if sector = (s.entry slot).diskSector then source else content sector) := by
  obtain ⟨bounded, inRange, unique, buffer, device⟩ := represents
  constructor <;> simp only [entry_modifyEntry, modifyEntry_device, onDevice_modifyEntry] <;> grind -ext

/-- Same reader's view, device size and history: what the search for a slot keeps. -/
structure Keeps (s s' : Storage) (content : Sector → Block) : Prop where
  represents : s'.Represents content
  size : s'.device.size = s.device.size
  written : s'.written = s.written

theorem Represents.keeps (represents : s.Represents content) : Keeps s s content := ⟨represents, rfl, rfl⟩

theorem Keeps.trans {middle : Storage} (first : Keeps s middle content) (second : Keeps middle s' content) :
    Keeps s s' content :=
  ⟨second.represents, second.size.trans first.size, second.written.trans first.written⟩

/-- The slot `distance` places behind the clock hand. -/
def behind (s : Storage) (distance : Nat) : Fin 64 :=
  ⟨(s.clock.val + 64 - distance) % 64, Nat.mod_lt _ (by decide)⟩

/-- Every entry passed over loses its reference bit, so the hand stops after one
full circle at the latest: at the entry it started from. -/
theorem clockLoop_runs (passed fuel : Nat) (s : Storage) (represents : s.Represents content)
    (bound : passed ≤ 64) (enough : 64 < passed + fuel)
    (cleared : ∀ distance, 1 ≤ distance → distance ≤ passed → (s.entry (s.behind distance)).access = false) :
    ∃ s', clockLoop fuel s = some s' ∧ Keeps s s' content ∧ ∀ slot,
      (s'.entry slot).occupied = (s.entry slot).occupied ∧
        (s'.entry slot).diskSector = (s.entry slot).diskSector := by
  induction fuel generalizing passed s with
  | zero => omega
  | succ fuel ih =>
    rw [clockLoop]
    split
    next => exact ⟨s, rfl, represents.keeps, fun _ => ⟨rfl, rfl⟩⟩
    next occupied =>
      split
      next accessed =>
        have short : passed < 64 := by
          rcases Nat.lt_or_ge passed 64 with short | full
          · exact short
          · have here : s.behind 64 = s.clock := Fin.ext (by simp [behind, Nat.mod_eq_of_lt s.clock.isLt])
            have := cleared 64 (by decide) full
            rw [here, accessed] at this
            cases this
        let unmark (entry : CacheEntry) : CacheEntry := { entry with access := false }
        let next : Storage := { s.modifyEntry s.clock unmark with clock := s.clock + 1 }
        have represents' : next.Represents content := (represents.setAccess s.clock false).setClock _
        have entries (slot : Fin 64) : next.entry slot =
            if s.clock = slot then unmark (s.entry s.clock) else s.entry slot :=
          entry_modifyEntry s s.clock slot unmark
        obtain ⟨s', ran, kept, same⟩ := ih (passed + 1) next represents' (by omega) (by omega) (by
          intro distance low high
          have place : next.behind distance = s.behind (distance - 1) := by
            apply Fin.ext
            have here := s.clock.isLt
            have moved : (s.clock + 1).val = (s.clock.val + 1) % 64 := Fin.val_add _ _
            simp only [behind, next, moved]
            omega
          rw [place, entries]
          split
          next => rfl
          next elsewhere =>
            apply cleared (distance - 1) _ (by omega)
            rcases Nat.eq_or_lt_of_le low with one | more
            · exact absurd (Fin.ext (by simp [behind, ← one, Nat.mod_eq_of_lt s.clock.isLt])) elsewhere
            · omega)
        refine ⟨s', ran, Keeps.trans ⟨represents', rfl, rfl⟩ kept, fun slot => ?_⟩
        rw [(same slot).1, (same slot).2, entries]
        split
        next here => subst here; exact ⟨rfl, rfl⟩
        next => exact ⟨rfl, rfl⟩
      next => exact ⟨s, rfl, represents.keeps, fun _ => ⟨rfl, rfl⟩⟩

/-- Eviction always finds a slot, and it is free when it is handed out. -/
theorem Represents.evict (represents : s.Represents content) (missing : s.Uncached sector) :
    ∃ slot s', s.bufferCacheEvict = some (slot, s') ∧ Keeps s s' content ∧
      (s'.entry slot).occupied = false ∧ s'.Uncached sector := by
  obtain ⟨stopped, ran, kept, same⟩ := clockLoop_runs 0 65 s represents (by decide) (by decide) (by omega)
  have missing' : stopped.Uncached sector := by
    intro slot held
    rw [(same slot).2]
    exact missing slot ((same slot).1 ▸ held)
  cases free : (stopped.entry stopped.clock).occupied with
  | false => exact ⟨stopped.clock, stopped, by simp [bufferCacheEvict, ran, free], kept, free, missing'⟩
  | true =>
    obtain ⟨flushed, ran', represents', clock, written, size, clean, entries⟩ := kept.represents.flush free
    refine ⟨stopped.clock, flushed.modifyEntry stopped.clock fun entry => { entry with occupied := false },
      by simp [bufferCacheEvict, ran, free, ran', clock], kept.trans ⟨represents'.forget clean, size, written⟩, ?_, ?_⟩
    · rw [entry_modifyEntry, if_pos rfl]
    · intro slot held
      rw [entry_modifyEntry] at held ⊢
      split at held
      next => cases held
      next elsewhere =>
        rw [if_neg elsewhere, (entries slot).2.1]
        exact missing' slot ((entries slot).1 ▸ held)

theorem Represents.fetch (represents : s.Represents content) (inside : sector.toNat < s.device.size) :
    ∃ slot s', s.bufferCacheFetch sector = some (slot, s') ∧ Keeps s s' content ∧
      (s'.entry slot).occupied ∧ (s'.entry slot).diskSector = sector := by
  unfold bufferCacheFetch
  cases found : s.bufferCacheLookup sector with
  | some slot => exact ⟨slot, s, rfl, represents.keeps, lookup_some found⟩
  | none =>
    obtain ⟨slot, evicted, ran, kept, free, missing⟩ := represents.evict (lookup_none found)
    have inside' : sector.toNat < evicted.device.size := kept.size ▸ inside
    have read : evicted.blockRead sector = some (evicted.onDevice sector) := by
      simp [blockRead, onDevice, Array.getD_eq_getD_getElem?, Array.getElem?_eq_getElem inside']
    refine ⟨slot, _, by simp only [ran, read, Option.bind_eq_bind, Option.bind_some],
      kept.trans ⟨kept.represents.fill free missing inside', rfl, rfl⟩, ?_, ?_⟩
    · rw [entry_modifyEntry, if_pos rfl]
    · rw [entry_modifyEntry, if_pos rfl]

theorem Represents.read (represents : s.Represents content) (inside : sector.toNat < s.device.size) :
    ∃ s', s.bufferCacheRead sector = some (content sector, s') ∧ Keeps s s' content := by
  obtain ⟨slot, fetched, ran, kept, held, rfl⟩ := represents.fetch inside
  have buffer := kept.represents.buffer slot held
  exact ⟨_, by simp only [bufferCacheRead, ran, Option.bind_eq_bind, Option.bind_some, buffer],
    kept.trans ⟨kept.represents.setAccess slot true, rfl, rfl⟩⟩

theorem Represents.write (represents : s.Represents content) (inside : sector.toNat < s.device.size)
    (source : Block) :
    ∃ s', s.bufferCacheWrite sector source = some s' ∧
      s'.Represents (fun other => if other = sector then source else content other) ∧
      s'.device.size = s.device.size ∧ s'.written = sector :: s.written := by
  obtain ⟨slot, fetched, ran, kept, held, rfl⟩ := represents.fetch inside
  have wrote := kept.represents.overwrite held source
  let s' := fetched.modifyEntry slot fun entry => { entry with access := true, dirty := true, buffer := source }
  refine ⟨{ s' with written := (fetched.entry slot).diskSector :: s'.written },
    by simp only [bufferCacheWrite, ran, Option.bind_eq_bind, Option.bind_some, s'], ?_, kept.size, ?_⟩
  · exact ⟨wrote.bounded, wrote.inRange, wrote.unique, wrote.buffer, wrote.device⟩
  · exact congrArg _ kept.written

/-- Past the end of the device there is nothing to fetch: the access panics. -/
theorem Represents.fetch_outside (represents : s.Represents content) (outside : s.device.size ≤ sector.toNat) :
    s.bufferCacheFetch sector = none := by
  unfold bufferCacheFetch
  cases found : s.bufferCacheLookup sector with
  | some slot =>
    obtain ⟨held, rfl⟩ := lookup_some found
    exact absurd (represents.inRange slot held) (Nat.not_lt.mpr outside)
  | none =>
    obtain ⟨slot, evicted, ran, kept, _, _⟩ := represents.evict (lookup_none found)
    have read : evicted.blockRead sector = none := by
      simpa [blockRead, Array.getElem?_eq_none_iff, kept.size] using outside
    simp only [ran, read, Option.bind_eq_bind, Option.bind_some, Option.bind_none]

theorem Represents.close (represents : s.Represents content) :
    ∃ s', s.bufferCacheClose = some s' ∧ Keeps s s' content ∧ ∀ sector, s'.onDevice sector = content sector := by
  suffices flushed : ∀ (slots : List (Fin 64)) (s : Storage), s.Represents content →
      ∃ s', slots.foldlM flushOccupied s = some s' ∧ Keeps s s' content ∧
        (∀ slot, (s'.entry slot).occupied → (s.entry slot).occupied) ∧
        (∀ slot, (s.entry slot).dirty = false → (s'.entry slot).dirty = false) ∧
        ∀ slot ∈ slots, (s'.entry slot).occupied → (s'.entry slot).dirty = false by
    obtain ⟨s', ran, kept, _, _, clean⟩ := flushed (List.finRange 64) s represents
    exact ⟨s', ran, kept, fun sector =>
      kept.represents.device sector fun slot held _ => clean slot (List.mem_finRange slot) held⟩
  intro slots
  induction slots with
  | nil => exact fun s represents => ⟨s, rfl, represents.keeps, fun _ => id, fun _ => id, by simp⟩
  | cons slot rest ih =>
    intro s represents
    obtain ⟨middle, ran, kept, occupied, stays, clean⟩ : ∃ middle, s.flushOccupied slot = some middle ∧
        Keeps s middle content ∧ (∀ other, (middle.entry other).occupied → (s.entry other).occupied) ∧
        (∀ other, (s.entry other).dirty = false → (middle.entry other).dirty = false) ∧
        ((middle.entry slot).occupied → (middle.entry slot).dirty = false) := by
      unfold flushOccupied
      split
      next held =>
        obtain ⟨middle, ran, represents', _, written, size, clean, entries⟩ := represents.flush held
        exact ⟨middle, ran, ⟨represents', size, written⟩, fun other held => (entries other).1 ▸ held,
          fun other => (entries other).2.2, fun _ => clean⟩
      next free => exact ⟨s, rfl, represents.keeps, fun _ => id, fun _ => id, fun held => absurd held free⟩
    obtain ⟨s', ran', kept', occupied', stays', clean'⟩ := ih middle kept.represents
    refine ⟨s', by simp [ran, ran'], kept.trans kept', fun other held => occupied other (occupied' other held),
      fun other held => stays' other (stays other held), ?_⟩
    intro other member held
    rcases List.mem_cons.mp member with rfl | member
    · exact stays' other (clean (occupied' other held))
    · exact clean' other member held

theorem init_represents (bounded : s.device.size < 2 ^ 32) : s.bufferCacheInit.Represents s.onDevice := by
  have free (slot : Fin 64) : (s.bufferCacheInit.entry slot).occupied = false := by
    simp [bufferCacheInit, entry]
  refine ⟨bounded, ?_, ?_, ?_, fun _ _ => rfl⟩ <;> simp [free]

end Storage

/-- A device with its cache, in a state the cache operations can reach. -/
structure Coherent where
  storage : Storage
  represents : storage.Represents storage.view

private theorem reached {s : Storage} {content : Sector → Block} (represents : s.Represents content) :
    s.Represents s.view := represents.view_eq.symm ▸ represents

namespace Coherent

/-- What the callers of the cache can tell of it. -/
def observe (c : Coherent) : (Sector → Block) × Nat × List Sector :=
  (c.storage.view, c.storage.device.size, c.storage.written)

private theorem read_coherent {c : Coherent} {sector : Sector} {block : Block} {after : Storage}
    (ran : c.storage.bufferCacheRead sector = some (block, after)) : after.Represents after.view := by
  rcases Nat.lt_or_ge sector.toNat c.storage.device.size with inside | outside
  · obtain ⟨s', ran', kept⟩ := c.represents.read inside
    cases ran.symm.trans ran'
    exact reached kept.represents
  · simp [Storage.bufferCacheRead, c.represents.fetch_outside outside] at ran

private theorem write_coherent {c : Coherent} {sector : Sector} {source : Block} {after : Storage}
    (ran : c.storage.bufferCacheWrite sector source = some after) : after.Represents after.view := by
  rcases Nat.lt_or_ge sector.toNat c.storage.device.size with inside | outside
  · obtain ⟨s', ran', represents, _⟩ := c.represents.write inside source
    cases ran.symm.trans ran'
    exact reached represents
  · simp [Storage.bufferCacheWrite, c.represents.fetch_outside outside] at ran

def read (c : Coherent) (sector : Sector) : Option (Block × Coherent) :=
  match ran : c.storage.bufferCacheRead sector with
  | some (block, after) => some (block, ⟨after, read_coherent ran⟩)
  | none => none

def write (c : Coherent) (sector : Sector) (source : Block) : Option Coherent :=
  match ran : c.storage.bufferCacheWrite sector source with
  | some after => some ⟨after, write_coherent ran⟩
  | none => none

/-- What `buffer_cache_close` leaves on the device. -/
def close (c : Coherent) : Option (Array Block) := c.storage.bufferCacheClose.map (·.device)

variable (c : Coherent) {sector : Sector}

theorem read_inside (inside : sector.toNat < c.storage.device.size) :
    ∃ c', c.read sector = some (c.storage.view sector, c') ∧ c'.observe = c.observe := by
  obtain ⟨after, ran, kept⟩ := c.represents.read inside
  refine ⟨⟨after, read_coherent ran⟩, ?_, ?_⟩
  · unfold read
    split
    next block after' ran' => cases ran.symm.trans ran'; rfl
    next ran' => cases ran.symm.trans ran'
  · simp only [observe, kept.represents.view_eq, kept.size, kept.written]

theorem read_outside (outside : c.storage.device.size ≤ sector.toNat) : c.read sector = none := by
  have fails : c.storage.bufferCacheRead sector = none := by
    simp [Storage.bufferCacheRead, c.represents.fetch_outside outside]
  unfold read
  split
  next ran => cases fails.symm.trans ran
  next => rfl

theorem write_inside (inside : sector.toNat < c.storage.device.size) (source : Block) :
    ∃ c', c.write sector source = some c' ∧ c'.observe =
      (fun other => if other = sector then source else c.storage.view other, c.storage.device.size,
        sector :: c.storage.written) := by
  obtain ⟨after, ran, represents, size, written⟩ := c.represents.write inside source
  refine ⟨⟨after, write_coherent ran⟩, ?_, ?_⟩
  · unfold write
    split
    next after' ran' => cases ran.symm.trans ran'; rfl
    next ran' => cases ran.symm.trans ran'
  · simp only [observe, represents.view_eq, size, written]

theorem write_outside (outside : c.storage.device.size ≤ sector.toNat) (source : Block) :
    c.write sector source = none := by
  have fails : c.storage.bufferCacheWrite sector source = none := by
    simp [Storage.bufferCacheWrite, c.represents.fetch_outside outside]
  unfold write
  split
  next ran => cases fails.symm.trans ran
  next => rfl

theorem close_eq : c.close = some (Array.ofFn fun index : Fin c.storage.device.size =>
    c.storage.view (UInt32.ofNat index)) := by
  obtain ⟨after, ran, kept, device⟩ := c.represents.close
  rw [close, ran, Option.map_some]
  congr 1
  apply Array.ext
  · simpa using kept.size
  · intro index inside _
    have small : index < 4294967296 := Nat.lt_trans inside kept.represents.bounded
    have stored := device (UInt32.ofNat index)
    rw [Storage.onDevice, UInt32.toNat_ofNat_of_lt' small, Array.getD_eq_getD_getElem?,
      Array.getElem?_eq_getElem inside] at stored
    simpa using stored

end Coherent

/-- Two caches that no caller can tell apart are the same disk: which sectors
are cached, and where, is not part of it. -/
instance indistinguishable : Setoid Coherent where
  r first second := first.observe = second.observe
  iseqv := ⟨fun _ => rfl, Eq.symm, Eq.trans⟩

def Disk := Quotient indistinguishable

namespace Disk

private theorem same {first second : Coherent} (alike : first ≈ second) :
    first.storage.view = second.storage.view ∧ first.storage.device.size = second.storage.device.size ∧
      first.storage.written = second.storage.written := by
  have observed : first.observe = second.observe := alike
  simpa only [Coherent.observe, Prod.mk.injEq] using observed

def ofCoherent (c : Coherent) : Disk := Quotient.mk _ c

def observe (d : Disk) : (Sector → Block) × Nat × List Sector :=
  Quotient.lift Coherent.observe (fun _ _ alike => alike) d

def view (d : Disk) : Sector → Block := d.observe.1

def size (d : Disk) : Nat := d.observe.2.1

/-- The sectors written so far, the latest first. -/
def written (d : Disk) : List Sector := d.observe.2.2

theorem ext {first second : Disk} (view : first.view = second.view) (size : first.size = second.size)
    (written : first.written = second.written) : first = second := by
  induction first using Quotient.ind
  induction second using Quotient.ind
  exact Quotient.sound (Prod.ext view (Prod.ext size written))

def read (d : Disk) (sector : Sector) : Option (Block × Disk) :=
  Quotient.lift (fun c => (c.read sector).map fun (block, c) => (block, ofCoherent c)) (by
    intro first second alike
    obtain ⟨view, size, written⟩ := same alike
    rcases Nat.lt_or_ge sector.toNat first.storage.device.size with inside | outside
    · obtain ⟨first', ran, observed⟩ := first.read_inside inside
      obtain ⟨second', ran', observed'⟩ := second.read_inside (size ▸ inside)
      have alike' : first' ≈ second' := observed.trans (Eq.trans alike observed'.symm)
      simp only [ran, ran', Option.map_some, view, ofCoherent, Quotient.sound alike']
    · simp only [first.read_outside outside, second.read_outside (size ▸ outside)]) d

def write (d : Disk) (sector : Sector) (source : Block) : Option Disk :=
  Quotient.lift (fun c => (c.write sector source).map ofCoherent) (by
    intro first second alike
    obtain ⟨view, size, written⟩ := same alike
    rcases Nat.lt_or_ge sector.toNat first.storage.device.size with inside | outside
    · obtain ⟨first', ran, observed⟩ := first.write_inside inside source
      obtain ⟨second', ran', observed'⟩ := second.write_inside (size ▸ inside) source
      have alike' : first' ≈ second' := by
        refine observed.trans (Eq.trans ?_ observed'.symm)
        simp only [view, size, written]
      simp only [ran, ran', Option.map_some, ofCoherent, Quotient.sound alike']
    · simp only [first.write_outside outside, second.write_outside (size ▸ outside)]) d

def close (d : Disk) : Option (Array Block) :=
  Quotient.lift Coherent.close (by
    intro first second alike
    obtain ⟨view, size, written⟩ := same alike
    rw [first.close_eq, second.close_eq, view, size]) d

/-- The device as a process finds it, under caches that `buffer_cache_init` has emptied. -/
def mount (device : Array Block) (bounded : device.size < 2 ^ 32) : Disk :=
  ofCoherent ⟨Storage.bufferCacheInit ⟨device, Vector.replicate 64 ⟨false, 0, zeros, false, false⟩, 0, []⟩,
    reached (Storage.init_represents bounded)⟩

variable (d : Disk) {sector : Sector}

theorem read_inside (inside : sector.toNat < d.size) : d.read sector = some (d.view sector, d) := by
  induction d using Quotient.ind
  next c =>
    obtain ⟨c', ran, observed⟩ := c.read_inside inside
    have alike : ofCoherent c' = ofCoherent c := Quotient.sound observed
    change (c.read sector).map (fun (block, c) => (block, ofCoherent c)) = some (c.storage.view sector, ofCoherent c)
    rw [ran, Option.map_some, ← alike]

theorem read_outside (outside : d.size ≤ sector.toNat) : d.read sector = none := by
  induction d using Quotient.ind
  next c =>
    change (c.read sector).map (fun (block, c) => (block, ofCoherent c)) = none
    rw [c.read_outside outside, Option.map_none]

theorem write_inside (inside : sector.toNat < d.size) (source : Block) :
    ∃ d', d.write sector source = some d' ∧ d'.view = (fun other => if other = sector then source else d.view other) ∧
      d'.size = d.size ∧ d'.written = sector :: d.written := by
  induction d using Quotient.ind
  next c =>
    obtain ⟨c', ran, observed⟩ := c.write_inside inside source
    refine ⟨ofCoherent c', ?_, congrArg (·.1) observed, congrArg (·.2.1) observed, congrArg (·.2.2) observed⟩
    change (c.write sector source).map ofCoherent = _
    rw [ran, Option.map_some]

theorem write_outside (outside : d.size ≤ sector.toNat) (source : Block) : d.write sector source = none := by
  induction d using Quotient.ind
  next c =>
    change (c.write sector source).map ofCoherent = none
    rw [c.write_outside outside, Option.map_none]

theorem close_eq : d.close = some (Array.ofFn fun index : Fin d.size => d.view (UInt32.ofNat index)) := by
  induction d using Quotient.ind
  next c => exact c.close_eq

theorem size_lt : d.size < 2 ^ 32 := by
  induction d using Quotient.ind
  next c => exact c.represents.bounded

variable (device : Array Block) (bounded : device.size < 2 ^ 32)

theorem mount_view : (mount device bounded).view = fun sector => device.getD sector.toNat zeros :=
  (Storage.init_represents bounded).view_eq

end Disk
end Comp310.Fs
