import Mathlib.Algebra.Ring.Nat

/-! The block device and the buffer cache in front of it (block.c, cache.c). A
panic of the device, an access past its end, is a fault: no state follows it. -/

namespace Comp310.Fs

/-- `block_sector_t`. -/
abbrev Sector := UInt32

/-- The bytes of one sector, BLOCK_SECTOR_SIZE of them. -/
abbrev Block := Vector UInt8 512

def zeros : Block := Vector.replicate 512 0

/-- `struct buffer_cache_entry_t`. -/
structure CacheEntry where
  occupied : Bool
  diskSector : Sector
  buffer : Block
  dirty : Bool
  access : Bool

instance cacheSize_neZero : NeZero 64 := ⟨nofun⟩

/-- The device, the BUFFER_CACHE_SIZE cache entries and the clock hand. `written`
is a history variable, the sectors given to `buffer_cache_write` with the latest
first; no operation reads it. -/
structure Storage where
  device : Array Block
  cache : Vector CacheEntry 64
  clock : Fin 64
  written : List Sector

namespace Storage

def entry (s : Storage) (slot : Fin 64) : CacheEntry := s.cache[slot]

def modifyEntry (s : Storage) (slot : Fin 64) (change : CacheEntry → CacheEntry) : Storage :=
  { s with cache := s.cache.set slot (change (s.entry slot)) }

def blockRead (s : Storage) (sector : Sector) : Option Block :=
  s.device[sector.toNat]?

def blockWrite (s : Storage) (sector : Sector) (buffer : Block) : Option Storage :=
  if sector.toNat < s.device.size then
    some { s with device := s.device.setIfInBounds sector.toNat buffer }
  else none

/-- The clock and the reference bits keep the values they had. -/
def bufferCacheInit (s : Storage) : Storage :=
  { s with cache := s.cache.map fun entry => { entry with occupied := false, dirty := false } }

def bufferCacheFlush (s : Storage) (slot : Fin 64) : Option Storage :=
  if (s.entry slot).dirty then do
    let s ← s.blockWrite (s.entry slot).diskSector (s.entry slot).buffer
    some (s.modifyEntry slot fun entry => { entry with dirty := false })
  else some s

def flushOccupied (s : Storage) (slot : Fin 64) : Option Storage :=
  if (s.entry slot).occupied then s.bufferCacheFlush slot else some s

def bufferCacheClose (s : Storage) : Option Storage :=
  (List.finRange 64).foldlM flushOccupied s

def bufferCacheLookup (s : Storage) (sector : Sector) : Option (Fin 64) :=
  (List.finRange 64).find? fun slot => (s.entry slot).occupied && (s.entry slot).diskSector == sector

/-- The `while (true)` loop, one unit of fuel for each entry looked at. -/
def clockLoop : Nat → Storage → Option Storage
  | 0, _ => none
  | fuel + 1, s =>
    if (s.entry s.clock).occupied = false then some s
    else if (s.entry s.clock).access then
      let cleared := s.modifyEntry s.clock fun entry => { entry with access := false }
      clockLoop fuel { cleared with clock := s.clock + 1 }
    else some s

def bufferCacheEvict (s : Storage) : Option (Fin 64 × Storage) := do
  let s ← clockLoop 65 s
  if (s.entry s.clock).occupied = false then some (s.clock, s)
  else do
    let s ← s.bufferCacheFlush s.clock
    some (s.clock, s.modifyEntry s.clock fun entry => { entry with occupied := false })

/-- The slot of a sector, fetched from the device on a cache miss. -/
def bufferCacheFetch (s : Storage) (sector : Sector) : Option (Fin 64 × Storage) :=
  match s.bufferCacheLookup sector with
  | some slot => some (slot, s)
  | none => do
    let (slot, s) ← s.bufferCacheEvict
    let buffer ← s.blockRead sector
    some (slot, s.modifyEntry slot fun entry =>
      { entry with occupied := true, diskSector := sector, dirty := false, buffer })

def bufferCacheRead (s : Storage) (sector : Sector) : Option (Block × Storage) := do
  let (slot, s) ← s.bufferCacheFetch sector
  some ((s.entry slot).buffer, s.modifyEntry slot fun entry => { entry with access := true })

def bufferCacheWrite (s : Storage) (sector : Sector) (source : Block) : Option Storage := do
  let (slot, s) ← s.bufferCacheFetch sector
  let s := s.modifyEntry slot fun entry => { entry with access := true, dirty := true, buffer := source }
  some { s with written := sector :: s.written }

@[simp] theorem modifyEntry_device (s : Storage) (slot : Fin 64) (change : CacheEntry → CacheEntry) :
    (s.modifyEntry slot change).device = s.device := rfl

theorem entry_modifyEntry (s : Storage) (slot other : Fin 64) (change : CacheEntry → CacheEntry) :
    (s.modifyEntry slot change).entry other = if slot = other then change (s.entry slot) else s.entry other := by
  simp only [entry, modifyEntry, Fin.getElem_fin, Vector.getElem_set, Fin.val_inj]

end Storage
end Comp310.Fs
