import Comp310.Fs.Disk

/-! The cache is a faithful array of sectors for every sequence of accesses,
and closing it leaves that array on the device. -/

namespace Comp310.Proofs.CacheRefinement
open Comp310.Fs

inductive Access where
  | read (sector : Sector)
  | write (sector : Sector) (source : Block)

def Access.sector : Access → Sector
  | .read sector => sector
  | .write sector _ => sector

/-- The calls one after another, with what each read copied out. -/
def perform : List Access → Storage → Option (List Block × Storage)
  | [], s => some ([], s)
  | .read sector :: rest, s => do
    let (block, s) ← s.bufferCacheRead sector
    let (blocks, s) ← perform rest s
    some (block :: blocks, s)
  | .write sector source :: rest, s => do
    let s ← s.bufferCacheWrite sector source
    perform rest s

/-- The most recent write to a sector in a history, whose latest call comes first. -/
def latestWrite : List Access → Sector → Option Block
  | [], _ => none
  | .read _ :: older, sector => latestWrite older sector
  | .write written source :: older, sector => if written = sector then some source else latestWrite older sector

/-- What a sector should hold after a history, on a device that held `original`. -/
def latest (original : Sector → Block) (history : List Access) (sector : Sector) : Block :=
  (latestWrite history sector).getD (original sector)

/-- What the reads of a sequence of calls should return, after a history. -/
def expected (original : Sector → Block) : List Access → List Access → List Block
  | _, [] => []
  | history, .read sector :: rest =>
    latest original history sector :: expected original (.read sector :: history) rest
  | history, .write sector source :: rest => expected original (.write sector source :: history) rest

private theorem latest_write (original : Sector → Block) (history : List Access) (sector : Sector) (source : Block) :
    latest original (.write sector source :: history) =
      fun other => if other = sector then source else latest original history other := by
  funext other
  simp only [latest, latestWrite, eq_comm (a := sector)]
  split <;> rfl

theorem perform_represents (original : Sector → Block) (accesses history : List Access) (s : Storage)
    (represents : s.Represents (latest original history))
    (inRange : ∀ access ∈ accesses, access.sector.toNat < s.device.size) :
    ∃ s', perform accesses s = some (expected original history accesses, s') ∧
      s'.Represents (latest original (accesses.reverse ++ history)) ∧ s'.device.size = s.device.size := by
  induction accesses generalizing history s with
  | nil => exact ⟨s, rfl, represents, rfl⟩
  | cons access rest ih =>
    cases access with
    | read sector =>
      have inside : sector.toNat < s.device.size := inRange (.read sector) (by simp)
      obtain ⟨middle, ran, kept⟩ := represents.read inside
      obtain ⟨s', ran', represents', size⟩ := ih (.read sector :: history) middle kept.represents
        (fun access member => kept.size ▸ inRange access (by simp [member]))
      refine ⟨s', by simp [perform, ran, ran', expected], ?_, size.trans kept.size⟩
      simpa using represents'
    | write sector source =>
      have inside : sector.toNat < s.device.size := inRange (.write sector source) (by simp)
      obtain ⟨middle, ran, wrote, size, _⟩ := represents.write inside source
      obtain ⟨s', ran', represents', size'⟩ := ih (.write sector source :: history) middle
        (latest_write original history sector source ▸ wrote)
        (fun access member => size ▸ inRange access (by simp [member]))
      refine ⟨s', by simp [perform, ran, ran', expected], ?_, size'.trans size⟩
      simpa using represents'

/-- From `buffer_cache_init`, every read returns the latest write to its sector
or the device's original bytes, and after `buffer_cache_close` the device holds
those contents in every sector. -/
theorem cache_is_flat_array (start : Storage) (accesses : List Access) (bounded : start.device.size < 2 ^ 32)
    (inRange : ∀ access ∈ accesses, access.sector.toNat < start.device.size) :
    ∃ s closed, perform accesses start.bufferCacheInit = some (expected start.onDevice [] accesses, s) ∧
      s.bufferCacheClose = some closed ∧ closed.device.size = start.device.size ∧
      ∀ sector : Sector, sector.toNat < start.device.size →
        closed.device[sector.toNat]? = some (latest start.onDevice accesses.reverse sector) := by
  obtain ⟨s, ran, represents, size⟩ := perform_represents start.onDevice accesses [] start.bufferCacheInit
    (Storage.init_represents bounded) inRange
  obtain ⟨closed, ran', kept, device⟩ := represents.close
  have size' : closed.device.size = start.device.size := kept.size.trans size
  refine ⟨s, closed, ran, ran', size', fun sector inside => ?_⟩
  have stored := device sector
  rw [List.append_nil] at stored
  rw [← stored, Storage.onDevice, Array.getD_eq_getD_getElem?, Array.getElem?_eq_getElem (size' ▸ inside)]
  rfl

/-- A device of one sector more than the cache has entries, which are all stale. -/
def largerDevice : Storage :=
  ⟨Array.replicate 65 zeros, Vector.replicate 64 ⟨true, 0, Vector.replicate 512 7, true, true⟩, 5, []⟩

/-- Each sector is written, so that one of them has to leave the cache, and then the first one is read. -/
def writeAll : List Access :=
  (List.range 65).map (fun k => .write (UInt32.ofNat k) (Vector.replicate 512 (UInt8.ofNat (k + 1)))) ++ [.read 0]

theorem cache_is_flat_array_evicted :
    ∃ s closed, perform writeAll largerDevice.bufferCacheInit = some ([Vector.replicate 512 1], s) ∧
      s.bufferCacheClose = some closed ∧ closed.device.size = 65 ∧
      ∀ sector : Sector, sector.toNat < 65 →
        closed.device[sector.toNat]? = some (latest largerDevice.onDevice writeAll.reverse sector) := by
  have size : largerDevice.device.size = 65 := Array.size_replicate
  have inRange : ∀ access ∈ writeAll, access.sector.toNat < 65 := by decide
  exact size ▸ cache_is_flat_array largerDevice writeAll (by rw [size]; decide) (by rwa [size])

end Comp310.Proofs.CacheRefinement
