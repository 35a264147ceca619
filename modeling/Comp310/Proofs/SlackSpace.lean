import Comp310.Fs.DataSectors
import Comp310.Fs.Shell

/-! What `recover(2)` reports of the space after the end of a file. The bytes of the file are shifted out of a copy of
its last sector, but the end of the copy stays where it was, and what is written to the host starts at the second byte. -/

namespace Comp310.Proofs.SlackSpace
open Comp310.Fs Comp310.Lib

section Buffer
variable {block : Block} {used : Nat} {name : CString}

/-- Where the bytes of the buffer come from: the shift, applied to the places of the sector. -/
def sources (used : Nat) : List Nat := (List.range 512).drop used ++ (List.range 512).drop (512 - used)

/-- A place past the end of a file that has so many bytes in its last sector; a full sector has none. -/
def Hidden (used i : Nat) : Prop := 0 < used ∧ used ≤ i ∧ i < 512

/-- There is a host file exactly if some byte past the end is not zero, and the places that its bytes were copied from
are all past the end. -/
def Honest (block : Block) (used : Nat) (reported : List UInt8 → Prop) : Prop :=
  ((∃ bytes, reported bytes) ↔ ∃ i, Hidden used i ∧ byteAt block i ≠ 0) ∧
  ∀ bytes, reported bytes → bytes = (((sources used).drop 1).take bytes.length).map (byteAt block) ∧
    ∀ i ∈ ((sources used).drop 1).take bytes.length, Hidden used i

def hostName (name : CString) : CString := cstring "recovered2-" ++ name ++ cstring ".txt"

/-- The name fits the array it is printed to, and the buffer has a NUL for `fputs` to stop at. -/
def InBounds (name : CString) (block : Block) (used : Nat) : Prop :=
  name.length ≤ 2 ∧ ∃ i, (if used < 256 then used + 1 else 512 - used) ≤ i ∧ i < 512 ∧ byteAt block i = 0

/-- Nothing of the file is left to be seen: a full sector is blank, and where the file has more than half of it, either
something hidden ends before the bytes that the shift left behind, or all that is left behind is zeros. -/
def Clean (block : Block) (used : Nat) : Prop :=
  (used = 0 → ∀ i < 512, byteAt block i = 0) ∧
  (256 ≤ used →
    ((∃ i, Hidden used i ∧ byteAt block i ≠ 0) ∧ ∃ i, (i = 512 - used ∨ used < i) ∧ i < 512 ∧ byteAt block i = 0) ∨
    ∀ i, 512 - used ≤ i → i < 512 → byteAt block i = 0)

private abbrev buffer (block : Block) (used : Nat) : List UInt8 := block.toList.drop used ++ block.toList.drop (512 - used)

/-- The place that byte `j` of the buffer comes from. -/
private def source (used j : Nat) : Nat := if j < 512 - used then used + j else j

private theorem sources_length (small : used < 512) : (sources used).length = 512 := by
  simp only [sources, List.length_append, List.length_drop, List.length_range]
  omega

private theorem sources_getElem (small : used < 512) {j : Nat} (inside : j < (sources used).length) :
    (sources used)[j] = source used j := by
  have length := sources_length small
  simp only [sources, source, List.getElem_append, List.length_drop, List.length_range]
  split
  · rw [List.getElem_drop, List.getElem_range]
  · rw [List.getElem_drop, List.getElem_range]
    omega

private theorem buffer_eq (block : Block) (used : Nat) : buffer block used = (sources used).map (byteAt block) := by
  have whole : block.toList = (List.range 512).map (byteAt block) := by
    apply List.ext_getElem (by simp)
    intro i inside inside'
    rw [List.getElem_map, List.getElem_range, byteAt, List.getD_eq_getElem?_getD, List.getElem?_eq_getElem inside]
    rfl
  rw [buffer, sources, List.map_append, List.map_drop, List.map_drop, ← whole]

private theorem all_zero_iff (small : used < 512) :
    (buffer block used).all (· == 0) = true ↔ ∀ j < 512, byteAt block (source used j) = 0 := by
  have length := sources_length small
  simp only [buffer_eq, List.all_map, List.all_eq_true, Function.comp_apply, beq_iff_eq]
  constructor
  · intro all j inside
    have member := all _ (List.getElem_mem (show j < (sources used).length by omega))
    rwa [sources_getElem small] at member
  · intro all i member
    obtain ⟨j, inside, rfl⟩ := List.mem_iff_getElem.mp member
    rw [sources_getElem small]
    exact all j (by omega)

private theorem no_nul_iff (small : used < 512) :
    ((buffer block used).drop 1).all (· != 0) = true ↔ ∀ j, 1 ≤ j → j < 512 → byteAt block (source used j) ≠ 0 := by
  have length := sources_length small
  simp only [buffer_eq, ← List.map_drop, List.all_map, List.all_eq_true, Function.comp_apply, bne_iff_ne]
  constructor
  · intro all j low inside
    have within : j < (sources used).length := by omega
    have here : (sources used)[j] ∈ (sources used).drop 1 :=
      List.mem_drop_iff_getElem.mpr ⟨j - 1, by omega, by simp only [Nat.add_comm 1, Nat.sub_add_cancel low]⟩
    have member := all _ here
    rwa [sources_getElem small] at member
  · intro all i member
    obtain ⟨j, inside, rfl⟩ := List.mem_drop_iff_getElem.mp member
    rw [sources_getElem small]
    exact all _ (by omega) (by omega)

/-- How far `fputs` gets: to the first NUL from the second byte on. -/
private theorem text_stops (small : used < 512) (nul : ∃ j, 1 ≤ j ∧ j < 512 ∧ byteAt block (source used j) = 0) :
    ∃ n, n + 1 < 512 ∧ (∀ j, 1 ≤ j → j ≤ n → byteAt block (source used j) ≠ 0) ∧ byteAt block (source used (n + 1)) = 0 ∧
      text ((buffer block used).drop 1) = (((sources used).drop 1).take n).map (byteAt block) := by
  have length := sources_length small
  generalize places_eq : (sources used).drop 1 = places
  have total : places.length = 511 := by rw [← places_eq, List.length_drop, length]
  have place (j : Nat) (inside : j < places.length) : places[j] = source used (j + 1) := by
    simp only [← places_eq, List.getElem_drop, sources_getElem small, Nat.add_comm 1]
  let nulAt : Nat → Bool := fun i => !(byteAt block i != 0)
  have stops : places.findIdx nulAt < places.length := by
    obtain ⟨j, low, high, zero⟩ := nul
    refine List.findIdx_lt_length.mpr ⟨_, List.getElem_mem (show j - 1 < places.length by omega), ?_⟩
    rw [place, Nat.sub_add_cancel low]
    simp [nulAt, zero]
  refine ⟨places.findIdx nulAt, by omega, fun j low before zero => ?_, ?_, ?_⟩
  · have passed := List.not_of_lt_findIdx (show j - 1 < places.findIdx nulAt by omega)
    rw [place, Nat.sub_add_cancel low] at passed
    simp [nulAt, zero] at passed
  · have there := List.findIdx_getElem (w := stops)
    rw [place] at there
    simpa [nulAt] using there
  · rw [buffer_eq, ← List.map_drop, places_eq, text, List.takeWhile_map, List.takeWhile_eq_take_findIdx_not]
    rfl

/-- What the code makes of a sector: `none` where it leaves its arrays. -/
def slackReport (name : CString) (block : Block) (used : Nat) : Option (Option (CString × List UInt8)) :=
  if 18 ≤ (hostName name).length then none
  else if (buffer block used).all (· == 0) then some none
  else if ((buffer block used).drop 1).all (· != 0) then none
  else some (some (hostName name, text ((buffer block used).drop 1)))

private theorem hostName_length : (hostName name).length = name.length + 15 := by
  simp only [hostName, List.length_append, show (cstring "recovered2-").length = 11 from rfl, show (cstring ".txt").length = 4 from rfl]
  omega

private theorem source_bounds (small : used < 512) {j : Nat} (inside : j < 512) :
    source used j < 512 ∧ (1 ≤ j → (if used < 256 then used + 1 else 512 - used) ≤ source used j) := by
  unfold source
  split <;> split <;> omega

/-- Every place that `fputs` can stop at is looked at. -/
private theorem nul_iff (small : used < 512) : (∃ j, 1 ≤ j ∧ j < 512 ∧ byteAt block (source used j) = 0) ↔
    ∃ i, (if used < 256 then used + 1 else 512 - used) ≤ i ∧ i < 512 ∧ byteAt block i = 0 := by
  constructor
  · rintro ⟨j, low, high, zero⟩
    obtain ⟨below, above⟩ := source_bounds small high
    exact ⟨_, above low, below, zero⟩
  · rintro ⟨i, low, high, zero⟩
    by_cases later : used < i
    · refine ⟨i - used, by omega, by omega, ?_⟩
      rw [source, if_pos (by omega), Nat.add_sub_cancel' (by omega)]
      exact zero
    · have left : 512 - used ≤ i ∧ 1 ≤ i := by split at low <;> omega
      refine ⟨i, left.2, high, ?_⟩
      rw [source, if_neg (by omega)]
      exact zero

theorem slackReport_isSome (small : used < 512) : (slackReport name block used).isSome ↔ InBounds name block used := by
  rw [slackReport, InBounds, ← nul_iff small, hostName_length]
  split
  next long => exact iff_of_false nofun fun short => by omega
  next short =>
    split
    next blank =>
      rw [all_zero_iff small] at blank
      exact iff_of_true rfl ⟨by omega, 1, by decide, by decide, blank 1 (by decide)⟩
    next =>
      split
      next endless =>
        rw [no_nul_iff small] at endless
        exact iff_of_false nofun fun ⟨_, j, low, high, zero⟩ => endless j low high zero
      next ends =>
        rw [no_nul_iff small] at ends
        refine iff_of_true rfl ⟨by omega, Classical.byContradiction fun none => ends fun j low high zero => none ⟨j, low, high, zero⟩⟩

private theorem hidden_source {i : Nat} (hidden : Hidden used i) : i - used < 512 ∧ source used (i - used) = i := by
  obtain ⟨_, low, high⟩ := hidden
  refine ⟨by omega, ?_⟩
  rw [source, if_pos (by omega), Nat.add_sub_cancel' low]

private theorem source_behind {j : Nat} (behind : 512 - used ≤ j) : source used j = j := by
  rw [source, if_neg (by omega)]

private theorem source_shifted (positive : 0 < used) {j : Nat} (before : j < 512 - used) : Hidden used (source used j) := by
  rw [source, if_pos before]
  exact ⟨positive, by omega, by omega⟩

private theorem honest_blank (small : used < 512) (blank : ∀ j < 512, byteAt block (source used j) = 0) :
    Honest block used (fun bytes => (none : Option (CString × List UInt8)) = some (hostName name, bytes)) ↔ Clean block used := by
  refine iff_of_true ⟨iff_of_false nofun ?_, nofun⟩ ⟨?_, fun _ => .inr fun i low high => ?_⟩
  · rintro ⟨i, hidden, present⟩
    obtain ⟨inside, same⟩ := hidden_source hidden
    exact present (same ▸ blank _ inside)
  · rintro rfl i inside
    have zero := blank i inside
    rwa [source, if_pos (by omega), Nat.zero_add] at zero
  · have zero := blank i high
    rwa [source_behind low] at zero

/-- The places that a text of `n` bytes comes from. -/
private theorem mem_places (small : used < 512) {n i : Nat} (short : n < 511) :
    i ∈ ((sources used).drop 1).take n ↔ ∃ j, 1 ≤ j ∧ j ≤ n ∧ source used j = i := by
  have length := sources_length small
  rw [List.mem_take_iff_getElem]
  simp only [List.length_drop, length, List.getElem_drop, sources_getElem small]
  constructor
  · rintro ⟨j, inside, rfl⟩
    exact ⟨1 + j, by omega, by omega, rfl⟩
  · rintro ⟨j, low, high, rfl⟩
    exact ⟨j - 1, by omega, by rw [Nat.add_sub_cancel' low]⟩

private theorem places_hidden_iff (small : used < 512) {n : Nat} (short : n + 1 < 512)
    (full : ∀ j, 1 ≤ j → j ≤ n → byteAt block (source used j) ≠ 0) (stop : byteAt block (source used (n + 1)) = 0) (half : 256 ≤ used) :
    (∀ j, 1 ≤ j → j ≤ n → Hidden used (source used j)) ↔
      ∃ i, (i = 512 - used ∨ used < i) ∧ i < 512 ∧ byteAt block i = 0 := by
  constructor
  · intro hidden
    refine ⟨_, ?_, (source_bounds small short).1, stop⟩
    by_cases past : n + 1 ≤ 512 - used
    · by_cases last : n + 1 = 512 - used
      · exact .inl (by rw [source_behind (by omega), last])
      · rw [source, if_pos (by omega)]
        omega
    · obtain ⟨_, low, _⟩ := hidden (512 - used) (by omega) (by omega)
      rw [source_behind (Nat.le_refl _)] at low
      rw [source_behind (by omega)]
      omega
  · rintro ⟨i, place, high, zero⟩ j low before
    refine source_shifted (by omega) (Nat.lt_of_not_le fun behind => ?_)
    -- then the NUL is among the bytes that were written
    rcases place with rfl | later
    · refine full (512 - used) (by omega) (by omega) ?_
      rwa [source_behind (Nat.le_refl _)]
    · refine full (i - used) (by omega) (by omega) ?_
      rwa [(hidden_source ⟨by omega, Nat.le_of_lt later, high⟩).2]

private theorem honest_written (small : used < 512) (shows : ∃ j < 512, byteAt block (source used j) ≠ 0)
    (nul : ∃ j, 1 ≤ j ∧ j < 512 ∧ byteAt block (source used j) = 0) :
    Honest block used (fun bytes => some (hostName name, text ((buffer block used).drop 1)) = some (hostName name, bytes)) ↔
      Clean block used := by
  obtain ⟨n, short, full, stop, text_eq⟩ := text_stops small nul
  have same (bytes : List UInt8) : some (hostName name, text ((buffer block used).drop 1)) = some (hostName name, bytes) ↔
      text ((buffer block used).drop 1) = bytes := by simp
  have many : (text ((buffer block used).drop 1)).length = n := by
    rw [text_eq, List.length_map, List.length_take, List.length_drop, sources_length small]
    omega
  have meaning : Honest block used (fun bytes => some (hostName name, text ((buffer block used).drop 1)) = some (hostName name, bytes)) ↔
      (∃ i, Hidden used i ∧ byteAt block i ≠ 0) ∧ ∀ j, 1 ≤ j → j ≤ n → Hidden used (source used j) := by
    simp only [Honest, same, exists_eq', true_iff, forall_eq', many]
    refine and_congr_right fun _ => ?_
    rw [and_iff_right text_eq]
    simp only [mem_places small (show n < 511 by omega)]
    exact ⟨fun all j low high => all _ ⟨j, low, high, rfl⟩, fun all i ⟨j, low, high, place⟩ => place ▸ all j low high⟩
  rw [meaning]
  obtain ⟨k, inside, present⟩ := shows
  rcases Nat.eq_zero_or_pos used with rfl | positive
  · -- the sector is the file's own
    refine iff_of_false (fun ⟨⟨_, hidden, _⟩, _⟩ => Nat.lt_irrefl 0 hidden.1) fun clean => ?_
    exact present (clean.1 rfl _ (source_bounds small inside).1)
  · by_cases half : 256 ≤ used
    · rw [places_hidden_iff small short full stop half, Clean]
      constructor
      · exact fun shown => ⟨fun none => by omega, fun _ => .inl shown⟩
      · intro clean
        refine (clean.2 half).resolve_right fun blank => present (blank _ ?_ (source_bounds small inside).1)
        unfold source
        split <;> omega
    · have all (j : Nat) (below : j < 512) : Hidden used (source used j) := by
        refine ⟨positive, ?_, (source_bounds small below).1⟩
        unfold source
        split <;> omega
      refine iff_of_true ⟨⟨_, all k inside, present⟩, fun j _ high => all j (by omega)⟩ ⟨fun none => by omega, fun large => absurd large half⟩

theorem honest_iff (small : used < 512) {report : Option (CString × List UInt8)} (ran : slackReport name block used = some report) :
    Honest block used (fun bytes => report = some (hostName name, bytes)) ↔ Clean block used := by
  rw [slackReport] at ran
  split at ran
  next => cases ran
  next =>
    split at ran
    next blank =>
      cases ran
      exact honest_blank small ((all_zero_iff small).mp blank)
    next shows =>
      split at ran
      next => cases ran
      next ends =>
        cases ran
        rw [all_zero_iff small] at shows
        rw [no_nul_iff small] at ends
        refine honest_written small ?_ ?_
        · exact Classical.byContradiction fun none => shows fun j inside => Decidable.byContradiction fun present => none ⟨j, inside, present⟩
        · exact Classical.byContradiction fun none => ends fun j low high zero => none ⟨j, low, high, zero⟩

end Buffer

section Files
variable {fs fs' : FileSystem} {state : Option (Addr × Dir)} {name : CString} {sector : Sector} {tidy : Prop}

/-- The last data sector of a file; for an empty file the code takes sector 0. -/
def lastSector (fs : FileSystem) (sector : Sector) : Sector :=
  if (curData fs sector).length = 0 then 0
  else blockAt fs.disk.view (curData fs sector) (.data (((curData fs sector).length.toNat - 1) / 512))

def lastBlock (fs : FileSystem) (sector : Sector) : Block := fs.disk.view (lastSector fs sector)

/-- The bytes of the file in its last sector, 0 if it is full. -/
def usedIn (fs : FileSystem) (sector : Sector) : Nat := (curData fs sector).length.toNat % 512

private theorem last_listed (blocks : Blocks live fs) (member : live sector) {n : Nat}
    (count : n = ((curData fs sector).length.toNat + 511) / 512) :
    ((sectorsFrom fs.disk.view (curData fs sector) 0 n).filter (· != 0)).getLast?.getD 0 = lastSector fs sector := by
  have readable := blocks.readable member
  have nonneg := readable.nonneg
  have limit := readable.limit
  have all : (sectorsFrom fs.disk.view (curData fs sector) 0 n).filter (· != 0) = sectorsFrom fs.disk.view (curData fs sector) 0 n := by
    rw [List.filter_eq_self]
    intro other listed
    obtain ⟨i, inside, rfl⟩ := List.mem_iff_getElem.mp listed
    have inside' := inside
    rw [sectorsFrom_length] at inside'
    rw [sectorsFrom_getElem, bne_iff_ne, Nat.zero_add]
    refine readable.mapped _ ?_
    rw [data_first (by omega)]
    omega
  rw [all, lastSector]
  split
  next empty =>
    rw [empty] at count
    rw [show n = 0 from count]
    rfl
  next =>
    rw [List.getLast?_eq_getElem?, sectorsFrom_length, List.getElem?_eq_getElem (by rw [sectorsFrom_length]; omega),
      Option.getD_some, sectorsFrom_getElem, Nat.zero_add, show n - 1 = ((curData fs sector).length.toNat - 1) / 512 by omega]

private theorem lastSector_used (blocks : Blocks live fs) (member : live sector) :
    Used fs (lastSector fs sector) ∧ (lastSector fs sector).toNat < fs.disk.size := by
  have readable := blocks.readable member
  have limit := readable.limit
  rw [lastSector]
  split
  next => exact ⟨blocks.service.zero, blocks.service.bounded blocks.service.zero⟩
  next more =>
    have nonneg := readable.nonneg
    have present := readable.mapped (.data (((curData fs sector).length.toNat - 1) / 512)) (by
      rw [data_first (by omega)]
      omega)
    exact ⟨blocks.used (sector, some _) member (filled_place.mpr present), readable.inRange _ present⟩

private theorem report_unless {block : Block} {used : Nat} {fs₂ : FileSystem} (looked : Looked fs fs₂ state name tidy) :
    WpUnless (slackReport name block used = none) (do
        let newname ← sprintf 18 (cstring "recovered2-" ++ name ++ cstring ".txt")
        if (buffer block used).all (· == 0) then pure none
        else if ((buffer block used).drop 1).all (· != 0) then fault
        else pure (some (newname, text ((buffer block used).drop 1))))
      (fun result fs' => slackReport name block used = some result ∧ Looked fs fs' state name tidy) fs₂ := by
  unfold slackReport sprintf hostName
  by_cases short : (cstring "recovered2-" ++ name ++ cstring ".txt").length < 18
  · rw [if_pos short, if_neg (by omega), pure_bind]
    split
    · exact .inl ((wp_pure _).mpr ⟨rfl, looked⟩)
    · split
      · exact .inr ⟨rfl, rfl⟩
      · exact .inl ((wp_pure _).mpr ⟨rfl, looked⟩)
  · rw [if_neg short, if_pos (by omega)]
    exact .inr ⟨rfl, rfl⟩

private theorem recoverSlack_report (running : Running fs state tidy) (plain : PlainName name) (named : Named fs name sector) :
    WpUnless (slackReport name (lastBlock fs sector) (usedIn fs sector) = none) (recoverSlack name) (fun result fs' =>
      slackReport name (lastBlock fs sector) (usedIn fs sector) = some result ∧ Looked fs fs' state name tidy) fs := by
  have root := running.volume.root
  have notRoot := (root.plain name sector named).2.2.2
  rw [recoverSlack]
  refine (filesysOpen_wp running.volume running.session plain).unless.bind fun found fs₁ ended => ?_
  obtain ⟨calm, session, missing, opened⟩ := ended
  have looked₁ : Looked fs fs₁ state name tidy := calm.looked running session
  cases found with
  | none => exact absurd named (missing rfl sector)
  | some f =>
    obtain ⟨_, there, named', open₁⟩ := opened f rfl
    obtain rfl := root.functional named named'
    have named₁ : Named fs₁ name sector := looked₁.named ▸ named
    refine (fsutilSize_there looked₁.running plain named₁).unless.bind fun size fs₂ ended => ?_
    obtain ⟨looked₂, _, sized⟩ := ended
    rw [looked₁.data _ notRoot] at sized
    obtain ⟨node, found, data, readable⟩ := (looked₂.opens _ _ notRoot open₁).found looked₂.running
    have looked₂ := looked₁.trans looked₂
    apply WpUnless.after (getInode_eq found)
    apply WpUnless.after (getInodeDataSectors_eq readable)
    have blocks := running.volume.objects.blocks
    have member := named.live
    obtain ⟨used, inRange⟩ := lastSector_used blocks member
    have store := looked₂.store
    rw [data, looked₂.data sector notRoot] at readable ⊢
    have nonneg := readable.nonneg
    have limit := readable.limit
    have count := bytesToSectors_eq nonneg (by omega)
    have toRead : (if size.tmod 512 ≠ 0 then size.tdiv 512 + 1 else size.tdiv 512) = (bytesToSectors (curData fs sector).length : Int) := by
      rw [sized, count, Int.tmod_eq_emod_of_nonneg nonneg, Int.tdiv_eq_ediv_of_nonneg nonneg]
      split <;> omega
    have inSector : (size.tmod 512).toNat = usedIn fs sector := by
      rw [sized, Int.tmod_eq_emod_of_nonneg nonneg, usedIn]
      omega
    have set : bitmapTest fs₂.freeMap (lastSector fs sector).toNat = true := by
      rw [bitmapTest, List.getD_eq_getElem?_getD, store.freeMap, used]
      rfl
    have read : bufferCacheRead (lastSector fs sector) fs₂ = some (lastBlock fs sector, fs₂) := by
      rw [bufferCacheRead_eq (by rw [store.disk]; exact inRange), store.disk, lastBlock]
    dsimp only
    rw [toRead, sectorsFrom_length, if_neg (Int.lt_irrefl _), Int.toNat_natCast, List.take_of_length_le (Nat.le_of_eq sectorsFrom_length),
      store.disk, last_listed blocks member count, inSector]
    have current : (get : M FileSystem) fs₂ = some (fs₂, fs₂) := rfl
    apply WpUnless.after current
    rw [if_pos set]
    apply WpUnless.after read
    exact report_unless looked₂

private theorem slackReport_hostName {block : Block} {used : Nat} {newname : CString} {bytes : List UInt8}
    (reported : slackReport name block used = some (some (newname, bytes))) : newname = hostName name := by
  unfold slackReport at reported
  split at reported
  · cases reported
  · split at reported
    · cases reported
    · split at reported
      · cases reported
      · cases reported
        rfl

private theorem slackReport_none {block : Block} {used : Nat} (small : used < 512)
    (reported : slackReport name block used = some none) : ∀ j < 512, byteAt block (source used j) = 0 := by
  unfold slackReport at reported
  split at reported
  · cases reported
  · split at reported
    next blank => exact (all_zero_iff small).mp blank
    next => split at reported <;> cases reported

private theorem hostName_injective {other : CString} (same : hostName name = hostName other) : name = other :=
  List.append_cancel_left (List.append_cancel_right same)

private theorem slack_browsed (browsed : Browsed fs fs' state tidy) (notRoot : sector ≠ 1) :
    lastBlock fs' sector = lastBlock fs sector ∧ usedIn fs' sector = usedIn fs sector := by
  rw [lastBlock, lastBlock, lastSector, lastSector, usedIn, usedIn, browsed.data sector notRoot, browsed.store.disk]
  exact ⟨rfl, rfl⟩

private theorem recover_rounds (running : Running fs none tidy) :
    WpUnless (∃ name sector, Named fs name sector ∧ slackReport name (lastBlock fs sector) (usedIn fs sector) = none) (recover 2)
      (fun files _ => ∀ name sector, Named fs name sector →
        ∃ report, slackReport name (lastBlock fs sector) (usedIn fs sector) = some report ∧
          ∀ bytes, (hostName name, bytes) ∈ files ↔ report = some (hostName name, bytes)) fs := by
  have root := running.volume.root
  have start : (get : M FileSystem) fs = some (fs, fs) := rfl
  rw [recover]
  apply WpUnless.after start
  rw [if_neg (by decide), if_neg (by decide), if_pos rfl]
  refine (scanRoot_unless (fun name report => ∀ sector, Named fs name sector →
    slackReport name (lastBlock fs sector) (usedIn fs sector) = some report) running fun fs₁ dir d name browsed member => ?_).bind
    fun reports fs' ended => .inl ((wp_pure _).mpr fun name sector named => ?_)
  · obtain ⟨sector, named⟩ := mem_names.mp member
    obtain ⟨plain, _, _, notRoot⟩ := root.plain name sector named
    have round := recoverSlack_report browsed.running plain (browsed.named ▸ named : Named fs₁ name sector)
    rw [(slack_browsed browsed notRoot).1, (slack_browsed browsed notRoot).2] at round
    refine WpUnless.mono (round.imp id fun stopped => ⟨⟨name, sector, named, stopped.1⟩, stopped.2⟩) fun report fs₂ outcome => ?_
    obtain ⟨reported, looked⟩ := outcome
    refine ⟨browsed.trans looked.browsed, fun there named' => ?_⟩
    obtain rfl := root.functional named named'
    exact reported
  · obtain ⟨⟨length, all⟩, _⟩ := ended
    have pair {k : Nat} (inside : k < (names fs).length) (inside' : k < reports.length) :
        ((names fs)[k], reports[k]) ∈ (names fs).zip reports :=
      List.mem_iff_getElem.mpr ⟨k, by rw [List.length_zip]; omega, by simp⟩
    obtain ⟨k, inside, rfl⟩ := List.mem_iff_getElem.mp (mem_names.mpr ⟨sector, named⟩)
    refine ⟨_, all _ (pair inside (by omega)) sector named, fun bytes => ?_⟩
    simp only [List.mem_filterMap, id_eq, exists_eq_right]
    constructor
    · intro listed
      obtain ⟨j, inside', same⟩ := List.mem_iff_getElem.mp listed
      have place : j < (names fs).length := by omega
      obtain ⟨there, named'⟩ := mem_names.mp (List.getElem_mem place)
      have reported := all _ (pair place inside') there named'
      dsimp only at reported
      rw [same] at reported
      have equal := hostName_injective (slackReport_hostName reported)
      have index := (List.getElem_inj root.names_nodup).mp equal
      subst index
      exact same
    · exact fun reported => List.mem_iff_getElem.mpr ⟨k, by omega, reported⟩

/-- Whatever stands behind the ends of the files: a run of `recover(2)` that comes to its end is right about a file exactly
if the sector is clean, and it comes to its end exactly if it stays within its arrays for every file. -/
theorem recover_honest_iff (running : Running fs none tidy) (named : Named fs name sector) :
    (∃ files fs', recover 2 fs = some (files, fs') ∧
      Honest (lastBlock fs sector) (usedIn fs sector) fun bytes => (hostName name, bytes) ∈ files) ↔
    (∀ other there, Named fs other there → InBounds other (lastBlock fs there) (usedIn fs there)) ∧
      Clean (lastBlock fs sector) (usedIn fs sector) := by
  have small (there : Sector) : usedIn fs there < 512 := Nat.mod_lt _ (by decide)
  have rounds := recover_rounds running
  have right {files : List (CString × List UInt8)} (listed : ∀ name sector, Named fs name sector →
      ∃ report, slackReport name (lastBlock fs sector) (usedIn fs sector) = some report ∧
        ∀ bytes, (hostName name, bytes) ∈ files ↔ report = some (hostName name, bytes)) :
      Honest (lastBlock fs sector) (usedIn fs sector) (fun bytes => (hostName name, bytes) ∈ files) ↔
        Clean (lastBlock fs sector) (usedIn fs sector) := by
    obtain ⟨report, reported, here⟩ := listed name sector named
    simp only [here]
    exact honest_iff (small sector) reported
  constructor
  · rintro ⟨files, fs', ran, honest⟩
    have listed := rounds.result ran
    refine ⟨fun other there named' => ?_, (right listed).mp honest⟩
    obtain ⟨report, reported, _⟩ := listed other there named'
    exact (slackReport_isSome (small there)).mp (by rw [reported]; rfl)
  · rintro ⟨bounds, clean⟩
    rcases rounds with ⟨files, fs', ran, listed⟩ | ⟨⟨other, there, named', stopped⟩, _⟩
    · exact ⟨files, fs', ran, (right listed).mpr clean⟩
    · have inside := (slackReport_isSome (small there)).mpr (bounds other there named')
      rw [stopped] at inside
      cases inside

private theorem lastBlock_byte (running : Running fs state tidy) (named : Named fs name sector) {i : Nat}
    (positive : 0 < (curData fs sector).length) (last : i / 512 = ((curData fs sector).length.toNat - 1) / 512) :
    byteAt (lastBlock fs sector) (i % 512) = fileByte fs.disk.view (curData fs sector) i := by
  have readable := running.volume.objects.blocks.readable named.live
  have limit := readable.limit
  have present := readable.mapped (.data (i / 512)) (by
    rw [data_first (by omega)]
    omega)
  rw [fileByte, if_neg present, lastBlock, lastSector, if_neg (by omega), last]

/-- A disk on which the inodes, the maps of all objects and the file of the free map are as they were; their data may differ. -/
theorem objects_relaxed (objects : Objects live fs tidy) (heap : SameHeap fs fs') (freeMap : fs'.freeMap = fs.freeMap)
    (size : fs'.disk.size = fs.disk.size) (stored : ∀ other, live other → fs'.disk.view other = fs.disk.view other)
    (data : ∀ other, live other → curData fs' other = curData fs other)
    (index : ∀ other, live other → blockAt fs'.disk.view (curData fs' other) = blockAt fs.disk.view (curData fs other))
    (mapByte : ∀ i, fileByte fs'.disk.view (curData fs' 0) i = fileByte fs.disk.view (curData fs 0) i) : Objects live fs' False := by
  have blocks := objects.blocks
  have synced := objects.synced
  obtain ⟨file, inode, home, opened, zero, whole⟩ := blocks.mapOpen
  have found := blocks.handles.inode? opened
  have mapData : inode.data = curData fs 0 := zero ▸ (blocks.handles.curData opened).symm
  rw [data 0 blocks.mapLive, ← mapData] at mapByte
  have the {file' : File} {inode' : Inode} (home' : fs'.freeMapFile = some file') (found' : fs'.inode? file'.inode = some inode') :
      inode' = inode := by
    cases (home.symm.trans heap.freeMapFile.symm).trans home'
    exact Option.some.inj (found'.symm.trans ((heap.inode? _).trans found))
  have padded : Padded fs' := by
    intro file' inode' home' found' i past inside
    rw [freeMap] at past inside
    rw [the home' found', mapByte]
    exact synced.padded file inode home found i past inside
  have sound (other : Sector) (there : live other) : Sound fs' other := by
    have before := blocks.sound other there
    refine ⟨data other there ▸ before.nonneg, data other there ▸ before.limit, ?_⟩
    rw [index other there, data other there]
    exact before.mapped
  have claims (role : Role) (there : live role.1) : claim fs' role = claim fs role := by
    obtain ⟨other, _ | p⟩ := role
    · rfl
    · exact congrFun (index other there) p
  have mapOpen : MapOpen fs' :=
    ⟨file, inode, heap.freeMapFile.trans home, heap.openInodes ▸ opened, zero, by rw [freeMap, whole]⟩
  have blocks' : Blocks live fs' := by
    refine blocks.frame (fun _ => id) blocks.mapLive size (by rw [freeMap]) heap.panics (heap.handles blocks.handles)
      (by rw [heap.openInodes]; exact blocks.opens) mapOpen padded sound (fun role there filled => ?_) fun role there filled => ?_
    · rw [Filled, claims role there] at filled
      exact ⟨filled, claims role there⟩
    · rw [Used, freeMap]
      exact blocks.used role there filled
  refine ⟨blocks', ⟨padded, fun file' inode' home' found' => ?_⟩, fun other there notMap => ?_, fun no => no.elim⟩
  · rw [the home' found', freeMap, ← synced.bits file inode home found]
    exact fileRange_congr fun i _ _ => mapByte i
  · have grows : Grows 0 (fun _ => True) (fun _ => True) (blockAt fs.disk.view (curData fs other))
        (blockAt fs'.disk.view (curData fs' other)) := by
      rw [index other there]
      exact .refl
    rw [Saved, stored other there]
    exact (objects.saved other there notMap).grow grows (by rw [data other there]) (by rw [data other there]) (sound other there).mapped

/-- The last sector of a file may hold anything: nothing rests on it but what the file reads as, and what stands behind its end. -/
theorem withLast (running : Running fs none tidy) (named : Named fs name sector) (nonempty : (curData fs sector).length ≠ 0)
    (block : Block) : ∃ disk, fs.disk.write (lastSector fs sector) block = some disk ∧ Running { fs with disk } none False ∧
      slots { fs with disk } = slots fs ∧ curData { fs with disk } sector = curData fs sector ∧ lastBlock { fs with disk } sector = block := by
  have blocks := running.volume.objects.blocks
  obtain ⟨_, _, nonzero, notRoot⟩ := running.volume.root.plain name sector named
  have readable := blocks.readable named.live
  have limit := readable.limit
  have nonneg := readable.nonneg
  have present := readable.mapped (.data (((curData fs sector).length.toNat - 1) / 512)) (by
    rw [data_first (by omega)]
    omega)
  have last : lastSector fs sector = claim fs (sector, some (.data (((curData fs sector).length.toNat - 1) / 512))) := by
    rw [lastSector, if_neg nonempty]
    rfl
  generalize ((curData fs sector).length.toNat - 1) / 512 = n at present last
  obtain ⟨disk, wrote, view, size, _⟩ := fs.disk.write_inside (lastSector_used blocks named.live).2 block
  refine ⟨disk, wrote, ?_⟩
  generalize after_eq : ({ fs with disk } : FileSystem) = fs'
  have heap : SameHeap fs fs' := by rw [← after_eq]; exact ⟨rfl, rfl, rfl, rfl, rfl, rfl, rfl⟩
  have written : fs'.disk.view = fun other => if other = lastSector fs sector then block else fs.disk.view other := by
    rw [← after_eq]
    exact view
  -- no other role has the sector
  have away (role : Role) (there : Live fs role.1) (filled : Filled fs role) (differs : role ≠ (sector, some (.data n))) :
      fs'.disk.view (claim fs role) = fs.disk.view (claim fs role) := by
    rw [written]
    refine if_neg fun same => ?_
    exact differs (blocks.apart role _ there named.live filled (filled_place.mpr present) (same.trans last))
  have stored (other : Sector) (there : Live fs other) : fs'.disk.view other = fs.disk.view other :=
    away (other, none) there filled_inode fun same => by cases congrArg Prod.snd same
  have data (other : Sector) (there : Live fs other) : curData fs' other = curData fs other := by
    rw [curData, curData, heap.openInodes, stored other there]
  have index (other : Sector) (there : Live fs other) :
      blockAt fs'.disk.view (curData fs' other) = blockAt fs.disk.view (curData fs other) := by
    rw [data other there]
    refine funext fun p => blockAt_congr p fun q inner assigned => away (other, some q) there (filled_place.mpr assigned) fun same => ?_
    rw [Option.some.inj (congrArg Prod.snd same), data_isData] at inner
    cases inner
  have others (other : Sector) (there : Live fs other) (differs : other ≠ sector) (i : Nat) :
      fileByte fs'.disk.view (curData fs' other) i = fileByte fs.disk.view (curData fs other) i := by
    rw [data other there]
    exact fileByte_congr i fun q assigned =>
      away (other, some q) there (filled_place.mpr assigned) fun same => differs (congrArg Prod.fst same)
  have root : Alike fs fs' 1 :=
    ⟨by rw [data 1 Volume.root_live], by rw [data 1 Volume.root_live], fun i _ => others 1 Volume.root_live (Ne.symm notRoot) i⟩
  have objects := objects_relaxed running.volume.objects heap (by rw [← after_eq]) (by rw [← after_eq]; exact size) stored data index
    (others 0 (.inl rfl) (Ne.symm nonzero))
  have names := named_congr root.slots
  refine ⟨⟨⟨by rw [live_congr root.slots]; exact objects, running.volume.root.congr root.slots root.length fun _ other named' => ?_⟩,
    heap.session running.session, ?_⟩, root.slots, data sector named.live, ?_⟩
  · rw [data other named'.live]
  · refine running.table.congr heap.fileTable fun _ _ _ _ named' opened' => ⟨names ▸ named', ?_⟩
    rwa [OpenAt, heap.openInodes]
  · rw [lastBlock, lastSector, index sector named.live, data sector named.live, ← lastSector, written]
    exact if_pos rfl

end Files

section Example

/-- The file of five bytes alone on the disk, with `hi` behind its end. -/
theorem recover_honest_small : ∃ start created fs files final sector, filesysInit smallDevice smallDevice_size true = some start ∧
    fsutilCreate [97] 5 start = some (1, created) ∧ Named created [97] sector ∧
    created.disk.write (lastSector created sector) ((zeros.set 7 105).set 6 104) = some fs.disk ∧ fs = { created with disk := fs.disk } ∧
    recover 2 fs = some (files, final) ∧ (∃ bytes, (hostName [97], bytes) ∈ files) ∧
    Honest (lastBlock fs sector) (usedIn fs sector) fun bytes => (hostName [97], bytes) ∈ files := by
  obtain ⟨start, created, sector, ran, formatted, _, made, done, running, _⟩ := smallDevice_create (show 5 ≤ 8517120 by decide)
    (by rw [wanted_eq (by decide), sectorsNeeded_eq (by decide)]; decide)
  have named : Named created [97] sector := (done.named [97] sector).mpr (.inr ⟨rfl, rfl⟩)
  have length : (curData created sector).length = 5 := done.fresh.length
  obtain ⟨disk, wrote, running', same, data, block⟩ :=
    withLast running named (by rw [length]; decide) ((zeros.set 7 105).set 6 104)
  generalize after_eq : ({ created with disk } : FileSystem) = fs at running' same data block
  have names := named_congr same
  have used : usedIn fs sector = 5 := by rw [usedIn, data, length]; rfl
  have bounds (other : CString) (there : Sector) (named' : Named fs other there) :
      InBounds other (lastBlock fs there) (usedIn fs there) := by
    rw [names, done.named] at named'
    rcases named' with before | ⟨rfl, rfl⟩
    · exact absurd before (formatted.unnamed other there)
    · refine ⟨by decide, 8, by rw [used]; decide, by decide, ?_⟩
      rw [block]
      rfl
  have clean : Clean (lastBlock fs sector) (usedIn fs sector) := ⟨fun none => by omega, fun half => by omega⟩
  obtain ⟨files, final, recovered, honest⟩ := (recover_honest_iff running' (names ▸ named)).mpr ⟨bounds, clean⟩
  refine ⟨start, created, fs, files, final, sector, ran, made, named, by rw [← after_eq]; exact wrote, by rw [← after_eq],
    recovered, ?_, honest⟩
  apply honest.1.mpr
  have shown : (104 : UInt8) ≠ 0 := by decide
  exact ⟨6, ⟨by omega, by omega, by decide⟩, block ▸ shown⟩

/-- A sector full of the file's own text. -/
theorem recover_reports_file : ∃ start created fs files final sector, filesysInit smallDevice smallDevice_size true = some start ∧
    fsutilCreate [97] 512 start = some (1, created) ∧ fsutilWrite [97] (List.replicate 512 65) created = some (512, fs) ∧
    (curData fs sector).length = 512 ∧ recover 2 fs = some (files, final) ∧ (∃ bytes, (hostName [97], bytes) ∈ files) ∧
    ¬ Honest (lastBlock fs sector) (usedIn fs sector) fun bytes => (hostName [97], bytes) ∈ files := by
  obtain ⟨start, created, sector, ran, formatted, _, made, done, running₁, empty⟩ :=
    smallDevice_create (show 512 ≤ 8517120 by decide) (by rw [wanted_eq (by decide), sectorsNeeded_eq (by decide)]; decide)
  have named₁ : Named created [97] sector := (done.named [97] sector).mpr (.inr ⟨rfl, rfl⟩)
  have pos : posOf created [97] = 0 := by rw [posOf, empty]; rfl
  generalize text_eq : List.replicate 512 (65 : UInt8) = source
  have count : source.length = 512 := by rw [← text_eq, List.length_replicate]
  obtain ⟨written, fs, wrote, ⟨_, missing, _⟩ | ⟨there, ok, fits, written_eq, file, _⟩⟩ :=
    fsutilWrite_wp running₁ plain_a (show 0 < source.length by omega) (by omega) (by omega)
  · exact absurd named₁ (missing sector)
  obtain rfl := running₁.volume.root.functional named₁ file.named
  obtain rfl : ok = true := by
    rw [fits, pos, count]
    have inside : (512 : Nat) ≤ (curData created sector).length := Int.le_of_eq done.fresh.length.symm
    exact fits_inside (running₁.volume.objects.blocks.readable named₁.live) inside
  rw [if_pos rfl, count] at written_eq
  subst written_eq
  have running := file.running
  have named : Named fs [97] sector := named_congr file.slots ▸ named₁
  have length : (curData fs sector).length = 512 := by
    rw [file.length, if_pos rfl, done.fresh.length, pos, terminated_length, count]
    rfl
  have used : usedIn fs sector = 0 := by rw [usedIn, length]; rfl
  have byte (i : Nat) (inside : i < 512) : byteAt (lastBlock fs sector) i = (terminated source).getD i 0 := by
    have here := lastBlock_byte running named (i := i) (by rw [length]; decide) (by rw [length]; omega)
    rw [file.bytes i (by omega), if_pos ⟨rfl, by rw [pos]; exact Nat.zero_le _, by rw [pos, terminated_length, count]; omega⟩,
      Nat.mod_eq_of_lt inside, pos] at here
    exact here
  have first : byteAt (lastBlock fs sector) 0 ≠ 0 := by
    rw [byte 0 (by decide), terminated, count, List.getD_eq_getElem?_getD, List.getElem?_set_ne (by decide), ← text_eq,
      List.getElem?_replicate_of_lt (by decide)]
    decide
  have bounds : InBounds [97] (lastBlock fs sector) (usedIn fs sector) := by
    refine ⟨by decide, 511, by rw [used]; decide, by decide, ?_⟩
    rw [byte 511 (by decide), terminated, count, List.getD_eq_getElem?_getD, List.getElem?_set_self (by omega)]
    rfl
  have small : usedIn fs sector < 512 := by omega
  have clean : ¬ Clean (lastBlock fs sector) (usedIn fs sector) := fun clean => first (clean.1 used 0 (by decide))
  rcases recover_rounds running with ⟨files, final, recovered, listed⟩ | ⟨⟨other, there, named', stopped⟩, _⟩
  · obtain ⟨report, reported, here⟩ := listed [97] sector named
    refine ⟨start, created, fs, files, final, sector, ran, made, wrote, length, recovered, ?_, ?_⟩
    · cases report with
      | none =>
        have blank := slackReport_none small reported 0 (by decide)
        rw [used] at blank
        exact absurd blank first
      | some file =>
        obtain ⟨newname, bytes⟩ := file
        obtain rfl := slackReport_hostName reported
        exact ⟨bytes, (here bytes).mpr rfl⟩
    · simp only [here]
      rwa [honest_iff small reported]
  · rw [named_congr file.slots, done.named] at named'
    rcases named' with before | ⟨rfl, rfl⟩
    · exact absurd before (formatted.unnamed other there)
    · have inside := (slackReport_isSome small).mpr bounds
      rw [stopped] at inside
      cases inside

end Example

end Comp310.Proofs.SlackSpace
