import Comp310.Fs.CopyIn
import Comp310.Proofs.ReserveExact

/-! How far `copy_in` can trust its estimate of the space. It allows for no index block, two or seventeen, whatever the
file takes, and does not count the byte that it writes past the end of the file. -/

namespace Comp310.Proofs.CopyInSpace
open Comp310.Fs Comp310.Lib

/-- The index blocks that are allowed for with so many sectors free and so many to write. -/
def allowance (free : Nat) (sectors : Int) : Int :=
  if 123 < (free : Int) - 1 ∧ 123 < sectors then if 252 < (free : Int) - 1 ∧ 252 < sectors then 17 else 2 else 0

/-- By the estimate the file has to be cut short. -/
def CutShort (free : Nat) (size : Int) : Prop := (free : Int) - 1 - allowance free ((size + 511) / 512) < (size + 511) / 512

/-- The file fits whole, with the byte past its end and what index blocks it takes, or it is cut short on a disk with few
enough free sectors for the allowance to suffice. Of a negative size nothing is made. -/
def Trustworthy (free : Nat) (size : Int) : Prop :=
  size < 0 ∨ 1 + ReserveExact.need ((size.toNat + 1 + 511) / 512) ≤ free ∨ (CutShort free size ∧ free ≤ 2189)

/-- What the file of `size + 1` bytes takes is there: its inode, its data and its index blocks. -/
def Affordable (free : Nat) (size : Int) : Prop := 1 + ReserveExact.need (((size + 1).toNat + 511) / 512) ≤ free

variable {free length : Nat} {size : Int}

instance : Decidable (CutShort free size) := inferInstanceAs (Decidable (_ < _))

instance : Decidable (Trustworthy free size) := inferInstanceAs (Decidable (_ ∨ _))

instance : Decidable (Affordable free size) := inferInstanceAs (Decidable (_ ≤ _))

private theorem need_cases (n : Nat) : (n ≤ 123 ∧ ReserveExact.need n = n) ∨ (123 < n ∧ n ≤ 251 ∧ ReserveExact.need n = n + 1) ∨
    (251 < n ∧ ReserveExact.need n = n + 2 + (n - 124) / 128) := by
  unfold ReserveExact.need divRoundUp
  split <;> split <;> omega

private theorem allowance_cases (free : Nat) (sectors : Int) :
    ((free ≤ 124 ∨ sectors ≤ 123) ∧ allowance free sectors = 0) ∨
    (124 < free ∧ 123 < sectors ∧ (free ≤ 253 ∨ sectors ≤ 252) ∧ allowance free sectors = 2) ∨
    (253 < free ∧ 252 < sectors ∧ allowance free sectors = 17) := by
  unfold allowance
  split
  · split <;> omega
  · omega

section Estimate

/-- As long as the free sectors are an `int`, the estimate is that of whole numbers. -/
private theorem copyInSize_eq (few : free ≤ 2147483648) (nonneg : 0 ≤ size) (high : size < 2147483648) : copyInSize free size =
    if CutShort free size then ((free : Int) - 1 - allowance free ((size + 511) / 512)) * 512 - 1 else size := by
  have sectors : (if size.tmod 512 ≠ 0 then size.tdiv 512 + 1 else size.tdiv 512) = (size + 511) / 512 := by
    rw [Int.tmod_eq_emod_of_nonneg nonneg, Int.tdiv_eq_ediv_of_nonneg nonneg]
    split <;> omega
  have allowed := allowance_cases free ((size + 511) / 512)
  simp only [copyInSize, sectors, offsetT_eq (show -2147483648 ≤ (free : Int) - 1 by omega) (by omega)]
  change (if CutShort free size then offsetT (((free : Int) - 1 - allowance free ((size + 511) / 512)) * 512 - 1) else size) = _
  split
  next short =>
    unfold CutShort at short
    exact offsetT_eq (by omega) (by omega)
  next => rfl

private theorem copyInSize_negative (few : free ≤ 2147483648) (negative : size < 0) : copyInSize free size < 0 := by
  have quotient : size.tdiv 512 ≤ 0 := by
    rw [Int.tdiv_eq_ediv, show Int.sign 512 = 1 from rfl]
    split <;> omega
  have sectors : (if size.tmod 512 ≠ 0 then size.tdiv 512 + 1 else size.tdiv 512) ≤ 1 := by split <;> omega
  simp only [copyInSize, offsetT_eq (show -2147483648 ≤ (free : Int) - 1 by omega) (by omega)]
  generalize (if size.tmod 512 ≠ 0 then size.tdiv 512 + 1 else size.tdiv 512) = sectorsTowrite at sectors ⊢
  rw [if_neg (show ¬ (123 < (free : Int) - 1 ∧ 123 < sectorsTowrite) by omega)]
  split
  · rw [offsetT_eq (by omega) (by omega)]
    omega
  · exact negative

private theorem copyInSize_le (few : free ≤ 2147483648) (nonneg : 0 ≤ size) (high : size < 2147483648) :
    copyInSize free size = size ∨ copyInSize free size < size := by
  rw [copyInSize_eq few nonneg high]
  split
  next short =>
    unfold CutShort at short
    omega
  next => exact .inl rfl

private theorem affordable_many (many : 2147483648 ≤ free) (high : size < 2147483648) : Affordable free size := by
  have whole := need_cases (((size + 1).toNat + 511) / 512)
  unfold Affordable
  omega

private theorem affordable_iff (free : Nat) (low : -2147483648 ≤ size) (high : size < 2147483648) :
    (0 ≤ copyInSize free size → Affordable free (copyInSize free size)) ↔ Trustworthy free size := by
  by_cases few : free ≤ 2147483648
  · rcases Int.lt_or_le size 0 with negative | nonneg
    · have nothing := copyInSize_negative few negative
      exact ⟨fun _ => .inl negative, fun _ made => absurd made (by omega)⟩
    have whole := need_cases ((size.toNat + 1 + 511) / 512)
    have cut := need_cases (((copyInSize free size + 1).toNat + 511) / 512)
    have allowed := allowance_cases free ((size + 511) / 512)
    rw [copyInSize_eq few nonneg high] at cut ⊢
    unfold Trustworthy Affordable
    split
    next short =>
      rw [if_pos short] at cut
      unfold CutShort at short ⊢
      omega
    next fits =>
      rw [if_neg fits] at cut
      unfold CutShort at fits ⊢
      omega
  · have range := copyInSize_range free low high
    refine ⟨fun _ => ?_, fun _ _ => affordable_many (by omega) range.2⟩
    rcases Int.lt_or_le size 0 with negative | nonneg
    · exact .inl negative
    · have fits : Affordable free size := affordable_many (by omega) high
      rw [Affordable, show (size + 1).toNat = size.toNat + 1 by omega] at fits
      exact .inr (.inl fits)

private theorem format_iff (few : free ≤ 2147483648) (nonneg : 0 ≤ size) (high : size < 2147483648) (trusted : Trustworthy free size) :
    (0 ≤ copyInSize free size → copyInSize free size + 1 ≤ 8517120) ↔ size < 8517120 ∨ free ≤ 2189 := by
  have whole := need_cases ((size.toNat + 1 + 511) / 512)
  have allowed := allowance_cases free ((size + 511) / 512)
  rw [copyInSize_eq few nonneg high]
  unfold Trustworthy CutShort at trusted
  split
  next short =>
    unfold CutShort at short
    omega
  next fits =>
    unfold CutShort at fits
    omega

/-- Bytes are missing without a warning only where the size is no `int`. -/
private theorem warned_iff (few : free ≤ 2147483648) (nonneg : 0 ≤ offsetT length) :
    (0 ≤ copyInSize free (offsetT length) →
      copyInSize free (offsetT length) = length ∨ copyInSize free (offsetT length) < offsetT length) ↔
    length < 2147483648 ∨ CutShort free (offsetT length) := by
  have high := (offsetT_range length).2
  have same : offsetT length = length ↔ length < 2147483648 :=
    ⟨fun same => by omega, fun small => offsetT_eq (by omega) (by omega)⟩
  rw [copyInSize_eq few nonneg high, ← same]
  by_cases short : CutShort free (offsetT length)
  · rw [if_pos short]
    unfold CutShort at short
    exact ⟨fun _ => .inr short, fun _ _ => .inr (by omega)⟩
  · rw [if_neg short]
    constructor
    · intro warned
      exact .inl ((warned nonneg).resolve_right (Int.lt_irrefl _))
    · rintro (same | absurd') _
      · exact .inl same
      · exact absurd absurd' short

end Estimate

section Runs
variable {fs fs' : FileSystem} {name : CString} {source : List UInt8}

/-- The size that `copy_in` works out for a host file. -/
abbrev newSize (fs : FileSystem) (source : List UInt8) : Int := copyInSize (numFreeSectors fs) (offsetT source.length)

/-- `copy_in` returns 0, and the new file has the bytes that it has room for by the estimate, and a NUL. Where bytes of the
host file are missing, there was a warning. -/
def Stores (fs : FileSystem) (name : CString) (source : List UInt8) : Prop :=
  ∃ fs' sector, copyIn name (some source) fs = some (0, fs') ∧ Named fs' name sector ∧
    contentOf fs' sector = source.take (newSize fs source).toNat ++ [0] ∧
    (newSize fs source = source.length ∨ newSize fs source < offsetT source.length)

/-- A file can be made under the name, if there is space for it. -/
structure Available (fs : FileSystem) (name : CString) : Prop where
  plain : PlainName name
  short : name.length ≤ 30
  absent : ∀ sector, ¬ Named fs name sector
  entry : ∃ (i : Nat) (e : DirEntry), (slots fs)[i]? = some e ∧ e.inUse = false

private theorem freeCount_eq : freeCount fs = numFreeSectors fs := by
  rw [numFreeSectors, bitmapCount_all]
  rfl

/-- The free map is in a file, so it is far too short for the free sectors not to be an `int`. -/
private theorem free_few (running : Running fs none) : numFreeSectors fs ≤ 2147483648 := by
  have blocks := running.volume.objects.blocks
  obtain ⟨_, inode, _, member, home, length⟩ := blocks.mapOpen
  have limit : (curData fs 0).length ≤ _ := (blocks.readable blocks.mapLive).limit
  rw [← home, blocks.handles.curData member, length] at limit
  have bytes := (byteCnt_bounds fs.freeMap.length).1
  have counted : fs.freeMap.count false ≤ fs.freeMap.length := List.count_le_length
  rw [numFreeSectors, bitmapCount_all]
  omega

private theorem stores_iff (running : Running fs none) (available : Available fs name) (made : 0 ≤ newSize fs source) :
    Stores fs name source ↔ newSize fs source + 1 ≤ 8517120 ∧ Affordable (numFreeSectors fs) (newSize fs source) ∧
      (newSize fs source = source.length ∨ newSize fs source < offsetT source.length) := by
  obtain ⟨plain, short, absent, _, _, there, unused⟩ := available
  obtain ⟨inside, nothing⟩ := rootShort_nil running.volume.objects.blocks there unused
  have few := free_few running
  have range := offsetT_range source.length
  have nonneg : 0 ≤ offsetT source.length := by
    rcases Int.lt_or_le (offsetT source.length) 0 with negative | nonneg
    · exact absurd (copyInSize_negative few negative) (Int.not_lt.mpr made)
    · exact nonneg
  have below : offsetT source.length ≤ source.length := by
    rw [offsetT, Int.bmod_def, Int.cast_ofNat_Int] at nonneg ⊢
    omega
  have fewer : newSize fs source ≤ source.length := by
    rcases copyInSize_le few nonneg range.2 with same | less
    · exact Int.le_trans (Int.le_of_eq same) below
    · exact Int.le_trans (Int.le_of_lt less) below
  have free : freeCount fs = numFreeSectors fs := freeCount_eq
  unfold Stores Affordable
  obtain ⟨size, worked_out⟩ := Int.eq_ofNat_of_zero_le made
  have needed (format : size + 1 ≤ 8517120) :
      sectorsNeeded (bytesToSectors (size + 1 : Nat)) = ReserveExact.need ((size + 1 + 511) / 512) := by
    rw [bytesToSectors_eq (Int.natCast_nonneg (size + 1)) (by omega)]
    exact sectorsNeeded_eq (by omega)
  rw [worked_out] at fewer ⊢
  rw [show ((size : Int) + 1).toNat = size + 1 from rfl]
  have entry : (36 * slotFor fs + 36 : Nat) ≤ 8517120 := by
    have limit := (running.volume.objects.blocks.readable Volume.root_live).limit
    rw [slots, slotsOf_length] at inside
    omega
  constructor
  · rintro ⟨fs', sector, ran, named, bytes, warned⟩
    have run := (copyIn_new running plain short absent worked_out (by omega)).result ran
    rcases run with ⟨absurd', _⟩ | ⟨_, middle, there, ok, done, _, running₁, fits, wrote⟩
    · cases absurd'
    have named' : Named fs' name there := named_congr wrote.slots ▸ wrote.named
    obtain rfl := wrote.running.volume.root.functional named named'
    have length := (contentOf_length wrote.running named.live).1
    rw [bytes, wrote.length, done.fresh.length] at length
    obtain rfl : ok = true := by
      cases ok with
      | true => rfl
      | false =>
        simp only [Int.toNat_natCast, List.length_append, List.length_take, List.length_singleton] at length
        rw [if_neg (by decide)] at length
        omega
    obtain ⟨format, enough⟩ := fits.mp rfl
    have format : size + 1 ≤ 8517120 := by omega
    have count := done.count
    have more := fresh_short done format
    have needed := needed format
    have wants : wanted size = sectorsNeeded (bytesToSectors size) := if_neg (by omega)
    rw [nothing, List.length_nil, wants] at count
    exact ⟨by omega, by omega, warned⟩
  · rintro ⟨format, enough, warned⟩
    have needed := needed (by omega)
    obtain ⟨_, fs', ran, rfl, sector, copied⟩ := copyIn_stored running plain short absent entry worked_out (by omega) (by omega)
      (by rw [nothing, needed, List.length_nil]; omega)
    exact ⟨fs', sector, ran, (copied.named name sector).mpr (.inr ⟨rfl, rfl⟩), copied.bytes, warned⟩

/-- What `copy_in` works out is affordable exactly where the estimate is to be trusted, for every number of free sectors
and every size of the host file. In every state of a file system in use it then stores what it says, but for a file of the
greatest size that the format allows, and but for one whose size becomes another number as an `int`. -/
theorem estimate_safe_iff (free length : Nat) :
    ((0 ≤ copyInSize free (offsetT length) → Affordable free (copyInSize free (offsetT length))) ↔
      Trustworthy free (offsetT length)) ∧
    ∀ fs name source, Running fs none → Available fs name → numFreeSectors fs = free → source.length = length →
      ((0 ≤ newSize fs source → Stores fs name source) ↔ Trustworthy free (offsetT length) ∧
        (offsetT length < 8517120 ∨ free ≤ 2189) ∧
        (length < 2147483648 ∨ offsetT length < 0 ∨ CutShort free (offsetT length))) := by
  obtain ⟨low, high⟩ := offsetT_range length
  have money := affordable_iff free low high
  refine ⟨money, fun fs name source running available count same => ?_⟩
  subst count same
  have few := free_few running
  rcases Int.lt_or_le (offsetT source.length) 0 with negative | nonneg
  · have nothing := copyInSize_negative few negative
    exact ⟨fun _ => ⟨.inl negative, .inl (by omega), .inr (.inl negative)⟩, fun _ made => absurd nothing (Int.not_lt.mpr made)⟩
  have stored (made : 0 ≤ newSize fs source) : Stores fs name source ↔ _ := stores_iff running available made
  have warned := warned_iff few nonneg
  constructor
  · intro stores
    have trusted := money.mp fun made => ((stored made).mp (stores made)).2.1
    have format := (format_iff few nonneg high trusted).mp fun made => ((stored made).mp (stores made)).1
    have loud := warned.mp fun made => ((stored made).mp (stores made)).2.2
    exact ⟨trusted, format, loud.imp_right .inr⟩
  · rintro ⟨trusted, format, loud⟩ made
    have fits := (format_iff few nonneg high trusted).mpr format made
    have loud : source.length < 2147483648 ∨ CutShort (numFreeSectors fs) (offsetT source.length) :=
      loud.imp_right fun rest => rest.resolve_left (Int.not_lt.mpr nonneg)
    exact (stored made).mpr ⟨fits, money.mpr trusted made, warned.mpr loud made⟩

end Runs

section Example
variable {fs : FileSystem} {size : Nat}

private theorem available_formatted (formatted : Formatted fs size) : Available fs [97] := by
  have unnamed := formatted.names_nil
  have many := formatted.slots_length
  exact ⟨plain_a, by decide, formatted.unnamed [97], free_slot (by rw [unnamed, many]; decide)⟩

theorem estimate_safe_small : ∃ fs, filesysInit smallDevice smallDevice_size true = some fs ∧ numFreeSectors fs = 325 ∧
    Affordable 325 (copyInSize 325 (offsetT (62000 : Nat))) ∧ Stores fs [97] [72, 105] := by
  obtain ⟨fs, ran, formatted, count⟩ := smallDevice_format
  have free : numFreeSectors fs = 325 := freeCount_eq.symm.trans count
  refine ⟨fs, ran, free, ?_, ?_⟩
  · exact (estimate_safe_iff 325 62000).1.mpr (.inr (.inl (by decide))) (by decide)
  · have exact := (estimate_safe_iff 325 2).2 fs [97] [72, 105] formatted.running (available_formatted formatted) free rfl
    exact exact.mpr ⟨.inr (.inl (by decide)), .inl (by decide), .inl (by decide)⟩ (by rw [newSize, free]; decide)

private abbrev tinyDevice : Array Block := Array.replicate 77 zeros

/-- Two sectors are left, for an inode and one sector of data. The file is made, but not the byte past its end, and
nothing of the host file is written. -/
theorem copy_in_loses : ∃ fs fs' sector, filesysInit tinyDevice (by simp) true = some fs ∧ Available fs [97] ∧
    numFreeSectors fs = 2 ∧ copyInSize 2 (offsetT (512 : Nat)) = 512 ∧ ¬ Affordable 2 512 ∧
    copyIn [97] (some (List.replicate 512 65)) fs = some (0, fs') ∧ Named fs' [97] sector ∧
    contentOf fs' sector = List.replicate 512 0 ∧ ¬ Stores fs [97] (List.replicate 512 65) := by
  obtain ⟨fs, ran, formatted⟩ := filesysInit_format (by simp : tinyDevice.size < 2 ^ 32) (formattable_small (by simp) (by simp))
  have count := formatted.count
  rw [Array.size_replicate, (mapBlocks_one (by decide) (by decide)).2, rootBlocks_eq] at count
  have free : numFreeSectors fs = 2 := by rw [← freeCount_eq]; omega
  have available := available_formatted formatted
  have short : ¬ Affordable 2 512 := by decide
  generalize source_eq : List.replicate 512 (65 : UInt8) = source
  have length : source.length = 512 := by rw [← source_eq, List.length_replicate]
  have worked_out : copyInSize (numFreeSectors fs) (offsetT source.length) = (512 : Nat) := by
    rw [free, length]
    decide
  have refused : ¬ Stores fs [97] source := by
    rw [stores_iff formatted.running available (by rw [newSize, worked_out]; decide), newSize, worked_out, free]
    exact fun stores => short stores.2.1
  obtain ⟨result, fs', copied, run⟩ := copyIn_new formatted.running plain_a (by decide) (formatted.unnamed [97]) worked_out
    (by omega)
  obtain ⟨nothing, entry⟩ := formatted.rootShort
  have wants : wanted (512 : Nat) = 1 := by
    rw [wanted_eq (by decide), sectorsNeeded_eq (by decide)]
    rfl
  rcases run with ⟨_, absurd'⟩ | ⟨rfl, middle, sector, ok, done, _, running₁, fits, wrote⟩
  · exact absurd ⟨⟨by decide, by decide, by rw [wants]; omega⟩, entry, by rw [wants, nothing, List.length_nil]; omega⟩ absurd'
  have named : Named fs' [97] sector := named_congr wrote.slots ▸ wrote.named
  obtain rfl : ok = false := by
    cases ok with
    | false => rfl
    | true =>
      obtain ⟨_, enough⟩ := fits.mp rfl
      have left := done.count
      have more := fresh_short done (show 512 + 1 ≤ 8517120 by decide)
      have one : sectorsNeeded (bytesToSectors (512 : Nat)) = 1 := sectorsNeeded_eq (by decide)
      have two : sectorsNeeded (bytesToSectors (512 + 1 : Nat)) = 2 := sectorsNeeded_eq (by decide)
      rw [wants, nothing, List.length_nil] at left
      omega
  exact ⟨fs, fs', sector, ran, available, free, by decide, short, copied, named,
    (wrote.unchanged running₁).contentOf.trans done.fresh.contentOf, refused⟩

end Example

end Comp310.Proofs.CopyInSpace
