import Comp310.Fs.DataSectors
import Comp310.Fs.Shell

/-! What `find_file`, `fragmentation_degree` and `recover(1)` find out: a round for one file or one sector, and what a pass collects. -/

namespace Comp310.Fs
open Comp310.Lib

/-- The entries in use of the root directory, but for its parent. -/
def entries (fs : FileSystem) : List DirEntry := ((slots fs).drop 1).filter (·.inUse)

variable {fs fs' : FileSystem} {state : Option (Addr × Dir)} {name : CString} {sector : Sector} {pattern : CString}

theorem names_entries (fs : FileSystem) : names fs = (entries fs).map (·.fname) := rfl

theorem entry_named {e : DirEntry} (member : e ∈ entries fs) : Named fs e.fname e.inodeSector := by
  obtain ⟨member, used⟩ := List.mem_filter.mp member
  obtain ⟨i, there⟩ := List.mem_iff_getElem?.mp member
  rw [List.getElem?_drop] at there
  exact ⟨1 + i, e, Nat.le_add_right 1 i, there, used, rfl, rfl⟩

theorem named_entry : Named fs name sector ↔ ∃ e ∈ entries fs, e.fname = name ∧ e.inodeSector = sector := by
  constructor
  · rintro ⟨i, e, low, there, used, rfl, rfl⟩
    refine ⟨e, List.mem_filter.mpr ⟨List.mem_iff_getElem?.mpr ⟨i - 1, ?_⟩, used⟩, rfl, rfl⟩
    rw [List.getElem?_drop, Nat.add_sub_cancel' low]
    exact there
  · rintro ⟨e, member, rfl, rfl⟩
    exact entry_named member

/-- The results of a pass, where the file decides that of its round. -/
theorem scan_results {β : Type} (found : CString → Sector → β) {results : List β} (length : results.length = (names fs).length)
    (all : ∀ pair ∈ (names fs).zip results, ∀ sector, Named fs pair.1 sector → pair.2 = found pair.1 sector) :
    results = (entries fs).map fun e => found e.fname e.inodeSector := by
  rw [names_entries, List.length_map] at length
  apply List.ext_getElem
  · rw [length, List.length_map]
  · intro k inside inside'
    rw [List.getElem_map]
    have here : k < (entries fs).length := by omega
    have pair : ((entries fs)[k].fname, results[k]) ∈ (names fs).zip results := by
      refine List.mem_iff_getElem.mpr ⟨k, ?_, ?_⟩
      · rw [List.length_zip, names_entries, List.length_map]
        omega
      · simp only [names_entries, List.getElem_zip, List.getElem_map]
    exact all _ pair _ (entry_named (List.getElem_mem here))

section Searching

/-- `strstr` finds a pattern wherever it is. -/
theorem strstr_iff {bytes : CString} : strstr pattern bytes = true ↔ pattern <:+: bytes := by
  induction bytes with
  | nil => rw [strstr, List.isEmpty_iff, List.infix_nil]
  | cons first rest ih => rw [strstr, Bool.or_eq_true, List.isPrefixOf_iff_prefix, ih, List.infix_cons_iff]

private theorem available_length_le (content : List UInt8) (pos : Nat) (size : Int) : (available content pos size).length ≤ content.length := by
  rw [available, List.length_take, List.length_drop]
  omega

/-- A file whose position is inside of it is searched from its start to its end. -/
theorem matchesPattern_wp (running : Running fs state) (plain : PlainName name) (named : Named fs name sector) (nonneg : 0 ≤ posOf fs name) :
    Wp (matchesPattern pattern name) (fun hit fs' => Looked fs fs' state name ∧ hit = strstr pattern (text (contentOf fs sector))) fs := by
  have root := running.volume.root
  have notRoot := (root.plain name sector named).2.2.2
  obtain ⟨length, limit⟩ := contentOf_length running named.live
  have inside : -2147483648 ≤ (0 : Int) ∧ (0 : Int) < 2147483648 := by decide
  rw [matchesPattern, wp_bind]
  refine (fsutilSize_there running plain named).mono fun size fs₁ ended => ?_
  obtain ⟨looked₁, pos, sized⟩ := ended
  rw [if_neg (by omega), wp_bind]
  refine (fsutilRead_wp looked₁.running plain (by omega) _).mono fun before fs₂ ended => ?_
  obtain ⟨looked₂, read⟩ := ended
  have short : before.2.length ≤ (contentOf fs sector).length := by
    rcases read with ⟨rfl, _⟩ | ⟨there, bytes, named', available_eq, rfl, _⟩
    · exact Nat.zero_le _
    · obtain rfl := root.functional named (looked₁.named ▸ named' : Named fs name there)
      have bound := available_length_le (contentOf fs₁ sector) (posOf fs₁ name).toNat (offsetT (size % 4294967296).toNat)
      rw [← available_eq, looked₁.content notRoot] at bound
      exact bound
  have looked₂ := looked₁.trans looked₂
  rw [wp_bind]
  refine (fsutilSeek_wp looked₂.running plain inside.1 inside.2).mono fun _ fs₃ ended => ?_
  obtain ⟨looked₃, moved⟩ := ended
  have looked₃ := looked₂.trans looked₃
  have start : posOf fs₃ name = 0 := by
    rcases moved with ⟨_, absent, _⟩ | ⟨_, _, pos⟩
    · exact absurd (looked₂.named ▸ named) (absent sector)
    · exact pos
  have data : curData fs₃ sector = curData fs sector := looked₃.data _ notRoot
  have named₃ : Named fs₃ name sector := looked₃.named ▸ named
  rw [wp_bind]
  refine (fsutilRead_whole looked₃.running plain named₃ start (by rw [sized, data])).mono fun result fs₄ ended => ?_
  obtain ⟨whole, looked₄, _⟩ := ended
  refine (wp_pure _).mpr ⟨looked₃.trans looked₄, ?_⟩
  rw [whole, looked₃.content notRoot, List.drop_of_length_le short, List.append_nil]

end Searching

section Fragments

theorem scattered_iff {sectors : List Sector} : scattered sectors = true ↔ ∃ i place next, sectors[i]? = some place ∧ sectors[i + 1]? = some next ∧
    3 < next - place ∧ next ≠ 0 := by
  induction sectors with
  | nil => exact iff_of_false Bool.false_ne_true fun ⟨i, place, _, there, _⟩ => absurd there (Option.some_ne_none place).symm
  | cons first rest ih =>
    cases rest with
    | nil => exact iff_of_false Bool.false_ne_true fun ⟨i, _, next, _, there, _⟩ => absurd there (Option.some_ne_none next).symm
    | cons second rest =>
      rw [scattered, Bool.or_eq_true, Bool.and_eq_true, decide_eq_true_iff, bne_iff_ne, ih]
      constructor
      · rintro (⟨far, nonzero⟩ | ⟨i, place, next, here, there, jump⟩)
        · exact ⟨0, first, second, rfl, rfl, far, nonzero⟩
        · exact ⟨i + 1, place, next, here, there, jump⟩
      · rintro ⟨i, place, next, here, there, jump⟩
        cases i with
        | zero =>
          cases here
          cases there
          exact .inl jump
        | succ i => exact .inr ⟨i, place, next, here, there, jump⟩

/-- What a round of `fragmentation_degree` says of a file. -/
def fragmented (fs : FileSystem) (sector : Sector) : Option Bool :=
  if 512 < (curData fs sector).length then
    some (scattered (sectorsFrom fs.disk.view (curData fs sector) 0 (bytesToSectors (curData fs sector).length)))
  else none

theorem fragmentation_wp (running : Running fs state) (named : Named fs name sector) :
    Wp (fragmentation name) (fun result fs' => Looked fs fs' state name ∧ result = fragmented fs sector) fs := by
  have root := running.volume.root
  obtain ⟨plain, _, _, notRoot⟩ := root.plain name sector named
  rw [fragmentation, wp_bind]
  refine (filesysOpen_wp running.volume running.session plain).mono fun found fs₁ ended => ?_
  obtain ⟨calm, session, missing, opened⟩ := ended
  have looked₁ : Looked fs fs₁ state name := calm.looked running session
  cases found with
  | none => exact absurd named (missing rfl sector)
  | some f =>
    obtain ⟨_, there, named', open₁⟩ := opened f rfl
    obtain rfl := root.functional named named'
    dsimp only
    rw [wp_bind]
    refine (fsutilSize_there looked₁.running plain (looked₁.named ▸ named)).mono fun size fs₂ ended => ?_
    obtain ⟨looked₂, _, sized⟩ := ended
    have open₂ := looked₂.opens _ _ notRoot open₁
    have looked₂ := looked₁.trans looked₂
    rw [wp_bind]
    refine (fsutilSize_there looked₂.running plain (looked₂.named ▸ named)).mono fun size' fs₃ ended => ?_
    obtain ⟨looked₃, _, sized'⟩ := ended
    obtain ⟨node, found, data, readable⟩ := (looked₃.opens _ _ notRoot open₂).found looked₃.running
    have looked₃ := looked₂.trans looked₃
    rw [looked₁.data _ notRoot] at sized
    rw [looked₂.data _ notRoot] at sized'
    rw [looked₃.data _ notRoot] at data
    have nonneg := readable.nonneg
    have limit := readable.limit
    have count := bytesToSectors_eq nonneg (by omega)
    rw [data] at nonneg limit count
    have toRead : (if size.tmod 512 ≠ 0 then size'.tdiv 512 + 1 else size'.tdiv 512) = (bytesToSectors (curData fs sector).length : Int) := by
      rw [sized, sized', count, Int.tmod_eq_emod_of_nonneg nonneg, Int.tdiv_eq_ediv_of_nonneg nonneg]
      split <;> omega
    rw [toRead, fragmented]
    by_cases more : 512 < (curData fs sector).length
    · rw [if_pos (by omega), if_pos more, wp_bind]
      refine Wp.of_eq (getInode_eq found) ?_
      rw [wp_bind]
      refine Wp.of_eq (getInodeDataSectors_eq readable) ?_
      dsimp only
      rw [data, looked₃.store.disk, sectorsFrom_length, if_neg (Int.lt_irrefl _), Int.toNat_natCast,
        List.take_of_length_le (Nat.le_of_eq sectorsFrom_length)]
      exact (wp_pure _).mpr ⟨looked₃, rfl⟩
    · rw [if_neg (by omega), if_neg more]
      exact (wp_pure _).mpr ⟨looked₃, rfl⟩

end Fragments

section Sectors

theorem decimal_inj {m n : Nat} (same : decimal m = decimal n) : m = n := by
  have back (k : Nat) : (decimal k).map (fun byte => Char.ofNat byte.toNat) = Nat.toDigits 10 k := by
    rw [decimal, List.map_map]
    refine (List.map_congr_left fun c member => ?_).trans (List.map_id _)
    have digit := Nat.isDigit_of_mem_toDigits (by decide) (by decide) member
    have small : c.toNat < 256 := by
      have bounds := Char.isDigit_iff_toNat.mp digit
      rw [show '9'.toNat = 57 from rfl] at bounds
      omega
    rw [Function.comp_apply, UInt8.toNat_ofNat_of_lt' small, Char.ofNat_toNat]
    rfl
  have digits : Nat.toDigits 10 m = Nat.toDigits 10 n := by rw [← back, same, back]
  rw [← Nat.ofDigitChars_ten_toDigits (n := m), digits, Nat.ofDigitChars_ten_toDigits]

def exportName (i : Nat) : CString := cstring "recovered1-" ++ decimal i ++ cstring ".txt"

theorem exportName_fits {i : Nat} : (exportName i).length < 18 ↔ i < 100 := by
  have digits : (decimal i).length ≤ 2 ↔ i < 100 := by
    rw [decimal, List.length_map]
    exact Nat.length_toDigits_le_iff (by decide) (by decide)
  rw [exportName, List.length_append, List.length_append, show (cstring "recovered1-").length = 11 from rfl,
    show (cstring ".txt").length = 4 from rfl, ← digits]
  omega

/-- The sectors from `i` on that are exported. -/
def exported (fs : FileSystem) (i left : Nat) : List Nat :=
  (List.range' i left).filter fun i => bitmapTest fs.freeMap i && (fs.disk.view (UInt32.ofNat i)).toList.any (· != 0)

private theorem exported_succ (i left : Nat) : exported fs i (left + 1) =
    (if bitmapTest fs.freeMap i && (fs.disk.view (UInt32.ofNat i)).toList.any (· != 0) then [i] else []) ++ exported fs (i + 1) left := by
  rw [exported, List.range'_succ, List.filter_cons]
  split <;> rfl

private theorem export_printed (fs : FileSystem) {i : Nat} (small : i < 100) :
    sprintf 18 (cstring "recovered1-" ++ decimal i ++ cstring ".txt") fs = some (exportName i, fs) := by
  rw [sprintf]
  exact congrFun (if_pos (exportName_fits.mpr small)) fs

theorem recoverSectors_run (size : fs.freeMap.length ≤ fs.disk.size) (i left : Nat) (inside : i + left ≤ fs.freeMap.length)
    (small : ∀ j, i ≤ j → j < i + left → bitmapTest fs.freeMap j = true → j < 100) :
    recoverSectors i left fs = some ((exported fs i left).map fun i => (exportName i, text (fs.disk.view (UInt32.ofNat i)).toList), fs) := by
  induction left generalizing i with
  | zero => rfl
  | succ left ih =>
    have now : (get : M FileSystem) fs = some (fs, fs) := rfl
    have rest := ih (i + 1) (by omega) fun j low high => small j (by omega) (by omega)
    rw [recoverSectors, run_bind now, exported_succ]
    dsimp only
    cases marked : bitmapTest fs.freeMap i with
    | false =>
      rw [if_neg Bool.false_ne_true, Bool.false_and, if_neg Bool.false_ne_true, List.nil_append, pure_bind, run_bind rest]
      rfl
    | true =>
      have printed := export_printed fs (small i (Nat.le_refl i) (by omega) marked)
      have number : (UInt32.ofNat i).toNat = i := UInt32.toNat_ofNat_of_lt' (Nat.lt_trans (show i < fs.disk.size by omega) fs.disk.size_lt)
      have read := bufferCacheRead_eq (show (UInt32.ofNat i).toNat < fs.disk.size by omega)
      rw [if_pos rfl, run_bind printed, run_bind read, pure_bind, run_bind rest, Bool.true_and]
      split <;> rfl

theorem recoverSectors_fault (size : fs.freeMap.length ≤ fs.disk.size) (i left : Nat) (inside : i + left ≤ fs.freeMap.length)
    (late : ∃ j, i ≤ j ∧ j < i + left ∧ 100 ≤ j ∧ bitmapTest fs.freeMap j = true) : recoverSectors i left fs = none := by
  induction left generalizing i with
  | zero =>
    obtain ⟨j, low, high, _⟩ := late
    omega
  | succ left ih =>
    have now : (get : M FileSystem) fs = some (fs, fs) := rfl
    rw [recoverSectors, run_bind now]
    dsimp only
    have rest (ahead : ¬ (100 ≤ i ∧ bitmapTest fs.freeMap i = true)) : recoverSectors (i + 1) left fs = none := by
      obtain ⟨j, low, high, large, set⟩ := late
      have differs : j ≠ i := by
        rintro rfl
        exact ahead ⟨large, set⟩
      exact ih (i + 1) (by omega) ⟨j, by omega, by omega, large, set⟩
    cases marked : bitmapTest fs.freeMap i with
    | false =>
      rw [if_neg Bool.false_ne_true, pure_bind]
      exact run_bind_fault (rest (by rw [marked]; exact fun both => Bool.false_ne_true both.2)) _
    | true =>
      rw [if_pos rfl]
      by_cases small : i < 100
      · have number : (UInt32.ofNat i).toNat = i := UInt32.toNat_ofNat_of_lt' (Nat.lt_trans (show i < fs.disk.size by omega) fs.disk.size_lt)
        have read := bufferCacheRead_eq (show (UInt32.ofNat i).toNat < fs.disk.size by omega)
        rw [run_bind (export_printed fs small), run_bind read, pure_bind]
        exact run_bind_fault (rest fun both => by omega) _
      · refine run_bind_fault ?_ _
        rw [sprintf]
        exact congrFun (if_neg fun fits => small (exportName_fits.mp fits)) fs

end Sectors

end Comp310.Fs
