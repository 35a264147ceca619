import Mathlib.Data.List.Nodup
import Comp310.Fs.Reports

/-! What the commands that look at all files, or at all sectors, report. -/

namespace Comp310.Proofs.Reports
open Comp310.Fs Comp310.Lib

variable {fs fs' : FileSystem} {name : CString} {sector : Sector}

section Example

/-- A device of 100 sectors. -/
abbrev device : Array Block := Array.replicate 100 zeros

theorem device_size : device.size < 2 ^ 32 := by simp

private theorem file_written : ∃ start created fs sector, filesysInit device device_size true = some start ∧
    fsutilCreate [97] 5 start = some (1, created) ∧ fsutilWrite [97] [98, 99, 100, 0, 0] created = some (5, fs) ∧ Running fs none ∧
    (∀ name other, Named fs name other ↔ name = [97] ∧ other = sector) ∧ contentOf fs sector = [98, 99, 100, 0, 0] ∧ posOf fs [97] = 3 ∧
    fs.freeMap.length = 99 ∧ 74 ≤ (blockAt fs.disk.view (curData fs sector) (.data 0)).toNat := by
  obtain ⟨start, ran, formatted⟩ := filesysInit_format device_size (formattable_small (by simp) (by simp))
  obtain ⟨_, packed⟩ := filesysInit_packed device_size ran
  have count := formatted.count
  have whole := formatted.whole
  have total := usedCount_add start
  rw [Array.size_replicate] at whole
  rw [Array.size_replicate, (mapBlocks_one (by decide) (by decide)).2, rootBlocks_eq] at count
  have one : wanted (5 : Nat) = 1 := by
    rw [wanted_eq (by decide)]
    exact sectorsNeeded_eq (by decide)
  obtain ⟨_, created, made, rfl, done⟩ := formatted.filesysCreate_wp plain_a (by decide)
    (show FileFits start (5 : Nat) from ⟨by decide, by decide, by omega⟩)
  have returned : fsutilCreate [97] 5 start = some (1, created) := by
    rw [fsutilCreate, if_neg (by decide), offsetT_eq (by decide) (by decide)]
    exact run_bind made _
  have running := done.running formatted.running
  have table := done.keeps.fileTable.trans formatted.fileTable
  obtain ⟨sector, done⟩ := done.done rfl
  have named : Named created [97] sector := (done.named [97] sector).mpr (.inr ⟨rfl, rfl⟩)
  have first : posOf created [97] = 0 := by
    rw [posOf, table]
    rfl
  have readable := running.volume.objects.blocks.readable named.live
  have length := done.fresh.length
  let buffer : List UInt8 := [98, 99, 100, 0, 0]
  have five : buffer.length = 5 := rfl
  obtain ⟨written, fs, wrote, ⟨_, absent, _⟩ | ⟨sector', ok, fits, counted, outcome, pos⟩⟩ :=
    fsutilWrite_wp running plain_a (show 0 < buffer.length by decide) (by omega) (by omega)
  · exact absurd named (absent sector)
  obtain rfl := running.volume.root.functional named outcome.named
  obtain rfl : ok = true := by
    rw [fits, first, five]
    exact fits_inside readable (Int.le_of_eq length.symm)
  rw [if_pos rfl, five] at counted
  subst counted
  rw [first] at pos
  have content := outcome.contentOf running (by decide)
  rw [first, show Int.toNat 0 = 0 from rfl, done.fresh.contentOf, overwrite_all (by decide)] at content
  have present : blockAt created.disk.view (curData created sector) (.data 0) ≠ 0 := readable.mapped _ (by rw [length]; decide)
  have new := done.unused (some (.data 0)) (filled_place.mpr present)
  refine ⟨start, created, fs, sector, ran, returned, wrote, outcome.running, fun name other => ?_, content, pos,
    outcome.size.trans (done.length.trans whole), ?_⟩
  · rw [named_congr outcome.slots, done.named]
    exact or_iff_right (formatted.unnamed name other)
  · rw [outcome.grows.keep _ present]
    rw [packed.used_iff] at new
    have far := Nat.not_lt.mp new
    change _ ≤ (blockAt created.disk.view (curData created sector) (.data 0)).toNat at far
    omega

end Example

section Searching

/-- Before the rounds for `rest` no position is before the start of its file. -/
private structure Ahead (rest : List CString) (table : List (CString × File)) : Prop where
  once : rest.Nodup
  nonneg : ∀ name ∈ rest, 0 ≤ (table.lookup name).elim 0 File.pos

private theorem findFile_run (running : Running fs none) (pattern : CString) (inside : ∀ name sector, Named fs name sector → 0 ≤ posOf fs name) :
    Wp (findFile pattern) (fun found fs' => Browsed fs fs' none ∧
      found = ((entries fs).filter fun e => strstr pattern (text (contentOf fs e.inodeSector))).map (·.fname)) fs := by
  have root := running.volume.root
  have all : Ahead (names fs) fs.fileTable := by
    refine ⟨root.names_nodup, fun name member => ?_⟩
    obtain ⟨sector, named⟩ := mem_names.mp member
    exact inside name sector named
  rw [findFile, wp_bind]
  refine (scanRoot_through (fun name result => ∀ sector, Named fs name sector →
    result = (name, strstr pattern (text (contentOf fs sector)))) Ahead running all
    fun fs₁ dir d name rest browsed member ahead => .inl ?_).total.mono fun results fs' ended => (wp_pure _).mpr ⟨ended.2, ?_⟩
  · obtain ⟨sector, named⟩ := mem_names.mp member
    obtain ⟨plain, _, _, notRoot⟩ := root.plain name sector named
    obtain ⟨fresh, once⟩ := List.nodup_cons.mp ahead.once
    rw [wp_bind]
    refine (matchesPattern_wp browsed.running plain (browsed.named ▸ named) (ahead.nonneg name List.mem_cons_self)).mono fun hit fs₂ outcome => ?_
    obtain ⟨looked, hit_eq⟩ := outcome
    refine (wp_pure _).mpr ⟨browsed.trans looked.browsed, fun other named' => ?_, once, fun other member => ?_⟩
    · obtain rfl := root.functional named named'
      rw [hit_eq, (browsed.alike notRoot).contentOf]
    · have differs : other ≠ name := fun same => fresh (same ▸ member)
      have pos := ahead.nonneg other (List.mem_cons_of_mem _ member)
      rwa [← looked.others other differs] at pos
  · obtain ⟨⟨⟨length, all⟩, _⟩, _⟩ := ended
    have results_eq := scan_results (fun name sector => (name, strstr pattern (text (contentOf fs sector)))) length all
    rw [results_eq, List.filter_map, List.map_map]
    rfl

/-- A search finds the files that have the pattern before their first NUL, each once and in the order of the directory. -/
theorem search_finds (running : Running fs none) (inside : ∀ name sector, Named fs name sector → 0 ≤ posOf fs name) (pattern : CString) :
    ∃ found fs', findFile pattern fs = some (found, fs') ∧ found.Sublist (names fs) ∧
      ∀ name, name ∈ found ↔ ∃ sector, Named fs name sector ∧ pattern <:+: text (contentOf fs sector) := by
  obtain ⟨found, fs', ran, _, rfl⟩ := findFile_run running pattern inside
  refine ⟨_, fs', ran, (List.filter_sublist).map _, fun name => ?_⟩
  rw [List.mem_map]
  constructor
  · rintro ⟨e, member, rfl⟩
    obtain ⟨there, hit⟩ := List.mem_filter.mp member
    exact ⟨e.inodeSector, entry_named there, strstr_iff.mp hit⟩
  · rintro ⟨sector, named, hit⟩
    obtain ⟨e, there, rfl, rfl⟩ := named_entry.mp named
    exact ⟨e, List.mem_filter.mpr ⟨there, strstr_iff.mpr hit⟩, rfl⟩

/-- The text `bcd` has `cd` in it, and not `ca`. -/
theorem search_finds_file : ∃ start created fs first second, filesysInit device device_size true = some start ∧
    fsutilCreate [97] 5 start = some (1, created) ∧ fsutilWrite [97] [98, 99, 100, 0, 0] created = some (5, fs) ∧
    findFile [99, 100] fs = some ([[97]], first) ∧ findFile [99, 97] fs = some ([], second) := by
  obtain ⟨start, created, fs, sector, ran, made, wrote, running, named, content, pos, _, _⟩ := file_written
  have inside (name : CString) (other : Sector) (there : Named fs name other) : 0 ≤ posOf fs name := by
    rw [((named name other).mp there).1, pos]
    decide
  have here : Named fs [97] sector := (named _ _).mpr ⟨rfl, rfl⟩
  obtain ⟨found, first, found_run, listed, hits⟩ := search_finds running inside [99, 100]
  obtain ⟨none, second, none_run, _, misses⟩ := search_finds running inside [99, 97]
  have hit : [97] ∈ found := (hits [97]).mpr ⟨sector, here, by rw [content]; decide⟩
  have only : found = [[97]] := by
    refine List.perm_singleton.mp ((List.perm_ext_iff_of_nodup (running.volume.root.names_nodup.sublist listed) (List.nodup_singleton _)).mpr fun name => ?_)
    refine ⟨fun member => ?_, fun same => List.mem_singleton.mp same ▸ hit⟩
    obtain ⟨other, there, _⟩ := (hits name).mp member
    exact List.mem_singleton.mpr ((named name other).mp there).1
  have nothing : none = [] := by
    refine List.eq_nil_iff_forall_not_mem.mpr fun name member => ?_
    obtain ⟨other, there, hit⟩ := (misses name).mp member
    rw [((named name other).mp there).2, content] at hit
    exact absurd hit (by decide)
  exact ⟨start, created, fs, first, second, ran, made, wrote, only ▸ found_run, nothing ▸ none_run⟩

end Searching

section Fragments

/-- From one data sector to the next it is more than three sectors, or back. -/
def Jumps (fs : FileSystem) (sector : Sector) : Prop :=
  ∃ i, i + 1 < bytesToSectors (curData fs sector).length ∧
    ¬ ((blockAt fs.disk.view (curData fs sector) (.data i)).toNat ≤ (blockAt fs.disk.view (curData fs sector) (.data (i + 1))).toNat ∧
      (blockAt fs.disk.view (curData fs sector) (.data (i + 1))).toNat ≤ (blockAt fs.disk.view (curData fs sector) (.data i)).toNat + 3)

private theorem results_counted {α : Type} (items : List α) (result : α → Option Bool) :
    ((items.map result).filterMap id).count true = (items.filter fun item => result item == some true).length ∧
      ((items.map result).filterMap id).length = (items.filter fun item => (result item).isSome).length := by
  induction items with
  | nil => exact ⟨rfl, rfl⟩
  | cons item rest ih =>
    obtain ⟨hits, results⟩ := ih
    rw [List.map_cons, List.filter_cons, List.filter_cons]
    rcases result item with _ | _ | _
    · exact ⟨hits, results⟩
    · exact ⟨hits, congrArg (· + 1) results⟩
    · exact ⟨(List.count_cons_self).trans (congrArg (· + 1) hits), congrArg (· + 1) results⟩

theorem fragmented_iff (running : Running fs none) (live : Live fs sector) : fragmented fs sector = some true ↔ Jumps fs sector := by
  have blocks := running.volume.objects.blocks
  have sound := blocks.sound sector live
  have limit := sound.limit
  have count := bytesToSectors_eq sound.nonneg (by omega)
  have place (i : Nat) (inside : i < bytesToSectors (curData fs sector).length) :
      blockAt fs.disk.view (curData fs sector) (.data i) ≠ 0 ∧ (blockAt fs.disk.view (curData fs sector) (.data i)).toNat < 4294967294 := by
    have present : blockAt fs.disk.view (curData fs sector) (.data i) ≠ 0 := sound.mapped _ (by rw [data_first (by omega)]; omega)
    have used : Used fs (blockAt fs.disk.view (curData fs sector) (.data i)) := blocks.used (sector, some (.data i)) live (filled_place.mpr present)
    have inRange := used.inRange
    have size := blocks.size
    have bound := fs.disk.size_lt
    exact ⟨present, by omega⟩
  have listed (i : Nat) (inside : i < bytesToSectors (curData fs sector).length) :
      (sectorsFrom fs.disk.view (curData fs sector) 0 (bytesToSectors (curData fs sector).length))[i]? =
        some (blockAt fs.disk.view (curData fs sector) (.data i)) := by
    rw [List.getElem?_eq_getElem (by rwa [sectorsFrom_length]), sectorsFrom_getElem, Nat.zero_add]
  have far (i : Nat) (inside : i + 1 < bytesToSectors (curData fs sector).length) :
      3 < blockAt fs.disk.view (curData fs sector) (.data (i + 1)) - blockAt fs.disk.view (curData fs sector) (.data i) ↔
        ¬ ((blockAt fs.disk.view (curData fs sector) (.data i)).toNat ≤ (blockAt fs.disk.view (curData fs sector) (.data (i + 1))).toNat ∧
          (blockAt fs.disk.view (curData fs sector) (.data (i + 1))).toNat ≤ (blockAt fs.disk.view (curData fs sector) (.data i)).toNat + 3) := by
    obtain ⟨_, high⟩ := place i (by omega)
    obtain ⟨present, high'⟩ := place (i + 1) inside
    have low : 0 < (blockAt fs.disk.view (curData fs sector) (.data (i + 1))).toNat :=
      Nat.pos_of_ne_zero fun zero => present (UInt32.toNat_inj.mp zero)
    generalize blockAt fs.disk.view (curData fs sector) (.data i) = place at high
    generalize blockAt fs.disk.view (curData fs sector) (.data (i + 1)) = next at high' low
    rw [UInt32.lt_iff_toNat_lt, UInt32.toNat_sub, show (3 : UInt32).toNat = 3 from rfl]
    omega
  rw [fragmented]
  by_cases more : 512 < (curData fs sector).length
  · rw [if_pos more, Option.some.injEq, scattered_iff]
    constructor
    · rintro ⟨i, place', next, here, there, jump, nonzero⟩
      have inside := (List.getElem?_eq_some_iff.mp there).1
      rw [sectorsFrom_length] at inside
      cases (listed i (by omega)).symm.trans here
      cases (listed (i + 1) inside).symm.trans there
      exact ⟨i, inside, (far i inside).mp jump⟩
    · rintro ⟨i, inside, jump⟩
      exact ⟨i, _, _, listed i (by omega), listed (i + 1) inside, (far i inside).mpr jump, (place (i + 1) inside).1⟩
  · rw [if_neg more]
    refine iff_of_false (fun none => absurd none.symm (Option.some_ne_none _)) ?_
    rintro ⟨i, inside, -⟩
    omega

private theorem fragmentationDegree_run (running : Running fs none) :
    Wp fragmentationDegree (fun counts _ => counts = (((entries fs).filter fun e => fragmented fs e.inodeSector == some true).length,
      ((entries fs).filter fun e => (fragmented fs e.inodeSector).isSome).length)) fs := by
  have root := running.volume.root
  rw [fragmentationDegree, wp_bind]
  refine (scanRoot_unless (fun name result => ∀ sector, Named fs name sector → result = fragmented fs sector) running
    fun fs₁ dir d name browsed member => .inl ?_).total.mono fun results fs' ended => (wp_pure _).mpr ?_
  · obtain ⟨sector, named⟩ := mem_names.mp member
    have notRoot := (root.plain name sector named).2.2.2
    refine (fragmentation_wp browsed.running (browsed.named ▸ named)).mono fun result fs₂ outcome => ⟨browsed.trans outcome.1.browsed, fun other named' => ?_⟩
    obtain rfl := root.functional named named'
    rw [outcome.2, fragmented, browsed.data _ notRoot, browsed.store.disk, fragmented]
  · obtain ⟨⟨length, all⟩, _⟩ := ended
    have results_eq := scan_results (fun _ sector => fragmented fs sector) length all
    obtain ⟨hits, files⟩ := results_counted (entries fs) fun e => fragmented fs e.inodeSector
    rw [results_eq, hits, files]

/-- The degree of fragmentation counts the files of more than one sector, and among them those with a jump: more than three sectors on, or any number
back. -/
theorem fragments_counted (running : Running fs none) : ∃ (apart long : List CString) (fs' : FileSystem),
    fragmentationDegree fs = some ((apart.length, long.length), fs') ∧ apart.Sublist long ∧ long.Sublist (names fs) ∧
      (∀ name, name ∈ long ↔ ∃ sector, Named fs name sector ∧ 512 < (curData fs sector).length) ∧
      ∀ name, name ∈ apart ↔ ∃ sector, Named fs name sector ∧ Jumps fs sector := by
  obtain ⟨_, fs', ran, rfl⟩ := fragmentationDegree_run running
  have member (holds : Sector → Bool) (name : CString) : name ∈ ((entries fs).filter fun e => holds e.inodeSector).map (·.fname) ↔
      ∃ sector, Named fs name sector ∧ holds sector = true := by
    rw [List.mem_map]
    constructor
    · rintro ⟨e, there, rfl⟩
      obtain ⟨there, held⟩ := List.mem_filter.mp there
      exact ⟨e.inodeSector, entry_named there, held⟩
    · rintro ⟨sector, named, held⟩
      obtain ⟨e, there, rfl, rfl⟩ := named_entry.mp named
      exact ⟨e, List.mem_filter.mpr ⟨there, held⟩, rfl⟩
  have part : (entries fs).filter (fun e => fragmented fs e.inodeSector == some true) =
      ((entries fs).filter fun e => (fragmented fs e.inodeSector).isSome).filter fun e => fragmented fs e.inodeSector == some true := by
    rw [List.filter_filter]
    refine List.filter_congr fun e _ => ?_
    rcases fragmented fs e.inodeSector with _ | _ | _ <;> rfl
  refine ⟨((entries fs).filter fun e => fragmented fs e.inodeSector == some true).map (·.fname),
    ((entries fs).filter fun e => (fragmented fs e.inodeSector).isSome).map (·.fname), fs', ?_, ?_, List.filter_sublist.map _, fun name => ?_, fun name => ?_⟩
  · rw [ran, List.length_map, List.length_map]
  · rw [part]
    exact List.filter_sublist.map _
  · refine (member (fun sector => (fragmented fs sector).isSome) name).trans (exists_congr fun sector => and_congr_right fun _ => ?_)
    rw [fragmented]
    split
    next more => exact iff_of_true rfl more
    next more => exact iff_of_false Bool.false_ne_true more
  · refine (member (fun sector => fragmented fs sector == some true) name).trans (exists_congr fun sector => and_congr_right fun named => ?_)
    rw [beq_iff_eq]
    exact fragmented_iff running named.live

theorem fragments_counted_file : ∃ (fs : FileSystem) (apart long : List CString) (fs' : FileSystem),
    fragmentationDegree fs = some ((apart.length, long.length), fs') ∧ apart.Sublist long ∧ [97] ∈ long := by
  have two : wanted (600 : Nat) = 2 := by
    rw [wanted_eq (by decide)]
    exact sectorsNeeded_eq (by decide)
  obtain ⟨_, fs, sector, -, -, -, -, done, running, -⟩ := smallDevice_create (show 600 ≤ 8517120 by decide) (by rw [two]; decide)
  obtain ⟨apart, long, fs', ran, sub, -, all, -⟩ := fragments_counted running
  refine ⟨fs, apart, long, fs', ran, sub, (all [97]).mpr ⟨sector, (done.named _ _).mpr (.inr ⟨rfl, rfl⟩), ?_⟩⟩
  rw [done.fresh.length]
  decide

end Fragments

section Sectors

theorem marked_iff (running : Running fs none) {i : Nat} : bitmapTest fs.freeMap i = true ↔
    i < fs.freeMap.length ∧ Used fs (UInt32.ofNat i) ∧ (UInt32.ofNat i).toNat = i := by
  have size := running.volume.objects.blocks.size
  have bound := fs.disk.size_lt
  rw [bitmapTest, List.getD_eq_getElem?_getD, Used]
  constructor
  · intro set
    by_cases inside : i < fs.freeMap.length
    · have number : (UInt32.ofNat i).toNat = i := UInt32.toNat_ofNat_of_lt' (Nat.lt_trans (show i < fs.disk.size by omega) bound)
      rw [List.getElem?_eq_getElem inside, Option.getD_some] at set
      exact ⟨inside, by rw [number, List.getElem?_eq_getElem inside, set], number⟩
    · rw [List.getElem?_eq_none (Nat.not_lt.mp inside)] at set
      cases set
  · rintro ⟨_, used, number⟩
    rw [number] at used
    rw [used, Option.getD_some]

theorem filled_iff {block : Block} : block.toList.any (· != 0) = true ↔ block ≠ zeros := by
  constructor
  · rintro found rfl
    obtain ⟨byte, member, nonzero⟩ := List.any_eq_true.mp found
    rw [zeros, Vector.toList_replicate, List.mem_replicate] at member
    rw [member.2] at nonzero
    cases nonzero
  · intro filled
    apply Classical.byContradiction
    intro none
    refine filled (Vector.ext fun i inside => ?_)
    have zero : block[i] = 0 := by
      apply Classical.byContradiction
      intro nonzero
      exact none (List.any_eq_true.mpr ⟨block[i], Vector.mem_toList_iff.mpr (Vector.getElem_mem inside), bne_iff_ne.mpr nonzero⟩)
    rw [zero, zeros, Vector.getElem_replicate]

/-- Every sector in use from 4 on that is not blank is exported up to its first NUL, each under a name of its own, as long as no sector in use has a number
of three digits: its name does not fit the array that it is printed to. -/
theorem sectors_exported (running : Running fs none) :
    ((∃ sector, Used fs sector ∧ 100 ≤ sector.toNat) → recover 1 fs = none) ∧
      ((∀ sector, Used fs sector → sector.toNat < 100) → ∃ files, recover 1 fs = some (files, fs) ∧ (files.map Prod.fst).Nodup ∧
        ∀ name bytes, (name, bytes) ∈ files ↔ ∃ sector, 4 ≤ sector.toNat ∧ Used fs sector ∧ fs.disk.view sector ≠ zeros ∧
          name = exportName sector.toNat ∧ bytes = text (fs.disk.view sector).toList) := by
  have size := running.volume.objects.blocks.size
  have within : fs.freeMap.length ≤ fs.disk.size := by omega
  have now : (get : M FileSystem) fs = some (fs, fs) := rfl
  have back (sector : Sector) (used : Used fs sector) : bitmapTest fs.freeMap sector.toNat = true :=
    (marked_iff running).mpr ⟨used.inRange, by rwa [UInt32.ofNat_toNat], by rw [UInt32.ofNat_toNat]⟩
  have loop : recover 1 fs = recoverSectors 4 (fs.freeMap.length - 4) fs := by
    rw [recover, run_bind now, if_neg (by decide), if_pos rfl]
  constructor
  · rintro ⟨sector, used, large⟩
    have inRange := used.inRange
    rw [loop]
    exact recoverSectors_fault within _ _ (by omega) ⟨sector.toNat, by omega, by omega, large, back sector used⟩
  · intro small
    by_cases few : fs.freeMap.length < 4
    · refine ⟨[], ?_, List.nodup_nil, fun name bytes => ⟨fun member => absurd member List.not_mem_nil, ?_⟩⟩
      · rw [loop, show fs.freeMap.length - 4 = 0 by omega]
        rfl
      · rintro ⟨sector, late, used, _⟩
        have inRange := used.inRange
        omega
    have all := recoverSectors_run within 4 (fs.freeMap.length - 4) (by omega) fun j _ _ set => by
      obtain ⟨_, used, number⟩ := (marked_iff running).mp set
      rw [← number]
      exact small _ used
    refine ⟨_, loop.trans all, ?_, fun name bytes => ?_⟩
    · rw [List.map_map]
      refine List.Nodup.map (fun i j same => ?_) ((List.nodup_range' 1).filter _ : (exported fs 4 (fs.freeMap.length - 4)).Nodup)
      exact decimal_inj (List.append_cancel_left (List.append_cancel_right same))
    · rw [List.mem_map]
      constructor
      · rintro ⟨i, member, same⟩
        cases same
        obtain ⟨range, found⟩ := List.mem_filter.mp member
        obtain ⟨set, filled⟩ := Bool.and_eq_true_iff.mp found
        obtain ⟨_, used, number⟩ := (marked_iff running).mp set
        refine ⟨UInt32.ofNat i, ?_, used, filled_iff.mp filled, by rw [number], rfl⟩
        rw [number]
        exact (List.mem_range'_1.mp range).1
      · rintro ⟨sector, late, used, filled, rfl, rfl⟩
        have inRange := used.inRange
        refine ⟨sector.toNat, List.mem_filter.mpr ⟨List.mem_range'_1.mpr ⟨late, by omega⟩, ?_⟩, by rw [UInt32.ofNat_toNat]⟩
        rw [UInt32.ofNat_toNat, back sector used, filled_iff.mpr filled]
        rfl

/-- The data sector of a file is exported, with the text of the file. -/
theorem sectors_exported_file : ∃ start created fs sector files, filesysInit device device_size true = some start ∧
    fsutilCreate [97] 5 start = some (1, created) ∧ fsutilWrite [97] [98, 99, 100, 0, 0] created = some (5, fs) ∧
    recover 1 fs = some (files, fs) ∧ (files.map Prod.fst).Nodup ∧ (exportName sector, [98, 99, 100]) ∈ files := by
  obtain ⟨start, created, fs, sector, ran, made, wrote, running, named, content, _, length, late⟩ := file_written
  have here : Named fs [97] sector := (named _ _).mpr ⟨rfl, rfl⟩
  have blocks := running.volume.objects.blocks
  have nonzero := (running.volume.root.plain [97] sector here).2.2.1
  have small (sector : Sector) (used : Used fs sector) : sector.toNat < 100 := by
    have inRange := used.inRange
    omega
  generalize place_eq : blockAt fs.disk.view (curData fs sector) (.data 0) = place at late
  have present : place ≠ 0 := by
    rintro rfl
    exact absurd late (by decide)
  have bytes (i : Nat) (below : i < 4) : (fs.disk.view place).toList.getD i 0 = ([98, 99, 100, 0] : List UInt8).getD i 0 := by
    have byte := contentOf_getD running here.live nonzero i (by omega)
    have first : i / 512 = 0 := by omega
    rw [content, fileByte, first, place_eq, if_neg present, Nat.mod_eq_of_lt (by omega)] at byte
    have same : ∀ i < 4, ([98, 99, 100, 0, 0] : List UInt8).getD i 0 = [98, 99, 100, 0].getD i 0 := by decide
    exact byte.symm.trans (same i below)
  have front : (fs.disk.view place).toList.take 4 = [98, 99, 100, 0] := by
    refine bytes_ext (by rw [List.length_take, Vector.length_toList]; rfl) fun i inside => ?_
    rw [List.length_take, Vector.length_toList] at inside
    rw [List.getD_eq_getElem?_getD, List.getElem?_take_of_lt (by omega), ← List.getD_eq_getElem?_getD]
    exact bytes i (by omega)
  obtain ⟨files, exported, once, all⟩ := (sectors_exported running).2 small
  refine ⟨start, created, fs, place.toNat, files, ran, made, wrote, exported, once,
    (all _ _).mpr ⟨place, by omega, ?_, fun blank => ?_, rfl, ?_⟩⟩
  · exact place_eq ▸ blocks.used (sector, some (.data 0)) here.live (filled_place.mpr (place_eq ▸ present))
  · rw [blank] at front
    exact absurd front (by decide)
  · rw [← List.take_append_drop 4 (fs.disk.view place).toList, front]
    rfl

end Sectors

end Comp310.Proofs.Reports
