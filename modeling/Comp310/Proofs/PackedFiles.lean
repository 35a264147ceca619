import Comp310.Fs.Reports
import Comp310.Proofs.FilePositions

/-! `defragment` leaves no file fragmented if nothing but files is in the way: what is in use once they are all removed
must be the first sectors of the disk. -/

namespace Comp310.Proofs.PackedFiles
open Comp310.Fs Comp310.Lib Comp310.Proofs.FilePositions

/-- The next sector of a file is one of the three that follow, with nothing between them but index blocks of the file. -/
structure NextTo (v : View) (data : InodeDisk) (place next : Sector) : Prop where
  later : place.toNat < next.toNat
  near : next.toNat ≤ place.toNat + 3
  between : ∀ other : Sector, place.toNat < other.toNat → other.toNat < next.toNat →
    ∃ p : InodePos, p.isData = false ∧ blockAt v data p = other

variable {v : View} {data : InodeDisk} {fs middle fs' : FileSystem} {state : Option (Addr × Dir)} {name : CString} {sector : Sector} {first : Nat}
  {files : List NewFile} {device : Array Block} {bounded : device.size < 2 ^ 32}

section Files

/-- The sectors that `get_inode_data_sectors` lists, none of them far from the one before. -/
private def InRow (v : View) (data : InodeDisk) : Prop :=
  (sectorsFrom v data 0 (bytesToSectors data.length)).IsChain (NextTo v data)

private theorem laid_next (laid : Laid first fs sector) (limit : bytesToSectors (curData fs sector).length ≤ 16635) :
    InRow fs.disk.view (curData fs sector) := by
  rw [InRow, List.isChain_iff_getElem]
  intro i inside
  rw [sectorsFrom_length] at inside
  have place (k : Nat) (short : k < bytesToSectors (curData fs sector).length) :
      (blockAt fs.disk.view (curData fs sector) (.data k)).toNat = first + (InodePos.data k).rank :=
    laid _ (by rwa [data_first (by omega)])
  obtain ⟨later, near⟩ := data_next (show i + 1 < 16635 by omega)
  rw [sectorsFrom_getElem, sectorsFrom_getElem, Nat.zero_add, Nat.zero_add]
  refine ⟨?_, ?_, fun other low high => ?_⟩
  · rw [place i (by omega), place (i + 1) inside]
    omega
  · rw [place i (by omega), place (i + 1) inside]
    omega
  · rw [place i (by omega)] at low
    rw [place (i + 1) inside] at high
    have low : (InodePos.data i).rank < other.toNat - first := by omega
    obtain ⟨p, index, needed, rank⟩ := index_between (by omega) low (by omega)
    refine ⟨p, index, UInt32.toNat_inj.mp ?_⟩
    rw [laid p (by omega), rank]
    omega

/-- A jump of more than three sectors is never found. -/
private theorem next_together {sectors : List Sector} (chain : sectors.IsChain (NextTo v data)) : scattered sectors = false := by
  induction sectors with
  | nil => rfl
  | cons place rest ih =>
    cases rest with
    | nil => rfl
    | cons next rest =>
      obtain ⟨together, chain⟩ := List.isChain_cons_cons.mp chain
      have least : place ≤ next := UInt32.le_iff_toNat_le.mpr (Nat.le_of_lt together.later)
      have small : ¬ 3 < next - place := by
        rw [UInt32.lt_iff_toNat_lt, UInt32.toNat_sub_of_le _ _ least]
        have near := together.near
        change ¬ 3 < next.toNat - place.toNat
        omega
      rw [scattered, decide_eq_false small, Bool.false_and, Bool.false_or]
      exact ih chain

/-- A round of `fragmentation_degree` for a file without jumps. -/
private theorem fragmentation_next (running : Running fs state) (named : Named fs name sector)
    (row : InRow fs.disk.view (curData fs sector)) :
    Wp (fragmentation name) (fun result fs' => Looked fs fs' state name ∧ result ≠ some true) fs := by
  refine (fragmentation_wp running named).mono fun result fs' ended => ⟨ended.1, ?_⟩
  rw [ended.2, fragmented, next_together row]
  split <;> decide

end Files

section Defragment

private theorem fragmentationDegree_zero (running : Running fs none)
    (rows : ∀ name sector, Named fs name sector → InRow fs.disk.view (curData fs sector)) :
    Wp fragmentationDegree (fun counts _ => counts.1 = 0) fs := by
  rw [fragmentationDegree, wp_bind]
  refine (scanRoot_unless (fun _ result => result ≠ some true) running fun fs₁ dir d name browsed member => .inl ?_).total.mono
    fun results fs' ended => (wp_pure _).mpr ?_
  · obtain ⟨sector, named⟩ := mem_names.mp member
    have notRoot := (running.volume.root.plain name sector named).2.2.2
    have row : InRow fs₁.disk.view (curData fs₁ sector) := by
      rw [browsed.store.disk, browsed.data sector notRoot]
      exact rows name sector named
    refine (fragmentation_next browsed.running (browsed.named ▸ named) row).mono fun _ _ ended => ?_
    exact ⟨browsed.trans ended.1.browsed, ended.2⟩
  · obtain ⟨⟨length, all⟩, _⟩ := ended
    rw [List.count_eq_zero]
    intro found
    obtain ⟨result, member, same⟩ := List.mem_filterMap.mp found
    obtain ⟨k, inside, rfl⟩ := List.mem_iff_getElem.mp member
    refine all ((names fs)[k], results[k]) (List.mem_iff_getElem.mpr ⟨k, by rw [List.length_zip]; omega, by simp⟩) same

private theorem emptied_result (running : Running fs none) (ran : emptied fs = some (files, middle)) : Emptied fs middle files := by
  have rest (files : List NewFile) (middle : FileSystem) (done : Emptied fs middle files) :
      Wp (pure files : M (List NewFile)) (fun files middle => Emptied fs middle files) middle := (wp_pure _).mpr done
  have runs : Wp emptied (fun files middle => Emptied fs middle files) fs := emptied_wp running rest
  exact runs.result ran

theorem defragment_packs (reached : ShellReached Shell.Allowed device bounded fs)
    (front : ∀ files middle, emptied fs = some (files, middle) → Packed middle.freeMap) : ∃ fs', defragment fs = some (0, fs') ∧
      (∃ fragmentable after, fragmentationDegree fs' = some ((0, fragmentable), after)) ∧
      ∀ name sector, Named fs' name sector → ∃ sectors,
        getInodeDataSectors (curData fs' sector) fs' = some (some sectors, fs') ∧ sectors.IsChain (NextTo fs'.disk.view (curData fs' sector)) := by
  have running := reached.running
  obtain ⟨_, fs', ran, rfl, done⟩ := defragment_wp running
  obtain ⟨files, middle, _, gone, written⟩ := defragment_parts ran
  obtain ⟨_, compact⟩ := ((emptied_result running gone).rewriteFiles_wp running).result written
  have laid := (compact (front files middle gone)).files
  have rows (name : CString) (sector : Sector) (named : Named fs' name sector) : InRow fs'.disk.view (curData fs' sector) := by
    obtain ⟨first, laid⟩ := laid name sector named
    have readable := done.running.volume.objects.blocks.readable named.live
    have nonneg := readable.nonneg
    have limit := readable.limit
    exact laid_next laid (by rw [bytesToSectors_eq nonneg (by omega)]; omega)
  refine ⟨fs', ran, ?_, fun name sector named => ⟨_, getInodeDataSectors_eq (done.running.volume.objects.blocks.readable named.live),
    rows name sector named⟩⟩
  obtain ⟨⟨_, fragmentable⟩, after, degree, rfl⟩ := fragmentationDegree_zero done.running rows
  exact ⟨fragmentable, after, degree⟩

private theorem emptied_single {size : Int} (running : Running fs none) (unnamed : ∀ name sector, ¬ Named fs name sector)
    (full : rootShort fs = []) (nonneg : 0 ≤ size) (done : CreateDone fs fs' name size sector) (running' : Running fs' none)
    (gone : emptied fs' = some (files, middle)) : middle.freeMap = fs.freeMap := by
  have mine (other : CString) (there : Sector) : Named fs' other there ↔ other = name ∧ there = sector := by
    rw [done.named, or_iff_right (unnamed other there)]
  have named : Named fs' name sector := (mine name sector).mpr ⟨rfl, rfl⟩
  have gone := emptied_result running' gone
  obtain ⟨before, value, browsed, ran⟩ := gone.removed
  have same := browsed.store.same (browsed.data sector (running'.volume.root.plain name sector named).2.2.2)
  have names : files.map (·.name) = [name] := by
    rw [gone.names]
    refine List.perm_singleton.mp ((List.perm_ext_iff_of_nodup running'.volume.root.names_nodup (List.pairwise_singleton _ name)).mpr
      fun other => ?_)
    rw [mem_names, List.mem_singleton]
    simp only [mine, exists_and_left, exists_eq, and_true]
  obtain ⟨file, rfl, rfl⟩ := List.map_eq_singleton_iff.mp names
  obtain ⟨result, after, removed, ran⟩ := bind_some ran
  cases ran
  rcases (fsutilRm_wp browsed.running (running'.volume.root.plain _ _ named).1).result removed with ⟨_, missing, _⟩ | ⟨_, there, unlinked⟩
  · exact absurd (browsed.named ▸ named) (missing sector)
  · obtain rfl := ((mine _ there).mp (browsed.named ▸ unlinked.named)).2
    refine running.volume.objects.blocks.freeMap_ext ?_ (fun other used => ?_) ?_
    · rw [unlinked.size, browsed.store.freeMap, done.length]
    · refine unlinked.mono other (browsed.store.used ▸ done.mono other used) fun place filled equal => ?_
      rw [same.claim] at equal
      exact done.unused place (same.filled.mp filled) (equal ▸ used)
    · have count := done.count
      rw [wanted, if_neg (by omega), full, List.length_nil] at count
      rw [unlinked.count, browsed.store.freeCount, same.data, done.fresh.length]
      omega

/-- A file of two sectors on a new device. -/
theorem defragment_packs_file : ∃ fs fs' fs'', filesysInit smallDevice smallDevice_size true = some fs ∧
    fsutilCreate [97] 1000 fs = some (1, fs') ∧ defragment fs' = some (0, fs'') ∧
    (∃ fragmentable after, fragmentationDegree fs'' = some ((0, fragmentable), after)) ∧
    ∀ name sector, Named fs'' name sector → ∃ sectors,
      getInodeDataSectors (curData fs'' sector) fs'' = some (some sectors, fs'') ∧
        sectors.IsChain (NextTo fs''.disk.view (curData fs'' sector)) := by
  have needed : wanted (1000 : Nat) < 325 := by
    rw [wanted_eq (by decide), sectorsNeeded_eq (by decide)]
    decide
  obtain ⟨fs, fs', sector, ran, formatted, _, created, done, running', _⟩ := smallDevice_create (show 1000 ≤ 8517120 by decide) needed
  have create : (Command.create [97] 1000).run fs = some ((1, []), fs') := run_bind created _
  have may : Shell.Allowed fs (.file (.create [97] 1000)) := ⟨⟨plain_a, nofun, nofun⟩, nofun⟩
  have reached : ShellReached Shell.Allowed smallDevice smallDevice_size fs' :=
    .step (.formatted ran) may (run_bind create _)
  obtain ⟨fs'', defragmented, together⟩ := defragment_packs reached fun files middle gone => by
    rw [emptied_single formatted.running formatted.unnamed formatted.rootShort.1 (by decide) done running' gone]
    exact (filesysInit_packed smallDevice_size ran).2
  exact ⟨fs, fs', fs'', ran, created, defragmented, together⟩

end Defragment

end Comp310.Proofs.PackedFiles
