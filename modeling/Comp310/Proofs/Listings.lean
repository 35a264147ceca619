import Comp310.Fs.Shell

/-! Listings of the root directory are complete. All its users share one position,
so a listing is right only when every opener before it has closed the directory. -/

namespace Comp310.Proofs.Listings
open Comp310.Fs Comp310.Lib

variable {fs fs' : FileSystem} {device : Array Block} {bounded : device.size < 2 ^ 32} {dir : Addr} {d : Dir} {i : Nat}

/-- Two listings in a row print every name in use, each of them once. -/
theorem listing_complete (reached : ShellReached Shell.Allowed device bounded fs) :
    (names fs).Nodup ∧ (∀ name, name ∈ names fs ↔ ∃ sector, Named fs name sector) ∧
    ∃ fs' fs'', fsutilLs fs = some (names fs, fs') ∧ fsutilLs fs' = some (names fs, fs'') := by
  have running := reached.running
  obtain ⟨printed, fs', ran, rfl, browsed⟩ := fsutilLs_wp running
  obtain ⟨printed', fs'', ran', rfl, _⟩ := fsutilLs_wp browsed.running
  rw [browsed.names] at ran'
  exact ⟨running.volume.root.names_nodup, fun _ => mem_names, fs', fs'', ran, ran'⟩

/-- A second file after a listing of the first. -/
theorem listing_complete_two : ∃ start one listed fs fs' fs'', filesysInit smallDevice smallDevice_size true = some start ∧
    fsutilCreate [97] 0 start = some (1, one) ∧ fsutilLs one = some ([[97]], listed) ∧ fsutilCreate [98] 5 listed = some (1, fs) ∧
    (names fs).Perm [[98], [97]] ∧ fsutilLs fs = some (names fs, fs') ∧ fsutilLs fs' = some (names fs, fs'') := by
  obtain ⟨start, ran, formatted, count⟩ := smallDevice_format
  have nothing : wanted (0 : Nat) = 0 := wanted_eq (by decide)
  have needed : wanted (5 : Nat) = 1 := by
    rw [wanted_eq (by decide), sectorsNeeded_eq (by decide)]
    rfl
  have none := formatted.names_nil
  have many := formatted.slots_length
  obtain ⟨one, _, made, _, running₁, left, many₁, named₁⟩ := formatted.running.create plain_a (by decide) (formatted.unnamed [97])
    (by rw [none, many]; decide) (Nat.zero_le _) (by omega)
  have named₁ : names one = [[97]] := List.perm_singleton.mp (none ▸ named₁)
  obtain ⟨_, listed, printed, rfl, browsed⟩ := fsutilLs_wp running₁
  have plain_b : PlainName [98] := ⟨by decide, by decide, by decide, by decide, by decide⟩
  have missing (sector : Sector) : ¬ Named listed [98] sector := by
    intro named
    have member := mem_names.mpr ⟨sector, browsed.named ▸ named⟩
    rw [named₁] at member
    exact absurd member (by decide)
  obtain ⟨fs, _, made', _, _, _, _, named⟩ := browsed.running.create plain_b (by decide) missing
    (by rw [browsed.names, browsed.slots, named₁, many₁, many]; decide) (show 5 ≤ 8517120 by decide) (by rw [browsed.store.freeCount]; omega)
  rw [browsed.names, named₁] at named
  rw [named₁] at printed
  have valid (name : CString) (isize : Nat) (plain : PlainName name) : (Command.create name isize).Valid := ⟨plain, nofun, nofun⟩
  have reached₁ := (ShellReached.formatted ran).step (show Shell.Allowed start (.file (.create [97] 0)) from ⟨valid _ _ plain_a, nofun⟩)
    (run_bind (run_bind made _) _)
  have reached₂ := reached₁.step (show Shell.Allowed one .ls from ⟨trivial, nofun⟩) (run_bind printed _)
  have reached := reached₂.step (show Shell.Allowed listed (.file (.create [98] 5)) from ⟨valid _ _ plain_b, nofun⟩)
    (run_bind (run_bind made' _) _)
  obtain ⟨_, _, fs', fs'', first, second⟩ := listing_complete reached
  exact ⟨start, one, listed, fs, fs', fs'', ran, made, printed, made', named, first, second⟩

section Unclosed

private theorem ls_rest (volume : Volume fs) (session : Session fs (some (dir, d))) (pos : d.pos = (36 * i : Nat))
    (place : i ≤ (slots fs).length) (rest : namesIn ((slots fs).drop i) = []) :
    Wp fsutilLs (fun printed fs' => printed = [] ∧ Quiet fs fs' ∧ ∃ d', d'.pos = ((36 * (slots fs).length : Nat) : Int) ∧
      Session fs' (some (dir, d'))) fs := by
  rw [fsutilLs, scanRoot, wp_bind]
  refine (dirOpenRoot_wp volume session).mono fun dir₁ fs₁ outcome => ?_
  obtain ⟨d₁, session₁, reopened, quiet₁, _⟩ := outcome
  obtain ⟨same, rfl, count⟩ := reopened
  subst same
  rw [wp_bind]
  refine Wp.of_eq session₁.getDir ?_
  rw [wp_bind]
  refine Wp.of_eq (entriesOf_eq quiet₁.volume.objects.blocks session₁) ?_
  rw [wp_bind, forEachFile, wp_bind]
  refine (dirReaddir_at quiet₁.volume session₁ pos).mono fun found fs₂ outcome => ?_
  obtain ⟨next, d₂, count₂, pos₂, session₂, quiet₂⟩ := outcome
  rw [quiet₁.slots, nameFrom_end rest, List.length_drop] at next pos₂
  subst next
  have reopened : Reopened (some (dir₁, { d₂ with openCnt := d.openCnt })) dir₁ d₂ := by
    refine ⟨rfl, ?_, count⟩
    have open₂ : d₂.openCnt = d.openCnt + 1 := count₂
    rw [← open₂]
  refine (wp_pure _).mpr ?_
  rw [wp_bind]
  refine (dirClose_wp quiet₂.volume session₂ reopened).mono fun _ fs' closed => (wp_pure _).mpr ?_
  obtain ⟨session', quiet'⟩ := closed
  exact ⟨rfl, (quiet₁.trans quiet₂).trans quiet', { d₂ with openCnt := d.openCnt }, by
    rw [show d₂.pos = _ from pos₂, Nat.add_sub_cancel' place], session'⟩

private theorem size_of_root (running : Running fs none) (empty : fs.fileTable = []) :
    Wp (Shell.file (.size [47])).run (fun _ fs' => Volume fs' ∧ slots fs' = slots fs ∧ freeCount fs' = freeCount fs ∧
      ∃ dir d, d.pos = 36 ∧ Session fs' (some (dir, d))) fs := by
  have unopened : getFileByFname [47] fs = some (none, fs) := by
    change some (fs.fileTable.lookup [47], fs) = _
    rw [empty]
    rfl
  have fresh {fs₁ : FileSystem} (quiet : Quiet fs fs₁) : fs₁.fileTable.lookup [47] = none := by
    rw [quiet.fileTable, empty]
    rfl
  simp only [Shell.run, Command.run, fsutilSize, openByFname, wp_bind, wp_pure]
  refine Wp.of_eq unopened ?_
  dsimp only
  rw [wp_bind]
  refine (filesysOpen_root running.volume running.session (by decide) (by decide)).mono ?_
  rintro _ fs₁ ⟨dir, d, inode, rfl, pos, session, quiet, opened, _⟩
  have found := quiet.volume.objects.blocks.handles.inode? opened
  have table : addToFileTable (fileOpen d.inode) [47] fs₁ =
      some (⟨⟩, { fs₁ with fileTable := fs₁.fileTable ++ [([47], fileOpen d.inode)] }) := by
    have missing : getFileByFname [47] fs₁ = some (none, fs₁) := congrArg (fun found => some (found, fs₁)) (fresh quiet)
    exact run_bind missing _
  simp only [wp_bind, wp_pure]
  refine Wp.of_eq table ?_
  rw [fileLength, wp_bind]
  refine Wp.of_eq (getInode_eq found) ((wp_pure _).mpr ?_)
  exact ⟨quiet.volume.withTable _, quiet.slots, quiet.store.freeCount, dir, d, pos, session.withTable _⟩

/-- After a listing from an open root directory, a file that is made then is in no listing. -/
theorem listing_misses_file : ∃ fs fs₁ fs₂ fs₃ fs₄, filesysInit smallDevice smallDevice_size true = some fs ∧
    (Shell.file (.size [47])).run fs = some (⟨⟩, fs₁) ∧ Shell.ls.run fs₁ = some (⟨⟩, fs₂) ∧
    (Shell.file (.create [97] 0)).run fs₂ = some (⟨⟩, fs₃) ∧ [97] ∈ names fs₃ ∧ fsutilLs fs₃ = some ([], fs₄) := by
  obtain ⟨fs, ran, formatted, count⟩ := smallDevice_format
  have unnamed := formatted.names_nil
  have many := formatted.slots_length
  obtain ⟨⟨⟩, fs₁, sized, volume₁, slots₁, count₁, dir, d, pos, session₁⟩ := size_of_root formatted.running formatted.fileTable
  obtain ⟨_, fs₂, listed, rfl, quiet₂, d₂, pos₂, session₂⟩ := ls_rest volume₁ session₁ (i := 1) pos (by rw [slots₁, many]; decide)
    (by rw [slots₁]; exact unnamed)
  have slots₂ : slots fs₂ = slots fs := quiet₂.slots.trans slots₁
  have free₂ : freeCount fs₂ = 325 := by rw [quiet₂.store.freeCount, count₁, count]
  obtain ⟨_, e, there, free⟩ := free_slot (show (names fs₂).length + 1 < (slots fs₂).length by
    rw [names, slots₂, ← names, unnamed, many]
    decide)
  obtain ⟨entry, nothing⟩ := rootShort_nil quiet₂.volume.objects.blocks there free
  rw [slots₂, many] at entry
  have wants : wanted (0 : Nat) = 0 := wanted_eq (by decide)
  obtain ⟨success, fs₃, ran₃, created⟩ := filesysCreate_wp quiet₂.volume session₂ plain_a (show (0 : Int) < 2147483648 by decide)
  obtain rfl : success = true := by
    refine created.outcome.mpr ⟨⟨by decide, by decide, ?_⟩, ?_, by omega, ?_⟩
    · rw [show wanted 0 = 0 from wants]
      omega
    · rintro (empty | long | ⟨other, named⟩)
      · cases empty
      · exact absurd long (by decide)
      · exact formatted.unnamed [97] other (named_congr slots₂ ▸ named)
    · rw [show wanted 0 = 0 from wants, nothing, List.length_nil]
      omega
  obtain ⟨sector, done⟩ := created.done rfl
  have run₃ : (Shell.file (.create [97] 0)).run fs₂ = some (⟨⟩, fs₃) := by
    have small : fsutilCreate [97] 0 fs₂ = some (1, fs₃) := by
      rw [fsutilCreate, if_neg (by decide)]
      exact run_bind ran₃ _
    exact run_bind (run_bind small _) _
  have many₃ : (slots fs₃).length = 1000 := by
    have whole := quiet₂.volume.root.whole
    have before : (slots fs₂).length = 1000 := by rw [slots₂, many]
    rw [slots, slotsOf_length] at before
    have before : (curData fs₂ 1).length = 36000 := by omega
    rw [slots, slotsOf_length, done.rootLength, before]
    omega
  obtain ⟨_, fs₄, ran₄, rfl, _⟩ := ls_rest created.volume created.session (i := 1000) (by rw [pos₂, slots₁, many])
    (Nat.le_of_eq many₃.symm) (by rw [List.drop_eq_nil_of_le (Nat.le_of_eq many₃)]; rfl)
  refine ⟨fs, fs₁, fs₂, fs₃, fs₄, ran, sized, run_bind listed _, run₃, ?_, ran₄⟩
  exact mem_names.mpr ⟨sector, (done.named _ _).mpr (.inr ⟨rfl, rfl⟩)⟩

end Unclosed

end Comp310.Proofs.Listings
