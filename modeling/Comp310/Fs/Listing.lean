import Comp310.Fs.Runs
import Comp310.Fs.Fsutil2

/-! Passes over the root directory: `dir_readdir` in a loop whose body opens
other directories and files, but does not change what they hold. -/

namespace Comp310.Fs
open Comp310.Lib

/-- The names in use, in the order of the entries. -/
def namesIn (entries : List DirEntry) : List CString := (entries.filter (·.inUse)).map (·.fname)

/-- The names of the root directory; entry 0 is its parent. -/
def names (fs : FileSystem) : List CString := namesIn ((slots fs).drop 1)

/-- Nothing has happened to the files but that some may have been opened, and positions may have moved. -/
structure Browsed (fs fs' : FileSystem) (state : Option (Addr × Dir)) (tidy : Prop := True) : Prop where
  running : Running fs' state tidy
  store : SameStore fs fs'
  slots : slots fs' = slots fs
  data : ∀ sector, sector ≠ 1 → curData fs' sector = curData fs sector

variable {fs middle fs' : FileSystem} {state before : Option (Addr × Dir)} {name : CString} {sector : Sector} {dir : Addr} {d : Dir}
  {tidy : Prop}

theorem Looked.browsed (looked : Looked fs fs' state name tidy) : Browsed fs fs' state tidy :=
  ⟨looked.running, looked.store, looked.slots, looked.data⟩

theorem Running.browsed (running : Running fs state tidy) : Browsed fs fs state tidy :=
  ⟨running, .refl, rfl, fun _ _ => rfl⟩

theorem Browsed.trans (first : Browsed fs middle before tidy) (second : Browsed middle fs' state tidy) : Browsed fs fs' state tidy :=
  ⟨second.running, first.store.trans second.store, second.slots.trans first.slots,
    fun sector other => (second.data sector other).trans (first.data sector other)⟩

theorem Browsed.named (browsed : Browsed fs fs' state tidy) : Named fs' = Named fs := named_congr browsed.slots

theorem Browsed.alike (browsed : Browsed fs fs' state tidy) (notRoot : sector ≠ 1) : Alike fs fs' sector :=
  browsed.store.alike (browsed.data sector notRoot)

theorem Browsed.names (browsed : Browsed fs fs' state tidy) : names fs' = names fs := by
  rw [Fs.names, browsed.slots, Fs.names]

section Names
variable {entries : List DirEntry} {i : Nat}

theorem nameFrom_none (last : (nameFrom i entries).1 = none) : namesIn entries = [] := by
  induction entries generalizing i with
  | nil => rfl
  | cons e rest ih =>
    rw [nameFrom] at last
    split at last
    next => cases last
    next free =>
      rw [namesIn, List.filter_cons_of_neg (by simpa using free)]
      exact ih last

theorem nameFrom_end (empty : namesIn entries = []) : nameFrom i entries = (none, i + entries.length) := by
  induction entries generalizing i with
  | nil => rfl
  | cons e rest ih =>
    rw [nameFrom]
    split
    next used =>
      rw [namesIn, List.filter_cons_of_pos (by simpa using used)] at empty
      cases empty
    next free =>
      rw [namesIn, List.filter_cons_of_neg (by simpa using free)] at empty
      rw [ih empty, List.length_cons, Nat.add_right_comm, Nat.add_assoc]

theorem nameFrom_some (found : (nameFrom i entries).1 = some name) :
    ∃ k, (nameFrom i entries).2 = i + k + 1 ∧ k < entries.length ∧ namesIn entries = name :: namesIn (entries.drop (k + 1)) := by
  induction entries generalizing i with
  | nil => cases found
  | cons e rest ih =>
    rw [nameFrom] at found ⊢
    split at found
    next used =>
      rw [if_pos used]
      cases found
      refine ⟨0, rfl, Nat.zero_lt_succ _, ?_⟩
      rw [namesIn, List.filter_cons_of_pos (by simpa using used)]
      rfl
    next free =>
      obtain ⟨k, place, inside, left⟩ := ih found
      rw [if_neg free]
      refine ⟨k + 1, by omega, Nat.succ_lt_succ inside, ?_⟩
      rw [namesIn, List.filter_cons_of_neg (by simpa using free)]
      exact left

theorem mem_names {name : CString} : name ∈ names fs ↔ ∃ sector, Named fs name sector := by
  simp only [names, namesIn, List.mem_map, List.mem_filter]
  constructor
  · rintro ⟨e, ⟨member, used⟩, rfl⟩
    obtain ⟨i, there⟩ := List.mem_iff_getElem?.mp member
    rw [List.getElem?_drop] at there
    exact ⟨e.inodeSector, 1 + i, e, Nat.le_add_right 1 i, there, used, rfl, rfl⟩
  · rintro ⟨sector, i, e, low, there, used, rfl, rfl⟩
    refine ⟨e, ⟨List.mem_iff_getElem?.mpr ⟨i - 1, ?_⟩, used⟩, rfl⟩
    rw [List.getElem?_drop, show 1 + (i - 1) = i by omega]
    exact there

theorem Formatted.names_nil {size : Nat} (formatted : Formatted fs size) : Fs.names fs = [] := by
  apply List.eq_nil_iff_forall_not_mem.mpr
  intro name member
  obtain ⟨sector, named⟩ := mem_names.mp member
  exact formatted.unnamed name sector named

theorem mem_of_namesIn {i : Nat} (low : 1 ≤ i) (member : name ∈ namesIn ((slots fs).drop i)) : name ∈ names fs := by
  have later : ((slots fs).drop i).Sublist ((slots fs).drop 1) := by
    rw [← Nat.add_sub_cancel' low, ← List.drop_drop]
    exact List.drop_sublist _ _
  exact ((later.filter _).map _).subset member

theorem Root.names_nodup (root : Root fs) : (names fs).Nodup := by
  have apart : ((slots fs).drop 1).Pairwise fun e f => e.inUse = true → f.inUse = true → e.fname ≠ f.fname := by
    rw [List.pairwise_iff_getElem]
    intro i j inside inside' before used used' same
    have here := List.getElem?_eq_getElem inside
    have there := List.getElem?_eq_getElem inside'
    rw [List.getElem?_drop] at here there
    have equal := root.unique (1 + i) (1 + j) _ _ (Nat.le_add_right 1 i) (Nat.le_add_right 1 j) here there used used' (.inl same)
    omega
  rw [names, namesIn, List.Nodup, List.pairwise_map, List.pairwise_filter]
  exact apart

theorem free_slot (few : (names fs).length + 1 < (slots fs).length) : ∃ (i : Nat) (e : DirEntry), (slots fs)[i]? = some e ∧ e.inUse = false := by
  apply Classical.byContradiction
  intro none
  have all (e : DirEntry) (member : e ∈ (slots fs).drop 1) : e.inUse = true := by
    obtain ⟨i, there⟩ := List.mem_iff_getElem?.mp (List.mem_of_mem_drop member)
    exact Bool.of_not_eq_false fun free => none ⟨i, e, there, free⟩
  rw [names, namesIn, List.filter_eq_self.mpr all, List.length_map, List.length_drop] at few
  omega

theorem rootShort_nil (blocks : Blocks (Live fs) fs) {i : Nat} {e : DirEntry} (there : (slots fs)[i]? = some e)
    (free : e.inUse = false) : slotFor fs < (slots fs).length ∧ rootShort fs = [] := by
  have inside := (List.getElem?_eq_some_iff.mp there).1
  have first : slotFor fs ≤ 0 + i := freeFrom_le there free
  rw [slots, slotsOf_length] at inside ⊢
  exact ⟨by omega, shortOf_inside (blocks.readable Volume.root_live) (by omega)⟩

theorem CreateDone.names_perm {size : Int} {sector : Sector} (done : CreateDone fs fs' name size sector) (root : Root fs) (root' : Root fs')
    (missing : ∀ other, ¬ Named fs name other) : (names fs').Perm (name :: names fs) := by
  have new : name ∉ names fs := by
    rw [mem_names]
    exact fun named => named.elim missing
  refine (List.perm_ext_iff_of_nodup root'.names_nodup (List.nodup_cons.mpr ⟨new, root.names_nodup⟩)).mpr fun other => ?_
  simp only [List.mem_cons, mem_names, done.named]
  constructor
  · rintro ⟨there, before | ⟨rfl, _⟩⟩
    · exact .inr ⟨there, before⟩
    · exact .inl rfl
  · rintro (rfl | ⟨there, before⟩)
    · exact ⟨sector, .inr ⟨rfl, rfl⟩⟩
    · exact ⟨there, .inl before⟩

/-- Under a new name a file is made, where an entry is free and there are sectors for it. -/
theorem Running.create (running : Running fs none) (plain : PlainName name) (short : name.length ≤ 30)
    (missing : ∀ sector, ¬ Named fs name sector) (entry : (names fs).length + 1 < (slots fs).length) {isize : Nat}
    (small : isize ≤ 8517120) (room : wanted isize + 1 ≤ freeCount fs) :
    ∃ fs' sector, fsutilCreate name isize fs = some (1, fs') ∧ CreateDone fs fs' name isize sector ∧ Running fs' none ∧
      freeCount fs' + 1 + wanted isize = freeCount fs ∧ (slots fs').length = (slots fs).length ∧
      (names fs').Perm (name :: names fs) := by
  have blocks := running.volume.objects.blocks
  obtain ⟨_, _, there, unused⟩ := free_slot entry
  obtain ⟨inside, nothing⟩ := rootShort_nil blocks there unused
  have limit := (blocks.readable Volume.root_live).limit
  rw [slots, slotsOf_length] at inside
  have slot : (36 * slotFor fs + 36 : Nat) ≤ 8517120 := by omega
  have format : (isize : Int) ≤ 8517120 := by omega
  have same : offsetT isize = isize := offsetT_eq (by omega) (by omega)
  obtain ⟨_, fs', made, running', success, rfl, ran⟩ := fsutilCreate_wp running plain isize (by omega)
  rw [same] at ran
  have good : ¬ BadName fs name := by
    rintro (empty | long | ⟨other, named⟩)
    · exact plain.nonempty empty
    · omega
    · exact missing other named
  obtain rfl : success = true := by
    refine ran.outcome.mpr ⟨⟨Int.natCast_nonneg _, format, room⟩, good, slot, ?_⟩
    rw [nothing, List.length_nil]
    omega
  obtain ⟨sector, done⟩ := ran.done rfl
  have count := done.count
  have length := done.rootLength
  rw [nothing, List.length_nil, Nat.add_zero] at count
  refine ⟨fs', sector, made, done, running', count, ?_, done.names_perm running.volume.root running'.volume.root missing⟩
  rw [slots, slots, slotsOf_length, slotsOf_length]
  omega

end Names

section Passes
variable {α : Type} {body : CString → M α} {good : CString → α → Prop} {excused : Prop}

theorem dirReaddir_at (volume : Volume fs tidy) (session : Session fs (some (dir, d))) {i : Nat} (pos : d.pos = (36 * i : Nat)) :
    Wp (dirReaddir dir) (fun found fs' => found = (nameFrom i ((slots fs).drop i)).1 ∧
      ∃ d', d'.openCnt = d.openCnt ∧ d'.pos = ((36 * (nameFrom i ((slots fs).drop i)).2 : Nat) : Int) ∧
        Session fs' (some (dir, d')) ∧ Quiet fs fs' tidy) fs := by
  have blocks := volume.objects.blocks
  obtain ⟨inode, opened, _, data, readable⟩ := session.root blocks
  have ⟨cwd, dirs, count, here⟩ := session
  rw [dirReaddir, wp_bind]
  refine Wp.of_eq session.getDir ?_
  rw [wp_bind]
  refine Wp.of_eq (entriesOf_eq blocks session) ?_
  have enough : (slotsOf fs.disk.view inode.data).length - i < (slots fs).length + 1 := by
    rw [data]
    exact Nat.lt_succ_of_le (Nat.sub_le _ _)
  have moved := readdirLoop_eq (blocks.handles.inode? opened) readable dirs _ i pos enough
  rw [data] at moved
  generalize after_eq : (36 * (nameFrom i ((slots fs).drop i)).2 : Nat) = after
  rw [slots] at after_eq
  rw [after_eq] at moved
  have store : SameStore fs { fs with dirs := [(dir, { d with pos := after })] } := ⟨rfl, rfl, rfl, rfl⟩
  have quiet := volume.quiet ⟨volume.objects.congr store rfl (Nat.le_refl _), store, rfl, fun _ _ => rfl,
    ⟨rfl, rfl, fun _ _ => rfl⟩, fun _ _ => Iff.rfl⟩
  exact Wp.of_eq moved ⟨rfl, { d with pos := after }, rfl, rfl, ⟨cwd, rfl, count, here⟩, quiet⟩

theorem dirReaddir_wp (running : Running fs (some (dir, d)) tidy) {i : Nat} (pos : d.pos = (36 * i : Nat)) :
    Wp (dirReaddir dir) (fun found fs' => found = (nameFrom i ((slots fs).drop i)).1 ∧
      ∃ d', d'.openCnt = d.openCnt ∧ d'.pos = ((36 * (nameFrom i ((slots fs).drop i)).2 : Nat) : Int) ∧
        Browsed fs fs' (some (dir, d')) tidy) fs := by
  refine (dirReaddir_at running.volume running.session pos).mono fun _ fs' ⟨found, d', count, place, session, quiet⟩ => ?_
  have looked : Looked fs fs' (some (dir, d')) [] tidy := quiet.calm.looked running session
  exact ⟨found, d', count, place, looked.browsed⟩

/-- What holds of every round of a pass: the names still to come are those from entry `i` on, and what is known of the
file table may depend on them. -/
theorem forEachFile_through {start : FileSystem} (before : List CString → List (CString × File) → Prop)
    (each : ∀ fs d name rest, Browsed start fs (some (dir, d)) tidy → name ∈ names start → before (name :: rest) fs.fileTable →
      WpUnless excused (body name)
        (fun result fs' => Browsed start fs' (some (dir, d)) tidy ∧ good name result ∧ before rest fs'.fileTable) fs)
    (fuel i : Nat) (low : 1 ≤ i) (browsed : Browsed start fs (some (dir, d)) tidy) (pos : d.pos = (36 * i : Nat))
    (enough : (slots start).length - i < fuel) (here : before (namesIn ((slots start).drop i)) fs.fileTable) :
    WpUnless excused (forEachFile dir body fuel) (fun results fs' =>
      (results.length = (namesIn ((slots start).drop i)).length ∧
        ∀ pair ∈ (namesIn ((slots start).drop i)).zip results, good pair.1 pair.2) ∧ before [] fs'.fileTable ∧
      ∃ d', d'.openCnt = d.openCnt ∧ Browsed start fs' (some (dir, d')) tidy) fs := by
  induction fuel generalizing fs d i with
  | zero => omega
  | succ fuel ih =>
    rw [forEachFile]
    refine (dirReaddir_at browsed.running.volume browsed.running.session pos).unless.bind
      fun found fs₁ ⟨next, d₁, count, place, session, quiet⟩ => ?_
    have looked : Looked fs fs₁ (some (dir, d₁)) [] tidy := quiet.calm.looked browsed.running session
    have browsed₁ := browsed.trans looked.browsed
    rw [browsed.slots] at next place
    rw [← quiet.fileTable] at here
    cases found with
    | none =>
      rw [nameFrom_none next.symm] at here ⊢
      exact .inl ((wp_pure _).mpr ⟨⟨rfl, nofun⟩, here, d₁, count, browsed₁⟩)
    | some name =>
      obtain ⟨k, position, inside, left⟩ := nameFrom_some next.symm
      rw [List.length_drop] at inside
      have member := mem_of_namesIn low (left ▸ List.mem_cons_self)
      rw [List.drop_drop, ← Nat.add_assoc] at left
      rw [left] at here
      refine (each fs₁ d₁ name _ browsed₁ member here).bind fun result fs₂ ⟨browsed₂, holds, here₂⟩ => ?_
      rw [position] at place
      refine (ih (i + k + 1) (by omega) browsed₂ place (by omega) here₂).bind
        fun results fs' ⟨⟨length, all⟩, here', d', count', browsed'⟩ => ?_
      refine .inl ((wp_pure _).mpr ⟨⟨?_, ?_⟩, here', d', count'.trans count, browsed'⟩)
      · rw [left, List.length_cons, List.length_cons, length]
      · rw [left, List.zip_cons_cons, List.forall_mem_cons]
        exact ⟨holds, all⟩

theorem forEachFile_unless {start : FileSystem}
    (each : ∀ fs d name, Browsed start fs (some (dir, d)) tidy → name ∈ names start →
      WpUnless excused (body name) (fun result fs' => Browsed start fs' (some (dir, d)) tidy ∧ good name result) fs)
    (fuel i : Nat) (low : 1 ≤ i) (browsed : Browsed start fs (some (dir, d)) tidy) (pos : d.pos = (36 * i : Nat))
    (enough : (slots start).length - i < fuel) :
    WpUnless excused (forEachFile dir body fuel) (fun results fs' =>
      results.length = (namesIn ((slots start).drop i)).length ∧
      (∀ pair ∈ (namesIn ((slots start).drop i)).zip results, good pair.1 pair.2) ∧
      ∃ d', d'.openCnt = d.openCnt ∧ Browsed start fs' (some (dir, d')) tidy) fs := by
  refine (forEachFile_through (fun _ _ => True) (fun fs d name _ browsed member _ => ?_) fuel i low browsed pos enough
    trivial).mono fun _ _ ⟨⟨length, all⟩, _, moved⟩ => ⟨length, all, moved⟩
  exact (each fs d name browsed member).mono fun _ _ ⟨browsed', holds⟩ => ⟨browsed', holds, trivial⟩

/-- The root directory is open for a program that leaves everything as it was, and only moves positions. -/
theorem inRoot_through (body : Addr → M α) (good : α → List (CString × File) → Prop) (running : Running fs none tidy)
    (runs : ∀ fs₁ dir d, d.pos = 36 → Browsed fs fs₁ (some (dir, d)) tidy → fs₁.fileTable = fs.fileTable →
      WpUnless excused (body dir) (fun result fs' => good result fs'.fileTable ∧
        ∃ d', d'.openCnt = d.openCnt ∧ Browsed fs fs' (some (dir, d')) tidy) fs₁) :
    WpUnless excused (do
        let dir ← dirOpenRoot
        let result ← body dir
        dirClose dir
        pure result) (fun result fs' => good result fs'.fileTable ∧ Browsed fs fs' none tidy) fs := by
  refine (dirOpenRoot_wp running.volume running.session).unless.bind fun dir fs₁ ⟨d, session, ⟨one, pos⟩, quiet, _⟩ => ?_
  have looked₁ : Looked fs fs₁ (some (dir, d)) [] tidy := quiet.calm.looked running session
  have browsed₁ := looked₁.browsed
  refine (runs fs₁ dir d pos browsed₁ quiet.fileTable).bind fun result fs₂ ⟨holds, d', count, browsed₂⟩ => ?_
  refine (dirClose_last browsed₂.running.volume browsed₂.running.session (count.trans one)).unless.bind
    fun _ fs' ⟨session', quiet'⟩ => .inl ((wp_pure _).mpr ⟨quiet'.fileTable ▸ holds, ?_⟩)
  have looked' : Looked fs₂ fs' none [] tidy := quiet'.calm.looked browsed₂.running session'
  exact browsed₂.trans looked'.browsed

theorem inRoot_unless (body : Addr → M α) (good : α → Prop) (running : Running fs none tidy)
    (runs : ∀ fs₁ dir d, d.pos = 36 → Browsed fs fs₁ (some (dir, d)) tidy → WpUnless excused (body dir)
      (fun result fs' => good result ∧ ∃ d', d'.openCnt = d.openCnt ∧ Browsed fs fs' (some (dir, d')) tidy) fs₁) :
    WpUnless excused (do
        let dir ← dirOpenRoot
        let result ← body dir
        dirClose dir
        pure result) (fun result fs' => good result ∧ Browsed fs fs' none tidy) fs :=
  inRoot_through body (fun result _ => good result) running fun fs₁ dir d pos browsed _ => runs fs₁ dir d pos browsed

/-- A pass over the root directory sees every name once, in the order of the entries. -/
theorem scanRoot_through (good : CString → α → Prop) (before : List CString → List (CString × File) → Prop)
    (running : Running fs none tidy) (here : before (names fs) fs.fileTable)
    (each : ∀ fs₁ dir d name rest, Browsed fs fs₁ (some (dir, d)) tidy → name ∈ names fs → before (name :: rest) fs₁.fileTable →
      WpUnless excused (body name)
        (fun result fs' => Browsed fs fs' (some (dir, d)) tidy ∧ good name result ∧ before rest fs'.fileTable) fs₁) :
    WpUnless excused (scanRoot body) (fun results fs' => ((results.length = (names fs).length ∧
      ∀ pair ∈ (names fs).zip results, good pair.1 pair.2) ∧ before [] fs'.fileTable) ∧ Browsed fs fs' none tidy) fs := by
  have pass : WpUnless excused _ _ fs := inRoot_through (fun dir => do
      let d ← getDir dir
      let fuel ← entriesOf d.inode
      forEachFile dir body fuel)
    (fun results table => (results.length = (names fs).length ∧ ∀ pair ∈ (names fs).zip results, good pair.1 pair.2) ∧
      before [] table) running
    fun fs₁ dir d pos browsed table => by
        have session := browsed.running.session
        apply WpUnless.after session.getDir
        apply WpUnless.after (entriesOf_eq browsed.running.volume.objects.blocks session)
        rw [browsed.slots]
        exact (forEachFile_through before (fun fs₁ d => each fs₁ dir d) _ 1 (Nat.le_refl 1) browsed pos (by omega)
          (table ▸ here)).mono fun results fs' ⟨all, done, moved⟩ => ⟨⟨all, done⟩, moved⟩
  simpa only [scanRoot, bind_assoc] using pass

theorem scanRoot_unless (good : CString → α → Prop) (running : Running fs none tidy)
    (each : ∀ fs₁ dir d name, Browsed fs fs₁ (some (dir, d)) tidy → name ∈ names fs →
      WpUnless excused (body name) (fun result fs' => Browsed fs fs' (some (dir, d)) tidy ∧ good name result) fs₁) :
    WpUnless excused (scanRoot body) (fun results fs' => (results.length = (names fs).length ∧
      ∀ pair ∈ (names fs).zip results, good pair.1 pair.2) ∧ Browsed fs fs' none tidy) fs := by
  refine (scanRoot_through good (fun _ _ => True) running trivial fun fs₁ dir d name _ browsed member _ => ?_).mono
    fun _ _ ⟨⟨all, _⟩, browsed⟩ => ⟨all, browsed⟩
  exact (each fs₁ dir d name browsed member).mono fun _ _ ⟨browsed', holds⟩ => ⟨browsed', holds, trivial⟩

theorem fsutilLs_wp (running : Running fs none) :
    Wp fsutilLs (fun printed fs' => printed = names fs ∧ Browsed fs fs' none) fs := by
  have each (fs₁ : FileSystem) (dir : Addr) (d : Dir) (name : CString) (browsed : Browsed fs fs₁ (some (dir, d)))
      (_ : name ∈ names fs) : WpUnless False (pure name : M CString)
        (fun result fs' => Browsed fs fs' (some (dir, d)) ∧ result = name) fs₁ := .inl ((wp_pure _).mpr ⟨browsed, rfl⟩)
  refine (scanRoot_unless (fun name result => result = name) running each).total.mono
    fun printed fs' ⟨⟨length, all⟩, browsed⟩ => ⟨?_, browsed⟩
  apply List.ext_getElem length
  intro k inside inside'
  exact all ((names fs)[k], printed[k]) (List.mem_iff_getElem.mpr ⟨k, by rw [List.length_zip]; omega, by simp⟩)

end Passes

end Comp310.Fs
