import Comp310.Fs.Shell

/-! What searching and exporting do to the positions of the files. Every file keeps its bytes, but `copy_out` leaves
the position of its file at the start, and `find_file` leaves that of every file at the end. -/

namespace Comp310.Proofs.ReadOnly
open Comp310.Fs Comp310.Lib

/-- The same names with the same files, and every position where it was. -/
structure Unchanged (fs fs' : FileSystem) : Prop where
  named : ∀ name sector, Named fs' name sector ↔ Named fs name sector
  length : ∀ name sector, Named fs name sector → (curData fs' sector).length = (curData fs sector).length
  bytes : ∀ name sector, Named fs name sector → contentOf fs' sector = contentOf fs sector
  positions : ∀ name sector, Named fs name sector → posOf fs' name = posOf fs name

/-- The program comes to its end, and nothing has changed. -/
def ReadsOnly (program : M α) (fs : FileSystem) : Prop :=
  ∃ result fs', program fs = some (result, fs') ∧ Unchanged fs fs'

/-- Every file has been read to its end. -/
def AllAtEnd (fs : FileSystem) : Prop := ∀ name sector, Named fs name sector → posOf fs name = (curData fs sector).length

variable {fs fs' : FileSystem} {state : Option (Addr × Dir)} {name : CString} {sector : Sector}

private theorem unchanged_iff (running : Running fs none) (browsed : Browsed fs fs' state) :
    Unchanged fs fs' ↔ ∀ name sector, Named fs name sector → posOf fs' name = posOf fs name := by
  refine ⟨Unchanged.positions, fun positions => ⟨fun name sector => by rw [browsed.named], ?_, ?_, positions⟩⟩
  · intro name sector named
    rw [browsed.data sector (running.volume.root.plain name sector named).2.2.2]
  · intro name sector named
    exact (browsed.alike (running.volume.root.plain name sector named).2.2.2).contentOf

section Search

private theorem matchesPattern_moves (running : Running fs state) (plain : PlainName name) (named : Named fs name sector)
    (pattern : CString) : WpUnless (posOf fs name < 0) (matchesPattern pattern name)
      (fun _ fs' => Looked fs fs' state name ∧ posOf fs' name = (curData fs sector).length) fs := by
  have root := running.volume.root
  have notRoot := (root.plain name sector named).2.2.2
  obtain ⟨length, _⟩ := contentOf_length running named.live
  have inside : -2147483648 ≤ (0 : Int) ∧ (0 : Int) < 2147483648 := by decide
  rw [matchesPattern]
  refine (fsutilSize_there running plain named).unless.bind fun size fs₁ ended => ?_
  obtain ⟨looked₁, pos, sized⟩ := ended
  rw [if_neg (by omega)]
  have first : WpUnless (posOf fs name < 0) (fsutilRead name (size % 4294967296).toNat)
      (fun _ fs₂ => Looked fs₁ fs₂ state name) fs₁ := by
    by_cases negative : posOf fs name < 0
    · exact (fsutilRead_unless looked₁.running plain _).imp id fun refused => ⟨negative, refused.2⟩
    · exact ((fsutilRead_wp looked₁.running plain (by omega) _).mono fun _ _ done => done.1).unless
  refine first.bind fun before fs₂ looked₂ => ?_
  have looked₂ := looked₁.trans looked₂
  refine (fsutilSeek_wp looked₂.running plain inside.1 inside.2).unless.bind fun _ fs₃ ended => ?_
  obtain ⟨looked₃, moved⟩ := ended
  have looked₃ := looked₂.trans looked₃
  have start : posOf fs₃ name = 0 := by
    rcases moved with ⟨_, absent, _⟩ | ⟨_, _, pos⟩
    · exact absurd (looked₂.named ▸ named) (absent sector)
    · exact pos
  have data : curData fs₃ sector = curData fs sector := looked₃.data _ notRoot
  have named₃ : Named fs₃ name sector := looked₃.named ▸ named
  refine (fsutilRead_whole looked₃.running plain named₃ start (by rw [sized, data])).unless.bind
    fun result fs₄ ended => .inl ?_
  obtain ⟨_, looked₄, pos₄⟩ := ended
  refine (wp_pure _).mpr ⟨looked₃.trans looked₄, ?_⟩
  rw [pos₄, data]

/-- The position of a name in a file table. -/
private abbrev posIn (table : List (CString × File)) (name : CString) : Int := (table.lookup name).elim 0 (·.pos)

/-- Before the rounds for `rest`: the files they are about are as they were, and all others have been read. -/
private structure Before (fs : FileSystem) (rest : List CString) (table : List (CString × File)) : Prop where
  once : rest.Nodup
  ahead : ∀ name ∈ rest, posIn table name = posOf fs name
  behind : ∀ name sector, Named fs name sector → name ∉ rest → posIn table name = (curData fs sector).length

private theorem findFile_moves (running : Running fs none) (pattern : CString) :
    WpUnless (∃ name sector, Named fs name sector ∧ posOf fs name < 0) (findFile pattern) (fun _ fs' =>
      Browsed fs fs' none ∧ ∀ name sector, Named fs name sector → posOf fs' name = (curData fs sector).length) fs := by
  have root := running.volume.root
  have all : Before fs (names fs) fs.fileTable :=
    ⟨root.names_nodup, fun _ _ => rfl, fun name sector named missing => absurd (mem_names.mpr ⟨sector, named⟩) missing⟩
  rw [findFile]
  refine (scanRoot_through (fun _ _ => True) (Before fs) running all fun fs₁ dir d name rest browsed member before => ?_).bind
    fun _ fs' ended => .inl ((wp_pure _).mpr
      ⟨ended.2, fun name sector named => ended.1.2.behind name sector named List.not_mem_nil⟩)
  obtain ⟨sector, named⟩ := mem_names.mp member
  have plain := (root.plain name sector named).1
  have notRoot := (root.plain name sector named).2.2.2
  have named₁ : Named fs₁ name sector := browsed.named ▸ named
  obtain ⟨fresh, once⟩ := List.nodup_cons.mp before.once
  have still : posOf fs₁ name = posOf fs name := before.ahead name List.mem_cons_self
  refine WpUnless.bind ((matchesPattern_moves browsed.running plain named₁ pattern).imp id
    fun refused => ⟨⟨name, sector, named, still ▸ refused.1⟩, refused.2⟩) fun hit fs₂ outcome => ?_
  obtain ⟨looked, pos⟩ := outcome
  refine .inl ((wp_pure _).mpr ⟨browsed.trans looked.browsed, trivial, once, fun other inside => ?_, fun other there named' outside => ?_⟩)
  · have differs : other ≠ name := fun same => fresh (same ▸ inside)
    exact (looked.posOf differs).trans (before.ahead other (List.mem_cons_of_mem _ inside))
  · by_cases same : other = name
    · subst same
      obtain rfl := root.functional named named'
      rw [browsed.data sector notRoot] at pos
      exact pos
    · refine (looked.posOf same).trans (before.behind other there named' fun inside => ?_)
      exact (List.mem_cons.mp inside).elim same outside

end Search

private theorem find_iff (running : Running fs none) (pattern : CString) : ReadsOnly (findFile pattern) fs ↔ AllAtEnd fs := by
  have moves := findFile_moves running pattern
  constructor
  · rintro ⟨found, fs', ran, unchanged⟩ name sector named
    rw [← unchanged.positions name sector named]
    exact (moves.result ran).2 name sector named
  · intro done
    rcases moves with ⟨found, fs', ran, browsed, moved⟩ | ⟨⟨name, sector, named, negative⟩, _⟩
    · refine ⟨found, fs', ran, (unchanged_iff running browsed).mpr fun name sector named => ?_⟩
      rw [moved name sector named, done name sector named]
    · have nonneg := (running.volume.objects.blocks.sound sector named.live).nonneg
      have pos := done name sector named
      omega

private theorem export_iff (running : Running fs none) (named : Named fs name sector) (writable : Bool) :
    ReadsOnly (copyOut name writable) fs ↔ posOf fs name = 0 := by
  have plain := (running.volume.root.plain name sector named).1
  obtain ⟨result, fs', ran, _, looked, pos⟩ := copyOut_wp running plain named writable
  constructor
  · rintro ⟨result', fs'', ran', unchanged⟩
    cases ran.symm.trans ran'
    rw [← unchanged.positions name sector named, pos]
  · intro start
    refine ⟨result, fs', ran, (unchanged_iff running looked.browsed).mpr fun other there named' => ?_⟩
    by_cases same : other = name
    · rw [same, pos, start]
    · exact looked.posOf same

/-- A search leaves everything as it was exactly where every file has been read to its end, whatever is searched for,
and an export exactly where the file has not been read at all. -/
theorem reads_only_iff (running : Running fs none) :
    (∀ pattern, ReadsOnly (findFile pattern) fs ↔ AllAtEnd fs) ∧
    ∀ name sector writable, Named fs name sector → (ReadsOnly (copyOut name writable) fs ↔ posOf fs name = 0) :=
  ⟨find_iff running, fun _ _ writable named => export_iff running named writable⟩

/-- A file that has just been opened can be exported, and one whose position was set to its end be searched. -/
theorem reads_only_file : ∃ start created opened sought, filesysInit smallDevice smallDevice_size true = some start ∧
    fsutilCreate [97] 5 start = some (1, created) ∧ fsutilSize [97] created = some (5, opened) ∧
    ReadsOnly (copyOut [97] true) opened ∧ fsutilSeek [97] 5 opened = some (0, sought) ∧ ReadsOnly (findFile [98]) sought := by
  have needed : wanted (5 : Nat) < 325 := by
    rw [wanted_eq (by decide), sectorsNeeded_eq (by decide)]
    decide
  obtain ⟨start, created, sector, ran, formatted, _, made, done, running, table⟩ := smallDevice_create (show 5 ≤ 8517120 by decide) needed
  have named : Named created [97] sector := (done.named [97] sector).mpr (.inr ⟨rfl, rfl⟩)
  have notRoot := (running.volume.root.plain [97] sector named).2.2.2
  have length : (curData created sector).length = 5 := done.fresh.length
  obtain ⟨_, opened, sized, looked₁, pos₁, rfl⟩ := fsutilSize_there running plain_a named
  have start₁ : posOf created [97] = 0 := by
    rw [posOf, table]
    rfl
  have named₁ : Named opened [97] sector := looked₁.named ▸ named
  obtain ⟨_, sought, moved, looked₂, ⟨_, absent, _⟩ | ⟨rfl, _, pos₂⟩⟩ :=
    fsutilSeek_wp looked₁.running plain_a (show -2147483648 ≤ (5 : Int) by decide) (by decide)
  · exact absurd named₁ (absent sector)
  rw [length] at sized
  refine ⟨start, created, opened, sought, ran, made, sized, ?_, moved, ?_⟩
  · exact ((reads_only_iff looked₁.running).2 [97] sector true named₁).mpr (pos₁.trans start₁)
  · refine ((reads_only_iff looked₂.running).1 [98]).mpr fun name there other => ?_
    rw [looked₂.named, looked₁.named] at other
    rcases (done.named name there).mp other with before | ⟨rfl, rfl⟩
    · exact absurd before (formatted.unnamed name there)
    · rw [pos₂, looked₂.data there notRoot, looked₁.data there notRoot, length]

/-- With the position at the second of five bytes, an export leaves it at the start and a search at the end. -/
theorem positions_lost : ∃ start created fs exported searched found, filesysInit smallDevice smallDevice_size true = some start ∧
    fsutilCreate [97] 5 start = some (1, created) ∧ fsutilSeek [97] 2 created = some (0, fs) ∧ posOf fs [97] = 2 ∧
    copyOut [97] true fs = some ((0, some []), exported) ∧ posOf exported [97] = 0 ∧ ¬ ReadsOnly (copyOut [97] true) fs ∧
    findFile [98] fs = some (found, searched) ∧ posOf searched [97] = 5 ∧ ¬ ReadsOnly (findFile [98]) fs := by
  have needed : wanted (5 : Nat) < 325 := by
    rw [wanted_eq (by decide), sectorsNeeded_eq (by decide)]
    decide
  obtain ⟨start, created, sector, ran, formatted, _, made, done, running₁, _⟩ := smallDevice_create (show 5 ≤ 8517120 by decide) needed
  have named₁ : Named created [97] sector := (done.named [97] sector).mpr (.inr ⟨rfl, rfl⟩)
  have notRoot := (running₁.volume.root.plain [97] sector named₁).2.2.2
  obtain ⟨_, fs, sought, looked, ⟨_, absent, _⟩ | ⟨rfl, _, pos⟩⟩ :=
    fsutilSeek_wp running₁ plain_a (show -2147483648 ≤ (2 : Int) by decide) (by decide)
  · exact absurd named₁ (absent sector)
  have running := looked.running
  have named : Named fs [97] sector := looked.named ▸ named₁
  have length : (curData fs sector).length = 5 := by
    rw [looked.data sector notRoot, done.fresh.length]
    rfl
  have bytes : contentOf fs sector = List.replicate 5 0 := (looked.content notRoot).trans done.fresh.contentOf
  obtain ⟨_, exported, out, rfl, _, pos'⟩ := copyOut_wp running plain_a named true
  rw [if_pos rfl, bytes] at out
  have kept := fun writable => export_iff running named writable
  rcases findFile_moves running [98] with ⟨found, searched, ran', _, moved⟩ | ⟨⟨name, there, other, negative⟩, _⟩
  · refine ⟨start, created, fs, exported, searched, found, ran, made, sought, pos, out, pos', ?_, ran', ?_, ?_⟩
    · rw [kept, pos]
      decide
    · rw [moved [97] sector named, length]
    · intro readsOnly
      have done := (find_iff running [98]).mp readsOnly [97] sector named
      rw [pos, length] at done
      cases done
  · -- no other file is there to have a position before its start
    rw [looked.named, done.named] at other
    rcases other with other | ⟨rfl, _⟩
    · exact absurd other (formatted.unnamed name there)
    · omega

end Comp310.Proofs.ReadOnly
