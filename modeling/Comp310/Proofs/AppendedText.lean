import Comp310.Fs.CopyIn
import Comp310.Fs.Elsewhere
import Comp310.Fs.WriteCommand
import Comp310.Proofs.ByteArray

/-! One `write` command after another appends to a file: each puts two NULs behind its text, and the next one starts at
the first of them. -/

namespace Comp310.Proofs.AppendedText
open Comp310.Fs Comp310.Lib Comp310.Proofs.ByteArray

/-- The file was created with size 0, and the commands have written these lists of words to it, with nothing but commands
about other files between them. -/
inductive WrittenTo (name : CString) (start : FileSystem) : List (List CString) → FileSystem → Prop where
  | created {fs : FileSystem} (ran : fsutilCreate name 0 start = some (1, fs)) : WrittenTo name start [] fs
  | write {commands : List (List CString)} {fs fs' : FileSystem} (before : WrittenTo name start commands fs) {args : List CString}
      (file : (args.map strip).getD 1 [] = name) (ran : writeCommand args fs = some (.done, fs')) :
      WrittenTo name start (commands ++ [writeWords args]) fs'
  | elsewhere {commands : List (List CString)} {fs fs' : FileSystem} (before : WrittenTo name start commands fs) {shell : Shell}
      (other : Elsewhere name shell) (ran : shell.run fs = some (⟨⟩, fs')) : WrittenTo name start commands fs'

/-- The texts of the commands, one behind the other. -/
def texts (commands : List (List CString)) : CString := (commands.map joinWords).flatten

/-- The bytes of the file that was written to. -/
def written (commands : List (List CString)) : List UInt8 := if commands = [] then [] else texts commands ++ [0, 0]

/-- The file has the bytes, and its position is behind the texts. -/
structure Holds (fs : FileSystem) (name : CString) (commands : List (List CString)) (sector : Sector) : Prop where
  running : Running fs none
  named : Named fs name sector
  content : contentOf fs sector = written commands
  pos : posOf fs name = (texts commands).length

variable {fs fs' : FileSystem} {name : CString} {commands : List (List CString)} {sector : Sector} {args words : List CString}

theorem texts_append : texts (commands ++ [words]) = texts commands ++ joinWords words := by
  simp only [texts, List.map_append, List.map_singleton, List.flatten_append, List.flatten_singleton]

/-- The buffer is put over the two NULs at the end. -/
theorem overwrite_written (text : CString) : overwrite (written commands) (texts commands).length (text ++ [0, 0]) =
    texts commands ++ text ++ [0, 0] := by
  unfold written
  split
  next empty =>
    rw [empty]
    exact overwrite_all (Nat.zero_le _)
  next =>
    rw [overwrite_append, List.drop_eq_nil_of_le, List.append_nil, List.append_assoc]
    rw [List.length_append]
    exact Nat.le_add_left _ _

theorem terminated_text (text : CString) : terminated (text ++ [0, 0]) = text ++ [0, 0] := by
  have last : (text ++ [(0 : UInt8), 0]).length - 1 = text.length + 1 := by
    rw [List.length_append]
    rfl
  rw [terminated, last, List.set_append_right _ _ (Nat.le_add_right _ _), Nat.add_sub_cancel_left]
  rfl

/-- A command that succeeds has put its buffer into the file in full. -/
theorem writeCommand_done (ran : writeCommand args fs = some (.done, fs')) : writeWords args ≠ [] ∧
    (joinWords (writeWords args)).length + 2 < 2147483648 ∧
    fsutilWrite ((args.map strip).getD 1 []) (joinWords (writeWords args) ++ [0, 0]) fs =
      some (((joinWords (writeWords args) ++ [0, 0]).length : Int), fs') := by
  unfold writeCommand at ran
  split at ran
  next => cases ran
  next many =>
    have some : writeWords args ≠ [] := by
      intro empty
      have length := congrArg List.length empty
      rw [writeWords, List.length_drop, List.length_map, List.length_nil] at length
      omega
    obtain ⟨buffer, size⟩ := writeBuffer_eq some
    have length : (joinWords (writeWords args) ++ [(0 : UInt8), 0]).length = writeSize (writeWords args) := by
      rw [size, List.length_append]
      rfl
    split at ran
    next => cases ran
    next small =>
      obtain ⟨bytesWritten, fs₁, wrote, ran⟩ := bind_some ran
      split at ran
      next => cases ran
      next =>
        split at ran
        next => cases ran
        next whole =>
          cases ran
          rw [buffer, Decidable.not_not.mp whole, ← length] at wrote
          exact ⟨some, by omega, wrote⟩

theorem write_holds (plain : PlainName name) (holds : Holds fs name commands sector) (file : (args.map strip).getD 1 [] = name)
    (ran : writeCommand args fs = some (.done, fs')) : Holds fs' name (commands ++ [writeWords args]) sector := by
  have running := holds.running
  obtain ⟨some, short, wrote⟩ := writeCommand_done ran
  rw [file] at wrote
  have length : (joinWords (writeWords args) ++ [(0 : UInt8), 0]).length = (joinWords (writeWords args)).length + 2 := List.length_append
  have positive : 0 < (joinWords (writeWords args) ++ [(0 : UInt8), 0]).length := by omega
  rcases fsutilWrite_result running plain positive (by omega) wrote with ⟨missing, _⟩ | ⟨_, nonneg, _, fits, _⟩ | ⟨nothing, _⟩
  · omega
  · have limit := fits.1
    rcases (fsutilWrite_wp running plain positive nonneg (by omega)).result wrote with ⟨missing, _⟩ | ⟨there, ok, _, returned, done, pos⟩
    · omega
    cases ok with
    | false =>
      rw [if_neg Bool.false_ne_true] at returned
      omega
    | true =>
      obtain rfl := running.volume.root.functional holds.named done.named
      refine ⟨done.running, named_congr done.slots ▸ holds.named, ?_, ?_⟩
      · have content := done.contentOf running (by rw [terminated_length]; exact positive)
        rw [holds.pos, Int.toNat_natCast, terminated_text, holds.content, overwrite_written] at content
        rw [content, written, if_neg (List.concat_ne_nil _ _), texts_append]
      · rw [holds.pos] at limit pos
        rw [length] at limit pos
        rw [pos, texts_append, List.length_append, offsetT_eq (by omega) (by omega)]
        omega
  · omega

/-- The file is empty at first, and a command about another file leaves it as it is. -/
theorem writtenTo_holds {start : FileSystem} (running : Running start none) (plain : PlainName name)
    (run : WrittenTo name start commands fs) : ∃ sector, Holds fs name commands sector := by
  induction run with
  | created ran =>
    by_cases long : 255 ≤ name.length
    · have refused := (Prod.mk.inj (Option.some.inj ((fsutilCreate_refused long).symm.trans ran))).1
      cases refused
    · obtain ⟨running', success, returned, created⟩ := (fsutilCreate_wp running plain 0 (by omega)).result ran
      cases success with
      | false => cases returned
      | true =>
        obtain ⟨sector, done⟩ := created.done rfl
        have missing : ∀ sector, ¬ Named start name sector := by
          intro other named
          exact (created.outcome.mp rfl).2.1 (.inr (.inr ⟨other, named⟩))
        refine ⟨sector, running', (done.named name sector).mpr (.inr ⟨rfl, rfl⟩), done.fresh.contentOf, ?_⟩
        rw [posOf, created.keeps.fileTable, running.not_opened missing]
        rfl
  | write before file ran ih =>
    obtain ⟨sector, holds⟩ := ih
    exact ⟨sector, write_holds plain holds file ran⟩
  | elsewhere before other ran ih =>
    obtain ⟨sector, holds⟩ := ih
    have kept := other.kept holds.running holds.named ran
    exact ⟨sector, other.allowed.running holds.running ran, kept.named, kept.content.trans holds.content, kept.pos.trans holds.pos⟩

/-- Behind the texts of all commands the file ends with two NULs, and its position is where the next text will go. -/
theorem writes_append {device : Array Block} {bounded : device.size < 2 ^ 32} {start : FileSystem}
    (reached : ShellReached Shell.Allowed device bounded start) (plain : PlainName name) (run : WrittenTo name start commands fs)
    (some : commands ≠ []) : ∃ sector, Named fs name sector ∧ contentOf fs sector = texts commands ++ [0, 0] ∧
      posOf fs name = (texts commands).length := by
  obtain ⟨sector, holds⟩ := writtenTo_holds reached.running plain run
  refine ⟨sector, holds.named, ?_, holds.pos⟩
  rw [holds.content, written, if_neg some]

section Example

/-- `write a b c` -/
private def typed : List CString := [[119, 114, 105, 116, 101], [97], [98], [99, 10]]

/-- `write /a d` -/
private def aliased : List CString := [[119, 114, 105, 116, 101], [47, 97], [100, 10]]

private theorem typed_written : ∃ start created fs, filesysInit smallDevice smallDevice_size true = some start ∧
    fsutilCreate [97] 0 start = some (1, created) ∧ writeCommand typed created = some (.done, fs) ∧ Running fs none ∧
    fs.fileTable.lookup [47, 97] = none := by
  have nothing : wanted (0 : Nat) = 0 := by
    rw [wanted_eq (by decide), sectorsNeeded_eq (by decide)]
    rfl
  obtain ⟨start, created, sector, ran, formatted, count, made, done, running, table⟩ :=
    smallDevice_create (show 0 ≤ 8517120 by decide) (show wanted (0 : Nat) < 325 by omega)
  have named : Named created [97] sector := (done.named [97] sector).mpr (.inr ⟨rfl, rfl⟩)
  have first : posOf created [97] = 0 := by
    rw [posOf, table]
    rfl
  let buffer : List UInt8 := [98, 32, 99, 0, 0]
  have five : buffer.length = 5 := rfl
  obtain ⟨written, fs, wrote, ⟨_, absent, _⟩ | ⟨sector', ok, fits, counted, outcome, _⟩⟩ :=
    fsutilWrite_wp running plain_a (show 0 < buffer.length by decide) (by omega) (by omega)
  · exact absurd named (absent sector)
  obtain rfl := running.volume.root.functional named outcome.named
  have room : ok = true := by
    have short := fresh_short done (by decide)
    have one : sectorsNeeded (bytesToSectors (0 + 1 : Nat)) = 1 := by
      rw [bytesToSectors_eq (by decide) (by decide)]
      exact sectorsNeeded_eq (by decide)
    have left := done.count
    have same : shortOf created (curData created sector) (0 + (5 : Nat)) = shortOf created (curData created sector) (0 + 1 : Nat) := rfl
    rw [fits, first, five]
    refine ⟨by decide, ?_⟩
    rw [formatted.rootShort.1, List.length_nil] at left
    rw [same]
    omega
  rw [if_pos room, five] at counted
  have command : writeCommand typed created = some (.done, fs) := by
    have size : ¬ 2147483648 ≤ writeSize (writeWords typed) := by decide
    have text : writeBuffer (writeWords typed) = buffer := by decide
    rw [writeCommand, if_neg (by decide), if_neg size, text]
    refine (run_bind wrote _).trans ?_
    rw [counted]
    rfl
  refine ⟨start, created, fs, ran, made, command, outcome.running, ?_⟩
  rw [outcome.others [47, 97] (by decide), table]
  rfl

theorem writes_append_line : ∃ start fs, ShellReached Shell.Allowed smallDevice smallDevice_size start ∧ WrittenTo [97] start [[[98], [99]]] fs ∧
    ∃ sector, Named fs [97] sector ∧ contentOf fs sector = [98, 32, 99, 0, 0] ∧ posOf fs [97] = 3 := by
  obtain ⟨start, created, fs, ran, made, command, _⟩ := typed_written
  have reached : ShellReached Shell.Allowed smallDevice smallDevice_size start := .formatted ran
  have run : WrittenTo [97] start [[[98], [99]]] fs := .write (.created made) rfl command
  exact ⟨start, fs, reached, run, writes_append reached plain_a run (List.cons_ne_nil _ _)⟩

private theorem open_again (running : Running fs none) (named : Named fs [97] sector) (unlisted : fs.fileTable.lookup [47, 97] = none) :
    ∃ addr middle, openByFname [47, 97] fs = some (some (fileOpen addr), middle) ∧ Volume middle ∧ Named middle [97] sector ∧
      OpenAt middle addr sector ∧ contentOf middle sector = contentOf fs sector := by
  have notRoot := (running.volume.root.plain [97] sector named).2.2.2
  obtain ⟨result, middle, opening, calm, _, absent, present⟩ := filesysOpen_path_wp running.volume running.session
    (show ([47, 97] : CString) ≠ [] by decide) (show (splitPathFilename [47, 97]).2 = [97] by decide) plain_a
  cases result with
  | none => exact absurd named (absent rfl sector)
  | some file =>
    obtain ⟨fresh, there, named', opened⟩ := present file rfl
    obtain rfl := running.volume.root.functional named named'
    have missing : middle.fileTable.lookup [47, 97] = none := by rw [calm.steady.keeps.fileTable, unlisted]
    let listed : FileSystem := { middle with fileTable := middle.fileTable ++ [([47, 97], file)] }
    have added : addToFileTable file [47, 97] middle = some (⟨⟩, listed) := by
      rw [addToFileTable, run_bind (show getFileByFname [47, 97] middle = some (none, middle) by rw [← missing]; rfl)]
      rfl
    refine ⟨file.inode, listed, ?_, calm.steady.volume.withTable _, named_congr calm.steady.slots ▸ named, opened,
      (calm.store.alike (calm.data sector notRoot)).contentOf⟩
    rw [openByFname, run_bind (show getFileByFname [47, 97] fs = some (none, fs) by rw [← unlisted]; rfl)]
    dsimp only
    rw [run_bind opening]
    dsimp only
    rw [run_bind added, ← fresh]
    rfl

/-- The second text is put over the first, since the other spelling has a position of its own. -/
theorem writes_lost : ∃ start created first fs sector, filesysInit smallDevice smallDevice_size true = some start ∧
    fsutilCreate [97] 0 start = some (1, created) ∧ writeCommand typed created = some (.done, first) ∧
    writeCommand aliased first = some (.done, fs) ∧ Named fs [97] sector ∧ contentOf fs sector = [100, 0, 0, 0, 0] ∧
    contentOf fs sector ≠ texts [writeWords typed, writeWords aliased] ++ [0, 0] := by
  obtain ⟨start, created, first, ran, made, command, running, unlisted⟩ := typed_written
  have reached : ShellReached Shell.Allowed smallDevice smallDevice_size start := .formatted ran
  obtain ⟨sector, holds⟩ := writtenTo_holds reached.running plain_a (.write (.created made) rfl command)
  have named := holds.named
  have before : contentOf first sector = [98, 32, 99, 0, 0] := holds.content
  obtain ⟨addr, middle, opening, volume, named', ⟨inode, opened, home⟩, content⟩ := open_again running named unlisted
  have nonzero : inode.sector ≠ 0 := home ▸ (volume.root.plain [97] sector named').2.2.1
  have blocks := volume.objects.blocks
  have formed : WellFormed (Live middle) middle := ⟨blocks, volume.objects.blank⟩
  have readable := blocks.readable named'.live
  have length := congrArg List.length (content.trans before)
  rw [contentOf, fileRange_length] at length
  let buffer : List UInt8 := [100, 0, 0]
  obtain ⟨written, after, wrote, ok, fits, all, done⟩ := inodeWriteAt_wp blocks opened nonzero (show 0 < buffer.length by decide)
    (show 0 + buffer.length < 2147483648 by decide)
  have was : inode.data = curData middle sector := by rw [← home, blocks.handles.curData opened]
  have inside : ((0 + 3 : Nat) : Int) ≤ (curData middle sector).length := by
    have nonneg := readable.nonneg
    change (curData middle sector).length.toNat = 5 at length
    omega
  obtain rfl : ok = true := by
    rw [fits, was]
    exact fits_inside readable inside
  have notRoot := (volume.root.plain [97] sector named').2.2.2
  have entries : slots after = slots middle :=
    ((done.others 1 Volume.root_live (by rw [home]; exact Ne.symm notRoot)).alike (by decide)).slots
  have overwritten := formed.content_written opened nonzero (show 0 < buffer.length by decide) done
  rw [home, content, before] at overwritten
  rw [if_pos rfl] at all
  let fs : FileSystem := { after with fileTable := after.fileTable.map fun entry =>
    if entry.1 = [47, 97] then ([47, 97], { fileOpen addr with pos := 1 }) else entry }
  have second : writeCommand aliased first = some (.done, fs) := by
    have size : ¬ 2147483648 ≤ writeSize (writeWords aliased) := by decide
    have text : writeBuffer (writeWords aliased) = buffer := by decide
    have writing : fileWrite (fileOpen addr) buffer middle = some ((3, { fileOpen addr with pos := 1 }), after) := by
      have terminated : buffer.set (buffer.length - 1) 0 = buffer := by decide
      have three : written = 3 := all
      rw [three] at wrote
      rw [fileWrite, terminated]
      refine (run_bind wrote _).trans ?_
      rfl
    have stored : fsutilWrite [47, 97] buffer first = some (3, fs) := by
      rw [fsutilWrite, run_bind opening]
      dsimp only
      rw [run_bind writing]
      rfl
    rw [writeCommand, if_neg (by decide), if_neg size, text]
    refine (run_bind stored _).trans ?_
    rfl
  refine ⟨start, created, first, fs, sector, ran, made, command, second, named_congr entries ▸ named', overwritten, ?_⟩
  change contentOf after sector ≠ _
  rw [overwritten]
  decide

end Example

end Comp310.Proofs.AppendedText
