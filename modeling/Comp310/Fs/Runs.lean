import Comp310.Fs.Commands
import Comp310.Fs.Format

/-! The commands of fsutil.c on files, and runs of any number of them. -/

namespace Comp310.Fs
open Comp310.Lib

inductive Command where
  | create (name : CString) (isize : Nat)
  | write (name : CString) (buffer : List UInt8)
  | read (name : CString) (count : Nat)
  | seek (name : CString) (offset : Int)
  | size (name : CString)
  | rm (name : CString)

/-- The value that a command returns and the bytes it puts into a buffer. -/
abbrev Reply := Int × List UInt8

namespace Command

def name : Command → CString
  | .create name _ | .write name _ | .read name _ | .seek name _ | .size name | .rm name => name

def run : Command → M Reply
  | .create name isize => do
    let result ← fsutilCreate name isize
    pure (result, [])
  | .write name buffer => do
    let result ← fsutilWrite name buffer
    pure (result, [])
  | .read name count => fsutilRead name count
  | .seek name offset => do
    let result ← fsutilSeek name offset
    pure (result, [])
  | .size name => do
    let result ← fsutilSize name
    pure (result, [])
  | .rm name => do
    let result ← fsutilRm name
    pure (result, [])

/-- The name is a single component and the other arguments are values of their types; a buffer is not empty. -/
structure Valid (command : Command) : Prop where
  plain : PlainName command.name
  buffer : ∀ name buffer, command = .write name buffer → 1 ≤ buffer.length ∧ buffer.length < 2147483648
  offset : ∀ name offset, command = .seek name offset → -2147483648 ≤ offset ∧ offset < 2147483648

/-- Positions that stay in the file: no seek before its start, and no write of a single byte. -/
structure Forward (command : Command) : Prop where
  buffer : ∀ name buffer, command = .write name buffer → 2 ≤ buffer.length
  offset : ∀ name offset, command = .seek name offset → 0 ≤ offset

/-- The reply by which a command reports success. -/
def Succeeds : Command → Reply → Prop
  | .create _ _, reply => reply.1 = 1
  | .write _ buffer, reply => reply.1 = buffer.length
  | .rm _, reply => reply.1 = 1
  | _, reply => 0 ≤ reply.1

end Command

/-- The replies of commands that are given one after another. -/
def perform : List Command → M (List Reply)
  | [] => pure []
  | command :: rest => do
    let reply ← command.run
    let replies ← perform rest
    pure (reply :: replies)

/-- What a command that succeeds does. -/
inductive Effect (fs fs' : FileSystem) : Command → Prop where
  | created {name : CString} {isize : Nat} {sector : Sector} (ran : CreateRan fs fs' none name (offsetT isize) true)
      (done : CreateDone fs fs' name (offsetT isize) sector) : Effect fs fs' (.create name isize)
  | written {name : CString} {buffer : List UInt8} {sector : Sector} {start : Nat}
      (done : Written fs fs' none name sector start (terminated buffer) true)
      (fits : Fits fs (curData fs sector) (start + (terminated buffer).length : Nat)) : Effect fs fs' (.write name buffer)
  | looked {command : Command} (looked : Looked fs fs' none command.name) : Effect fs fs' command
  | removed {name : CString} {sector : Sector} (done : Unlinked fs fs' name sector) : Effect fs fs' (.rm name)

/-- The states that commands lead to from a formatted file system, all of them successful. -/
inductive Succeeding (device : Array Block) (bounded : device.size < 2 ^ 32) : FileSystem → Prop where
  | formatted (ran : filesysInit device bounded true = some fs) : Succeeding device bounded fs
  | step (before : Succeeding device bounded fs) {command : Command} (valid : command.Valid) (forward : command.Forward)
      (ran : command.run fs = some (reply, fs')) (success : command.Succeeds reply) : Succeeding device bounded fs'

variable {fs fs' : FileSystem} {command : Command} {reply : Reply} {name : CString} {buffer : List UInt8} {size : Nat} {offset : Int}

theorem run_pure {program : M Int} (ran : (do
    let result ← program
    pure (result, [])) fs = some (reply, fs')) : program fs = some (reply.1, fs') ∧ reply.2 = ([] : List UInt8) := by
  obtain ⟨⟨result, after⟩, first, rest⟩ := Option.bind_eq_some_iff.mp ran
  cases rest
  exact ⟨first, rfl⟩

/-- Whatever its arguments, a command that returns leaves a file system for the next one. -/
theorem Command.Valid.running (valid : command.Valid) (running : Running fs none) (ran : command.run fs = some (reply, fs')) :
    Running fs' none := by
  have plain : PlainName command.name := valid.plain
  cases command with
  | create name isize =>
    dsimp only [Command.name] at plain
    obtain ⟨ran, _⟩ := run_pure ran
    by_cases long : 255 ≤ name.length
    · have refused := Option.some.inj ((fsutilCreate_refused long).symm.trans ran)
      exact (Prod.mk.inj refused).2 ▸ running
    · exact ((fsutilCreate_wp running plain isize (by omega)).result ran).1
  | write name buffer =>
    obtain ⟨ran, _⟩ := run_pure ran
    obtain ⟨positive, short⟩ := valid.buffer name buffer rfl
    rcases fsutilWrite_result running plain positive short ran with
      ⟨_, _, _, looked⟩ | ⟨_, _, sector, _, written⟩ | ⟨_, sector, _, ⟨_, _, _, start, buffer', _, written⟩ | ⟨_, looked⟩⟩
    · exact looked.running
    · exact written.running
    · exact written.running
    · exact looked.running
  | read name count =>
    dsimp only [Command.name] at plain
    by_cases negative : posOf fs name < 0
    · exact (fsutilRead_negative running plain negative ran).1.running
    · exact ((fsutilRead_wp running plain (by omega) count).result ran).1.running
  | seek name offset =>
    obtain ⟨ran, _⟩ := run_pure ran
    obtain ⟨low, high⟩ := valid.offset name offset rfl
    exact ((fsutilSeek_wp running plain low high).result ran).1.running
  | size name =>
    obtain ⟨ran, _⟩ := run_pure ran
    exact ((fsutilSize_wp running plain).result ran).1.running
  | rm name =>
    obtain ⟨ran, _⟩ := run_pure ran
    rcases (fsutilRm_wp running plain).result ran with ⟨_, _, looked⟩ | ⟨_, sector, unlinked⟩
    · exact looked.running
    · exact unlinked.running

theorem Command.Valid.effect (valid : command.Valid) (running : Running fs none) (ran : command.run fs = some (reply, fs'))
    (success : command.Succeeds reply) : Effect fs fs' command := by
  have plain : PlainName command.name := valid.plain
  cases command with
  | create name isize =>
    dsimp only [Command.name] at plain
    obtain ⟨ran, _⟩ := run_pure ran
    have returned : reply.1 = 1 := success
    by_cases long : 255 ≤ name.length
    · have refused := (Prod.mk.inj (Option.some.inj ((fsutilCreate_refused long).symm.trans ran))).1
      omega
    · obtain ⟨_, made, result, created⟩ := (fsutilCreate_wp running plain isize (by omega)).result ran
      cases made with
      | false => cases result.symm.trans returned
      | true =>
        obtain ⟨sector, done⟩ := created.done rfl
        exact .created created done
  | write name buffer =>
    obtain ⟨ran, _⟩ := run_pure ran
    obtain ⟨positive, short⟩ := valid.buffer name buffer rfl
    have returned : reply.1 = buffer.length := success
    rcases fsutilWrite_result running plain positive short ran with
      ⟨missing, _⟩ | ⟨_, nonneg, sector, fits, written⟩ | ⟨nothing, _⟩
    · omega
    · refine .written written ?_
      rwa [terminated_length, Int.natCast_add, Int.toNat_of_nonneg nonneg]
    · omega
  | read name count =>
    dsimp only [Command.name] at plain
    by_cases negative : posOf fs name < 0
    · exact .looked (fsutilRead_negative running plain negative ran).1
    · exact .looked ((fsutilRead_wp running plain (by omega) count).result ran).1
  | seek name offset =>
    obtain ⟨ran, _⟩ := run_pure ran
    obtain ⟨low, high⟩ := valid.offset name offset rfl
    exact .looked ((fsutilSeek_wp running plain low high).result ran).1
  | size name =>
    obtain ⟨ran, _⟩ := run_pure ran
    exact .looked ((fsutilSize_wp running plain).result ran).1
  | rm name =>
    obtain ⟨ran, _⟩ := run_pure ran
    have returned : reply.1 = 1 := success
    rcases (fsutilRm_wp running plain).result ran with ⟨nothing, _⟩ | ⟨_, sector, unlinked⟩
    · omega
    · exact .removed unlinked

theorem Formatted.running {size : Nat} (formatted : Formatted fs size) : Running fs none :=
  ⟨formatted.volume, formatted.session, by
    constructor
    · rw [formatted.fileTable]
      exact List.nodup_nil
    · intro name file found
      rw [formatted.fileTable] at found
      cases found⟩

theorem Succeeding.running {device : Array Block} {bounded : device.size < 2 ^ 32} (succeeding : Succeeding device bounded fs) :
    Running fs none := by
  induction succeeding with
  | formatted ran => exact (filesysInit_formatted bounded ran).running
  | step _ valid _ ran _ ih => exact valid.running ih ran

section Example

/-- A device of 400 sectors. -/
abbrev smallDevice : Array Block := Array.replicate 400 zeros

theorem smallDevice_size : smallDevice.size < 2 ^ 32 := by simp

theorem plain_a : PlainName [97] := ⟨by decide, by decide, by decide, by decide, by decide⟩

theorem smallDevice_format : ∃ fs, filesysInit smallDevice smallDevice_size true = some fs ∧ Formatted fs 400 ∧
    freeCount fs = 325 := by
  obtain ⟨fs, ran, formatted⟩ := filesysInit_format smallDevice_size (formattable_small (by simp) (by simp))
  have count := formatted.count
  rw [Array.size_replicate] at formatted
  rw [Array.size_replicate, (mapBlocks_one (by decide) (by decide)).2, rootBlocks_eq] at count
  exact ⟨fs, ran, formatted, by omega⟩

theorem smallDevice_create {isize : Nat} (small : isize ≤ 8517120) (room : wanted isize < 325) :
    ∃ fs fs' sector, filesysInit smallDevice smallDevice_size true = some fs ∧ Formatted fs 400 ∧ freeCount fs = 325 ∧
      fsutilCreate [97] isize fs = some (1, fs') ∧ CreateDone fs fs' [97] isize sector ∧ Running fs' none ∧
      fs'.fileTable = [] := by
  obtain ⟨fs, ran, formatted, count⟩ := smallDevice_format
  obtain ⟨_, fs', created, rfl, done⟩ := formatted.filesysCreate_wp plain_a (by decide)
    (show FileFits fs isize from ⟨by omega, by omega, by omega⟩)
  have returned : fsutilCreate [97] isize fs = some (1, fs') := by
    rw [fsutilCreate, if_neg (by decide), offsetT_eq (by omega) (by omega)]
    exact run_bind created _
  have running := done.running formatted.running
  have fileTable := done.keeps.fileTable.trans formatted.fileTable
  obtain ⟨sector, done⟩ := done.done rfl
  exact ⟨fs, fs', sector, ran, formatted, count, returned, done, running, fileTable⟩

theorem smallDevice_open {isize : Nat} (small : isize ≤ 8517120) (room : wanted isize < 325) :
    ∃ fs addr inode, Objects (Live fs) fs ∧ (addr, inode) ∈ fs.openInodes ∧ inode.sector ≠ 0 ∧ inode.sector ≠ 1 ∧
      Named fs [97] inode.sector ∧ inode.data.length = isize ∧ freeCount fs = 324 - wanted isize ∧
      ∃ start created, filesysInit smallDevice smallDevice_size true = some start ∧
        fsutilCreate [97] isize start = some (1, created) ∧ inodeOpen inode.sector created = some (addr, fs) := by
  obtain ⟨start, created, sector, ran, formatted, count, made, done, running, _⟩ := smallDevice_create small room
  have named : Named created [97] sector := (done.named [97] sector).mpr (.inr ⟨rfl, rfl⟩)
  obtain ⟨addr, fs, open_, opened⟩ := inodeOpen_wp running.volume.objects named.live
  obtain ⟨inode, here, home⟩ := opened.here
  have same : slots fs = slots created := by
    rw [slots, slots, opened.store.disk, opened.data 1]
  have length := opened.objects.blocks.handles.curData here
  have short : rootShort start = [] := by
    have readable := formatted.volume.objects.blocks.readable Volume.root_live
    refine shortOf_inside readable ?_
    rw [formatted.length, slotFor, formatted.entries]
    decide
  have left := done.count
  rw [short, List.length_nil, count] at left
  obtain ⟨_, _, notMap, notRoot⟩ := running.volume.root.plain _ _ named
  refine ⟨fs, addr, inode, ?_, here, home ▸ notMap, home ▸ notRoot, ?_, ?_, ?_, start, created, ran, made, home ▸ open_⟩
  · rw [live_congr same]
    exact opened.objects
  · rw [named_congr same, home]
    exact named
  · rw [← length, home, opened.data sector, done.fresh.length]
  · rw [opened.store.freeCount]
    omega

end Example

end Comp310.Fs
