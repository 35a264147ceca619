import Comp310.Fs.Enduring
import Comp310.Fs.Shell

/-! What a command about one file leaves of another. -/

namespace Comp310.Fs
open Comp310.Lib

/-- The file is still there, with the same bytes and the same position. -/
structure FileKept (fs fs' : FileSystem) (name : CString) (sector : Sector) : Prop where
  named : Named fs' name sector
  content : contentOf fs' sector = contentOf fs sector
  pos : posOf fs' name = posOf fs name

/-- A command that is not about the file, nor about all files. -/
def Elsewhere (name : CString) : Shell → Prop
  | .file command => command.Valid ∧ command.name ≠ name
  | .ls => True
  | .copyIn other _ | .copyOut other _ => PlainName other ∧ other ≠ name
  | .findFile _ | .fragmentationDegree | .defragment | .recover _ => False

variable {fs middle fs' : FileSystem} {state : Option (Addr × Dir)} {name other : CString} {sector there : Sector} {command : Command}
  {shell : Shell} {reply : Reply} {size : Int} {ok : Bool} {buffer : List UInt8} {start : Nat}

theorem FileKept.trans (first : FileKept fs middle name sector) (second : FileKept middle fs' name sector) : FileKept fs fs' name sector :=
  ⟨second.named, second.content.trans first.content, second.pos.trans first.pos⟩

section Files
variable (running : Running fs none) (named : Named fs name sector)
include named

theorem FileKept.refl : FileKept fs fs name sector := ⟨named, rfl, rfl⟩

include running

theorem Browsed.kept (browsed : Browsed fs fs' state) (table : fs'.fileTable = fs.fileTable) : FileKept fs fs' name sector := by
  obtain ⟨_, _, nonzero, notRoot⟩ := running.volume.root.plain name sector named
  refine ⟨named_congr browsed.slots ▸ named, ?_, by rw [posOf, table, posOf]⟩
  exact ((browsed.store.same (browsed.data sector notRoot)).alike nonzero).contentOf

theorem Looked.kept (looked : Looked fs fs' state other) (differs : name ≠ other) : FileKept fs fs' name sector :=
  ⟨looked.named ▸ named, looked.content (running.volume.root.plain name sector named).2.2.2, looked.posOf differs⟩

theorem Written.kept (written : Written fs fs' state other there start buffer ok) (differs : name ≠ other) : FileKept fs fs' name sector := by
  obtain ⟨_, _, nonzero, notRoot⟩ := running.volume.root.plain name sector named
  refine ⟨named_congr written.slots ▸ named, ?_, by rw [posOf, written.others name differs, posOf]⟩
  refine (written.files sector named.live nonzero notRoot fun same => differs ?_).contentOf
  exact running.volume.root.injective (same ▸ named) written.named

theorem CreateRan.kept (ran : CreateRan fs fs' state other size ok) : FileKept fs fs' name sector := by
  obtain ⟨_, _, nonzero, notRoot⟩ := running.volume.root.plain name sector named
  refine ⟨?_, (ran.keeps.files sector named.live nonzero notRoot id).contentOf, by rw [posOf, ran.keeps.fileTable, posOf]⟩
  cases ok with
  | false => exact named_congr (ran.failed rfl).slots ▸ named
  | true =>
    obtain ⟨_, done⟩ := ran.done rfl
    exact (done.named name sector).mpr (.inl named)

theorem Unlinked.kept (unlinked : Unlinked fs fs' other there) (differs : name ≠ other) : FileKept fs fs' name sector := by
  obtain ⟨_, _, nonzero, notRoot⟩ := running.volume.root.plain name sector named
  refine ⟨(unlinked.names name sector).mpr ⟨named, differs⟩, ?_, by rw [posOf, unlinked.others name differs, posOf]⟩
  refine (unlinked.files sector named.live nonzero notRoot fun same => differs ?_).contentOf
  exact running.volume.root.injective (same ▸ named) unlinked.named

theorem Command.Valid.kept (valid : command.Valid) (differs : command.name ≠ name) (ran : command.run fs = some (reply, fs')) :
    FileKept fs fs' name sector := by
  have plain : PlainName command.name := valid.plain
  have differs := Ne.symm differs
  cases command with
  | create other isize =>
    dsimp only [Command.name] at plain
    obtain ⟨ran, _⟩ := run_pure ran
    by_cases long : 255 ≤ other.length
    · have refused := Option.some.inj ((fsutilCreate_refused long).symm.trans ran)
      exact (Prod.mk.inj refused).2 ▸ .refl named
    · obtain ⟨_, success, _, created⟩ := (fsutilCreate_wp running plain isize (by omega)).result ran
      exact created.kept running named
  | write other buffer =>
    obtain ⟨ran, _⟩ := run_pure ran
    obtain ⟨positive, short⟩ := valid.buffer other buffer rfl
    rcases fsutilWrite_result running plain positive short ran with
      ⟨_, _, _, looked⟩ | ⟨_, _, there, _, written⟩ | ⟨_, there, _, ⟨_, _, _, start, buffer', _, written⟩ | ⟨_, looked⟩⟩
    · exact looked.kept running named differs
    · exact written.kept running named differs
    · exact written.kept running named differs
    · exact looked.kept running named differs
  | read other count =>
    dsimp only [Command.name] at plain
    by_cases negative : posOf fs other < 0
    · exact (fsutilRead_negative running plain negative ran).1.kept running named differs
    · exact ((fsutilRead_wp running plain (by omega) count).result ran).1.kept running named differs
  | seek other offset =>
    obtain ⟨ran, _⟩ := run_pure ran
    obtain ⟨low, high⟩ := valid.offset other offset rfl
    exact ((fsutilSeek_wp running plain low high).result ran).1.kept running named differs
  | size other =>
    obtain ⟨ran, _⟩ := run_pure ran
    exact ((fsutilSize_wp running plain).result ran).1.kept running named differs
  | rm other =>
    obtain ⟨ran, _⟩ := run_pure ran
    rcases (fsutilRm_wp running plain).result ran with ⟨_, _, looked⟩ | ⟨_, there, unlinked⟩
    · exact looked.kept running named differs
    · exact unlinked.kept running named differs

theorem copyOut_kept {result : Int × Option CString} {writable : Bool} (plain : PlainName other) (differs : name ≠ other)
    (ran : copyOut other writable fs = some (result, fs')) : FileKept fs fs' name sector :=
  ((copyOut_looked running plain writable).result ran).kept running named differs

end Files

theorem sameTable (table : List (CString × File)) : Enduring (fun _ => True) fun fs => fs.fileTable = table where
  disk _ _ := id
  freeMap _ _ _ := id
  data _ _ _ same _ := same
  opened _ _ _ _ _ := trivial
  wraps _ := trivial
  dirs _ _ _ _ := id
  loaded _ _ _ same _ := same
  stored _ := trivial
  closed _ _ := id
  header _ _ _ _ := id

theorem Elsewhere.kept (elsewhere : Elsewhere name shell) (running : Running fs none) (named : Named fs name sector)
    (ran : shell.run fs = some (⟨⟩, fs')) : FileKept fs fs' name sector := by
  cases shell with
  | file command =>
    obtain ⟨_, ran⟩ := run_unit ran
    exact elsewhere.1.kept running named elsewhere.2 ran
  | ls =>
    obtain ⟨_, ran⟩ := run_unit ran
    have table := ((sameTable fs.fileTable).scanRoot (fun _ => .done) fs _ fs' rfl ran).1
    exact ((fsutilLs_wp running).result ran).2.kept running named table
  | copyIn other source =>
    obtain ⟨plain, differs⟩ := elsewhere
    obtain ⟨_, ran⟩ := run_unit ran
    rcases copyIn_commands running plain ran with rfl | ⟨source, created, middle, _, create, rest⟩
    · exact .refl named
    · have valid : (copyInCreate fs other source).Valid := copyInCreate_valid plain
      have first := valid.kept running named differs create
      rcases rest with rfl | ⟨_, written, fine, write⟩
      · exact first
      · exact first.trans (fine.kept (valid.running running create) first.named differs write)
  | copyOut other writable =>
    obtain ⟨_, ran⟩ := run_unit ran
    exact copyOut_kept running named elsewhere.1 (Ne.symm elsewhere.2) ran
  | findFile _ | fragmentationDegree | defragment | recover _ => exact elsewhere.elim

theorem Elsewhere.allowed (elsewhere : Elsewhere name shell) : shell.Allowed fs := by
  cases shell with
  | file command => exact ⟨elsewhere.1, fun same => by cases same⟩
  | ls => exact ⟨trivial, fun same => by cases same⟩
  | copyIn other source => exact ⟨elsewhere.1, fun same => by cases same⟩
  | copyOut other writable => exact ⟨elsewhere.1, fun same => by cases same⟩
  | findFile _ | fragmentationDegree | defragment | recover _ => exact elsewhere.elim

end Comp310.Fs
