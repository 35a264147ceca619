import Comp310.Lib.Bytes
import Comp310.Fs.Runs

/-! The commands of fsutil.c refine a map from names to bytes and a position. -/

namespace Comp310.Proofs.NameStore
open Comp310.Fs Comp310.Lib

/-- A file as a user of the commands knows it. -/
structure Entry where
  bytes : List UInt8
  pos : Nat

abbrev Store := CString → Option Entry

namespace Store

def set (store : Store) (name : CString) (entry : Option Entry) : Store :=
  fun other => if other = name then entry else store other

/-- What each command replies, and the files after it. The size of a read is an `offset_t`. -/
def step (store : Store) : Command → Reply × Store
  | .create name isize =>
    match store name with
    | none => ((1, []), store.set name (some ⟨List.replicate isize 0, 0⟩))
    | some _ => ((0, []), store)
  | .write name buffer =>
    match store name with
    | none => ((-1, []), store)
    | some file =>
      let bytes := overwrite file.bytes file.pos (buffer.set (buffer.length - 1) 0)
      ((buffer.length, []), store.set name (some ⟨bytes, file.pos + buffer.length - 2⟩))
  | .read name count =>
    match store name with
    | none => ((-1, []), store)
    | some file =>
      let bytes := (file.bytes.drop file.pos).take (offsetT count).toNat
      ((bytes.length, bytes), store.set name (some ⟨file.bytes, file.pos + bytes.length⟩))
  | .seek name offset =>
    match store name with
    | none => ((-1, []), store)
    | some file => ((0, []), store.set name (some ⟨file.bytes, offset.toNat⟩))
  | .size name =>
    match store name with
    | none => ((-1, []), store)
    | some file => ((file.bytes.length, []), store)
  | .rm name =>
    match store name with
    | none => ((0, []), store)
    | some _ => ((1, []), store.set name none)

def replies (store : Store) : List Command → List Reply
  | [] => []
  | command :: rest => (store.step command).1 :: (store.step command).2.replies rest

end Store

/-- There is room for what the command has to allocate: an inode, its blocks and
the directory entry of a new file, or the blocks that a write adds. No file is
asked to exceed 16635 sectors. -/
def Room (fs : FileSystem) : Command → Prop
  | .create name isize => (∀ sector, ¬ Named fs name sector) → isize ≤ 16635 * 512 ∧ 36 * slotFor fs + 36 ≤ 16635 * 512 ∧
      1 + sectorsNeeded (bytesToSectors isize) + (rootShort fs).length ≤ freeCount fs
  | .write name buffer => ∀ sector, Named fs name sector → posOf fs name + buffer.length ≤ 16635 * 512 ∧
      (shortOf fs (curData fs sector) (posOf fs name + buffer.length)).length ≤ freeCount fs
  | _ => True

/-- There is room for each command of a run when its turn comes. -/
def RoomForAll (fs : FileSystem) : List Command → Prop
  | [] => True
  | command :: rest => Room fs command ∧ ∀ reply fs', command.run fs = some (reply, fs') → RoomForAll fs' rest

/-- The files of the state are those of the store. -/
private structure Mirrors (fs : FileSystem) (store : Store) : Prop where
  running : Running fs none
  present : ∀ name sector, Named fs name sector →
    ∃ entry, store name = some entry ∧ entry.bytes = contentOf fs sector ∧ posOf fs name = entry.pos
  absent : ∀ name, (∀ sector, ¬ Named fs name sector) → store name = none

variable {fs fs' : FileSystem} {store : Store} {command : Command} {name : CString} {entry : Option Entry} {sector : Sector}

private theorem Mirrors.update (mirrors : Mirrors fs store) (running : Running fs' none)
    (others : ∀ other there, other ≠ name → (Named fs' other there ↔ Named fs other there))
    (contents : ∀ other there, other ≠ name → Named fs other there → contentOf fs' there = contentOf fs there)
    (positions : ∀ other, other ≠ name → posOf fs' other = posOf fs other)
    (mine : ∀ sector, Named fs' name sector → ∃ file, entry = some file ∧ file.bytes = contentOf fs' sector ∧ posOf fs' name = file.pos)
    (gone : (∀ sector, ¬ Named fs' name sector) → entry = none) : Mirrors fs' (store.set name entry) := by
  refine ⟨running, fun other there named => ?_, fun other missing => ?_⟩
  · by_cases same : other = name
    · subst same
      simpa [Store.set] using mine there named
    · have before := (others other there same).mp named
      obtain ⟨file, found, bytes, pos⟩ := mirrors.present other there before
      exact ⟨file, by simpa [Store.set, same] using found, bytes.trans (contents other there same before).symm,
        (positions other same).trans pos⟩
  · by_cases same : other = name
    · subst same
      simpa [Store.set] using gone missing
    · simp only [Store.set, same, if_false]
      exact mirrors.absent other fun there named => missing there ((others other there same).mpr named)

private theorem set_self : store.set name (store name) = store := by
  funext other
  unfold Store.set
  split
  next same => rw [same]
  next => rfl

private theorem Mirrors.looked (mirrors : Mirrors fs store) (looked : Looked fs fs' none name)
    (mine : ∀ sector, Named fs name sector → ∃ file, entry = some file ∧ file.bytes = contentOf fs sector ∧ posOf fs' name = file.pos)
    (gone : (∀ sector, ¬ Named fs name sector) → entry = none) : Mirrors fs' (store.set name entry) := by
  have names := looked.named
  have content (other : CString) (there : Sector) (named : Named fs other there) : contentOf fs' there = contentOf fs there :=
    (looked.alike (mirrors.running.volume.root.plain other there named).2.2.2).contentOf
  apply mirrors.update looked.running
  · intro other there _
    rw [names]
  · intro other there _ named
    exact content other there named
  · intro other differs
    exact looked.posOf differs
  · intro sector named
    rw [names] at named
    obtain ⟨file, same, bytes, pos⟩ := mine sector named
    exact ⟨file, same, bytes.trans (content name sector named).symm, pos⟩
  · rw [names]
    exact gone

private theorem Mirrors.missing (mirrors : Mirrors fs store) (looked : Looked fs fs' none name)
    (missing : ∀ sector, ¬ Named fs name sector) : Mirrors fs' store := by
  have same : Mirrors fs' (store.set name (store name)) :=
    mirrors.looked looked (fun sector named => absurd named (missing sector)) (mirrors.absent name)
  rwa [set_self] at same

section Steps

variable (mirrors : Mirrors fs store) (plain : PlainName name)
include mirrors

private theorem Mirrors.known {file : Entry} (found : store name = some file) : ∃ sector, Named fs name sector ∧
    file.bytes = contentOf fs sector ∧ posOf fs name = file.pos := by
  by_cases there : ∃ sector, Named fs name sector
  · obtain ⟨sector, named⟩ := there
    obtain ⟨file', same, bytes, pos⟩ := mirrors.present name sector named
    cases found.symm.trans same
    exact ⟨sector, named, bytes, pos⟩
  · have gone := mirrors.absent name fun sector named => there ⟨sector, named⟩
    cases found.symm.trans gone

private theorem Mirrors.unknown (found : store name = none) (sector : Sector) : ¬ Named fs name sector := by
  intro named
  obtain ⟨file, same, _⟩ := mirrors.present name sector named
  cases found.symm.trans same

private theorem Mirrors.same (sector sector' : Sector) (named : Named fs name sector) (named' : Named fs name sector') :
    sector' = sector :=
  mirrors.running.volume.root.functional named' named

include plain

private theorem create_step {isize : Nat} (short : name.length ≤ 30) (room : Room fs (.create name isize)) :
    Wp (Command.create name isize).run
      (fun reply fs' => reply = (store.step (.create name isize)).1 ∧ Mirrors fs' (store.step (.create name isize)).2) fs := by
  have running := mirrors.running
  rw [Command.run, wp_bind]
  refine (fsutilCreate_wp running plain isize (by omega)).mono fun result fs' ⟨running', success, returned, ran⟩ =>
    (wp_pure _).mpr ?_
  have content (other : CString) (there : Sector) (named : Named fs other there) : contentOf fs' there = contentOf fs there := by
    obtain ⟨_, _, nonzero, notRoot⟩ := running.volume.root.plain other there named
    exact (ran.keeps.files there named.live nonzero notRoot id).contentOf
  have position (other : CString) : posOf fs' other = posOf fs other := by
    rw [posOf, ran.keeps.fileTable, posOf]
  cases found : store name with
  | none =>
    have missing := mirrors.unknown found
    obtain ⟨limit, slot, space⟩ := room missing
    have size : offsetT isize = isize := offsetT_eq (by omega) (by omega)
    have nonneg : ¬ ((isize : Int) < 0) := by omega
    rw [size] at ran
    obtain rfl : success = true := by
      refine ran.outcome.mpr ⟨⟨by omega, by omega, ?_⟩, ?_, by omega, ?_⟩
      · rw [wanted, if_neg nonneg]
        omega
      · rintro (empty | long | ⟨other, named⟩)
        · exact plain.nonempty empty
        · omega
        · exact missing other named
      · rw [wanted, if_neg nonneg]
        omega
    obtain ⟨sector, done⟩ := ran.done rfl
    simp only [Store.step, found, returned, if_true, true_and]
    apply mirrors.update running'
    · intro other there differs
      rw [done.named]
      simp [differs]
    · intro other there _ named
      exact content other there named
    · intro other _
      exact position other
    · intro there named
      obtain before | ⟨_, rfl⟩ := (done.named name there).mp named
      · exact absurd before (missing there)
      · exact ⟨_, rfl, done.fresh.contentOf.symm, (position name).trans (running.posOf_missing missing)⟩
    · intro gone
      exact absurd ((done.named name sector).mpr (.inr ⟨rfl, rfl⟩)) (gone sector)
  | some file =>
    obtain ⟨sector, named, _⟩ := mirrors.known found
    obtain rfl : success = false := by
      cases success with
      | false => rfl
      | true => exact absurd (.inr (.inr ⟨sector, named⟩)) (ran.outcome.mp rfl).2.1
    have names := named_congr (ran.failed rfl).slots
    simp only [Store.step, found, returned, Bool.false_eq_true, if_false, true_and]
    have same : Mirrors fs' (store.set name (store name)) := mirrors.update running' (fun other there _ => by rw [names])
      (fun other there _ => content other there) (fun other _ => position other)
      (fun there named => by
        obtain ⟨file, found, bytes, pos⟩ := mirrors.present name there (names ▸ named)
        exact ⟨file, found, bytes.trans (content name there (names ▸ named)).symm, (position name).trans pos⟩)
      (fun gone => absurd (names ▸ named) (gone sector))
    rwa [set_self] at same

private theorem write_step {buffer : List UInt8} (size : 2 ≤ buffer.length) (high : buffer.length < 2147483648)
    (room : Room fs (.write name buffer)) :
    Wp (Command.write name buffer).run
      (fun reply fs' => reply = (store.step (.write name buffer)).1 ∧ Mirrors fs' (store.step (.write name buffer)).2) fs := by
  have running := mirrors.running
  rw [Command.run, wp_bind]
  cases found : store name with
  | none =>
    have missing := mirrors.unknown found
    have start := running.posOf_missing missing
    refine (fsutilWrite_wp running plain (by omega) (by omega) (by omega)).mono fun result fs' outcome => (wp_pure _).mpr ?_
    rcases outcome with ⟨returned, _, _, looked⟩ | ⟨there, _, _, _, written, _⟩
    · simp only [Store.step, found, returned, true_and]
      exact mirrors.missing looked missing
    · exact absurd written.named (missing there)
  | some file =>
    obtain ⟨sector, named, bytes, pos⟩ := mirrors.known found
    obtain ⟨limit, space⟩ := room sector named
    refine (fsutilWrite_wp running plain (by omega) (by omega) (by omega)).mono fun result fs' outcome => (wp_pure _).mpr ?_
    rcases outcome with ⟨_, missing, _⟩ | ⟨there, ok, fits, returned, written, pos'⟩
    · exact absurd named (missing sector)
    obtain rfl := mirrors.same sector there named written.named
    obtain rfl : ok = true := fits.mpr ⟨by omega, space⟩
    rw [if_pos rfl] at returned
    have advanced : posOf fs' name = ((file.pos + buffer.length - 2 : Nat) : Int) := by
      rw [pos', returned, pos, offsetT_eq (by omega) (by omega)]
      omega
    have content := written.contentOf running (by rw [terminated_length]; omega)
    rw [pos, Int.toNat_natCast, ← bytes] at content
    simp only [Store.step, found, returned, true_and]
    apply mirrors.update written.running
    · intro other there _
      rw [named_congr written.slots]
    · intro other there' differs named'
      obtain ⟨_, _, nonzero, notRoot⟩ := running.volume.root.plain other there' named'
      refine (written.files there' named'.live nonzero notRoot fun same => differs ?_).contentOf
      exact running.volume.root.injective (same ▸ named') named
    · intro other differs
      rw [posOf, written.others other differs, posOf]
    · intro there' named'
      obtain rfl := mirrors.same _ there' named (named_congr written.slots ▸ named')
      exact ⟨_, rfl, content.symm, advanced⟩
    · intro gone
      exact absurd (named_congr written.slots ▸ named) (gone _)

private theorem read_step {count : Nat} :
    Wp (Command.read name count).run
      (fun reply fs' => reply = (store.step (.read name count)).1 ∧ Mirrors fs' (store.step (.read name count)).2) fs := by
  have running := mirrors.running
  rw [Command.run]
  cases found : store name with
  | none =>
    have missing := mirrors.unknown found
    have start := running.posOf_missing missing
    refine (fsutilRead_wp running plain (by omega) count).mono fun reply fs' ⟨looked, outcome⟩ => ?_
    simp only [Store.step, found]
    rcases outcome with ⟨returned, _⟩ | ⟨there, _, named, _⟩
    · exact ⟨returned, mirrors.missing looked missing⟩
    · exact absurd named (missing there)
  | some file =>
    obtain ⟨sector, named, bytes, pos⟩ := mirrors.known found
    refine (fsutilRead_wp running plain (by omega) count).mono fun reply fs' ⟨looked, outcome⟩ => ?_
    rcases outcome with ⟨_, missing, _⟩ | ⟨there, read, named', read_eq, returned, pos'⟩
    · exact absurd named (missing sector)
    obtain rfl := mirrors.same sector there named named'
    rw [available, ← bytes, pos, Int.toNat_natCast] at read_eq
    simp only [Store.step, found, ← read_eq, returned, true_and]
    apply mirrors.looked looked
    · intro there' named'
      obtain rfl := mirrors.same _ there' named named'
      exact ⟨_, rfl, bytes, by rw [pos', pos]; rfl⟩
    · intro missing
      exact absurd named (missing _)

private theorem seek_step {offset : Int} (low : 0 ≤ offset) (high : offset < 2147483648) :
    Wp (Command.seek name offset).run
      (fun reply fs' => reply = (store.step (.seek name offset)).1 ∧ Mirrors fs' (store.step (.seek name offset)).2) fs := by
  rw [Command.run, wp_bind]
  refine (fsutilSeek_wp mirrors.running plain (by omega) high).mono fun result fs' ⟨looked, outcome⟩ => (wp_pure _).mpr ?_
  rcases outcome with ⟨returned, missing, _⟩ | ⟨returned, ⟨sector, named⟩, pos⟩
  · simp only [Store.step, mirrors.absent name missing, returned, true_and]
    exact mirrors.missing looked missing
  · obtain ⟨file, found, bytes, _⟩ := mirrors.present name sector named
    simp only [Store.step, found, returned, true_and]
    apply mirrors.looked looked
    · intro there named'
      obtain rfl := mirrors.same sector there named named'
      exact ⟨_, rfl, bytes, by rw [pos, Int.toNat_of_nonneg low]⟩
    · intro missing
      exact absurd named (missing sector)

private theorem size_step :
    Wp (Command.size name).run
      (fun reply fs' => reply = (store.step (.size name)).1 ∧ Mirrors fs' (store.step (.size name)).2) fs := by
  have running := mirrors.running
  rw [Command.run, wp_bind]
  refine (fsutilSize_wp running plain).mono fun result fs' ⟨looked, still, outcome⟩ => (wp_pure _).mpr ?_
  rcases outcome with ⟨returned, missing, _⟩ | ⟨sector, named, returned, _⟩
  · simp only [Store.step, mirrors.absent name missing, returned, true_and]
    exact mirrors.missing looked missing
  · obtain ⟨file, found, bytes, pos⟩ := mirrors.present name sector named
    have length := (contentOf_length running named.live).1
    simp only [Store.step, found, returned, bytes, length, true_and]
    have same : Mirrors fs' (store.set name (store name)) := mirrors.looked looked
      (fun there named' => by
        obtain rfl := mirrors.same sector there named named'
        exact ⟨file, found, bytes, still.trans pos⟩)
      fun missing => absurd named (missing sector)
    rwa [set_self] at same

private theorem rm_step :
    Wp (Command.rm name).run
      (fun reply fs' => reply = (store.step (.rm name)).1 ∧ Mirrors fs' (store.step (.rm name)).2) fs := by
  have running := mirrors.running
  rw [Command.run, wp_bind]
  refine (fsutilRm_wp running plain).mono fun result fs' outcome => (wp_pure _).mpr ?_
  rcases outcome with ⟨returned, missing, looked⟩ | ⟨returned, sector, unlinked⟩
  · simp only [Store.step, mirrors.absent name missing, returned, true_and]
    exact mirrors.missing looked missing
  · obtain ⟨file, found, _⟩ := mirrors.present name sector unlinked.named
    simp only [Store.step, found, returned, true_and]
    apply mirrors.update unlinked.running
    · intro other there differs
      rw [unlinked.names]
      simp [differs]
    · intro other there differs named
      obtain ⟨_, _, nonzero, notRoot⟩ := running.volume.root.plain other there named
      refine (unlinked.files there named.live nonzero notRoot fun same => differs ?_).contentOf
      exact running.volume.root.injective (same ▸ named) unlinked.named
    · intro other differs
      rw [posOf, unlinked.others other differs, posOf]
    · intro there named
      exact absurd rfl ((unlinked.names name there).mp named).2
    · intro _
      rfl

end Steps

private theorem command_step (mirrors : Mirrors fs store) (valid : command.Valid) (forward : command.Forward)
    (short : command.name.length ≤ 30) (room : Room fs command) :
    Wp command.run (fun reply fs' => reply = (store.step command).1 ∧ Mirrors fs' (store.step command).2) fs := by
  have plain : PlainName command.name := valid.plain
  cases command with
  | create name isize => exact create_step mirrors plain short room
  | write name buffer => exact write_step mirrors plain (forward.buffer _ _ rfl) (valid.buffer _ _ rfl).2 room
  | read name count => exact read_step mirrors plain
  | seek name offset => exact seek_step mirrors plain (forward.offset _ _ rfl) (valid.offset _ _ rfl).2
  | size name => exact size_step mirrors plain
  | rm name => exact rm_step mirrors plain

private theorem perform_replies (commands : List Command)
    (good : ∀ command ∈ commands, command.Valid ∧ command.Forward ∧ command.name.length ≤ 30) {fs : FileSystem} {store : Store}
    (mirrors : Mirrors fs store) (room : RoomForAll fs commands) :
    Wp (perform commands) (fun replies _ => replies = store.replies commands) fs := by
  induction commands generalizing fs store with
  | nil => exact (wp_pure _).mpr rfl
  | cons command rest ih =>
    obtain ⟨here, later⟩ := room
    obtain ⟨valid, forward, short⟩ := good command List.mem_cons_self
    rw [perform, wp_bind]
    refine (command_step mirrors valid forward short here).remember.mono fun reply fs' ⟨ran, returned, mirrors'⟩ => ?_
    rw [wp_bind]
    refine (ih (fun command member => good command (List.mem_cons_of_mem _ member)) mirrors' (later reply fs' ran)).mono
      fun replies _ same => (wp_pure _).mpr ?_
    rw [Store.replies, returned, same]

/-- From a formatted file system, every reply and every byte read is the one that
the store of names gives, for as long as the disk has room. -/
theorem replies_of_store {device : Array Block} {bounded : device.size < 2 ^ 32} (ran : filesysInit device bounded true = some fs)
    (commands : List Command) (good : ∀ command ∈ commands, command.Valid ∧ command.Forward ∧ command.name.length ≤ 30)
    (room : RoomForAll fs commands) :
    ∃ fs', perform commands fs = some (Store.replies (fun _ => none) commands, fs') := by
  have formatted := filesysInit_formatted bounded ran
  have mirrors : Mirrors fs fun _ => none :=
    ⟨formatted.running, fun name sector named => absurd named (formatted.unnamed name sector), fun _ _ => rfl⟩
  obtain ⟨replies, fs', performed, rfl⟩ := perform_replies commands good mirrors room
  exact ⟨fs', performed⟩


/-- A file is created, read from its third byte, and removed. -/
theorem replies_of_store_file : ∃ fs fs', filesysInit (Array.replicate 400 zeros) (by simp) true = some fs ∧
    perform [.create [97] 5, .seek [97] 2, .read [97] 10, .size [97], .rm [97], .read [97] 1] fs =
      some ([(1, []), (0, []), (3, [0, 0, 0]), (5, []), (1, []), (-1, [])], fs') := by
  obtain ⟨fs, ran, formatted⟩ := filesysInit_format (by simp : (Array.replicate 400 zeros).size < 2 ^ 32)
    (formattable_small (by simp) (by simp))
  have plain : PlainName [97] := ⟨by decide, by decide, by decide, by decide, by decide⟩
  have count := formatted.count
  rw [Array.size_replicate, (mapBlocks_one (by decide) (by decide)).2, rootBlocks_eq] at count
  have needed : sectorsNeeded (bytesToSectors (5 : Nat)) = 1 := by
    rw [bytesToSectors_eq (by decide) (by decide)]
    exact sectorsNeeded_eq (by decide)
  obtain ⟨short, slot⟩ := formatted.rootShort
  have room : Room fs (.create [97] 5) := by
    intro _
    rw [needed, short]
    exact ⟨by decide, by omega, by rw [List.length_nil]; omega⟩
  obtain ⟨fs', performed⟩ := replies_of_store ran
    [.create [97] 5, .seek [97] 2, .read [97] 10, .size [97], .rm [97], .read [97] 1]
    (by
      intro command member
      simp only [List.mem_cons, List.not_mem_nil, or_false] at member
      rcases member with rfl | rfl | rfl | rfl | rfl | rfl <;>
        exact ⟨⟨plain, by simp, by simp⟩, ⟨by simp, by simp⟩, by decide⟩)
    ⟨room, fun _ _ _ => ⟨trivial, fun _ _ _ => ⟨trivial, fun _ _ _ => ⟨trivial, fun _ _ _ => ⟨trivial, fun _ _ _ =>
      ⟨trivial, fun _ _ _ => trivial⟩⟩⟩⟩⟩⟩
  exact ⟨fs, fs', ran, performed⟩

end Comp310.Proofs.NameStore
