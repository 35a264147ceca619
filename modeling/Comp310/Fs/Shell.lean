import Comp310.Fs.Defragment

/-! Everything that the shell can ask of the file system, one command after another. -/

namespace Comp310.Fs
open Comp310.Lib

/-- The host files that a command is given come with it; what it prints or writes to the host is left out. -/
inductive Shell where
  | file (command : Command)
  | ls
  | copyIn (name : CString) (source : Option (List UInt8))
  | copyOut (name : CString) (writable : Bool)
  | findFile (pattern : CString)
  | fragmentationDegree
  | defragment
  | recover (flag : Int)

namespace Shell

def run : Shell → M PUnit
  | .file command => do
    let _ ← command.run
  | .ls => do
    let _ ← fsutilLs
  | .copyIn name source => do
    let _ ← Fs.copyIn name source
  | .copyOut name writable => do
    let _ ← Fs.copyOut name writable
  | .findFile pattern => do
    let _ ← Fs.findFile pattern
  | .fragmentationDegree => do
    let _ ← Fs.fragmentationDegree
  | .defragment => do
    let _ ← Fs.defragment
  | .recover flag => do
    let _ ← Fs.recover flag

/-- The names are plain, and the numbers within their types. -/
def Valid : Shell → Prop
  | .file command => command.Valid
  | .copyIn name _ | .copyOut name _ => PlainName name
  | _ => True

end Shell

/-- A name with a slash in it, "." and ".." lead elsewhere, and `recover` makes inodes of what lies in free sectors. -/
def Shell.Allowed (fs : FileSystem) (shell : Shell) : Prop := shell.Valid ∧ (shell = .recover 0 → freeCount fs = 0)

/-- The states reached from a formatted file system by commands that are allowed where they are run. -/
inductive ShellReached (allowed : FileSystem → Shell → Prop) (device : Array Block) (bounded : device.size < 2 ^ 32) : FileSystem → Prop where
  | formatted (ran : filesysInit device bounded true = some fs) : ShellReached allowed device bounded fs
  | step (before : ShellReached allowed device bounded fs) {shell : Shell} (may : allowed fs shell)
      (ran : shell.run fs = some (⟨⟩, fs')) : ShellReached allowed device bounded fs'

variable {fs middle fs' : FileSystem} {state : Option (Addr × Dir)} {name : CString} {sector : Sector} {shell : Shell}

theorem run_unit {program : M α} (ran : (do let _ ← program) fs = some (⟨⟩, fs')) : ∃ value, program fs = some (value, fs') := by
  obtain ⟨value, after, first, rest⟩ := bind_some ran
  cases rest
  exact ⟨value, first⟩

section Reading

theorem bufferCacheRead_same {block : Block} (ran : bufferCacheRead sector fs = some (block, fs')) : fs' = fs := by
  rcases Nat.lt_or_ge sector.toNat fs.disk.size with inside | outside
  · cases (bufferCacheRead_eq inside).symm.trans ran
    rfl
  · change (fs.disk.read sector).bind _ = _ at ran
    rw [fs.disk.read_outside outside] at ran
    cases ran

private theorem dataSectorsUnder_same {blocks : Vector Sector 128} {sectors : List Sector} (left i numSectors : Nat)
    (ran : dataSectorsUnder blocks i left numSectors fs = some (sectors, fs')) : fs' = fs := by
  induction left generalizing i numSectors sectors fs with
  | zero =>
    cases ran
    rfl
  | succ left ih =>
    rw [dataSectorsUnder] at ran
    split at ran
    next inside =>
      obtain ⟨block, fs₁, first, rest⟩ := bind_some ran
      obtain rfl := bufferCacheRead_same first
      obtain ⟨others, fs₂, second, rest⟩ := bind_some rest
      cases rest
      exact ih _ _ second
    next outside => cases ran

private theorem double_same {data : InodeDisk} {l : Nat} {front : List Sector} {sectors : Option (List Sector)}
    (ran : (if 0 < l then do
        let indirectBlock ← bufferCacheRead data.doublyIndirectBlock
        let double ← dataSectorsUnder (blocksOf indirectBlock) 0 (divRoundUp l 128) l
        pure (some (front ++ double))
      else do
        let double ← pure []
        pure (some (front ++ double)) : M _) fs = some (sectors, fs')) : fs' = fs := by
  split at ran
  · obtain ⟨_, fs₁, read, rest⟩ := bind_some ran
    obtain rfl := bufferCacheRead_same read
    obtain ⟨_, fs₂, under, rest⟩ := bind_some rest
    cases rest
    exact dataSectorsUnder_same _ _ _ under
  · cases ran
    rfl

theorem getInodeDataSectors_same {data : InodeDisk} {sectors : Option (List Sector)}
    (ran : getInodeDataSectors data fs = some (sectors, fs')) : fs' = fs := by
  rw [getInodeDataSectors] at ran
  split at ran
  · cases ran
    rfl
  · dsimp only at ran
    split at ran
    · obtain ⟨_, fs₁, read, rest⟩ := bind_some ran
      obtain rfl := bufferCacheRead_same read
      rw [pure_bind] at rest
      exact double_same rest
    · rw [pure_bind] at ran
      exact double_same ran

private theorem getInode_same {addr : Addr} {inode : Inode} (ran : getInode addr fs = some (inode, fs')) : fs' = fs := by
  change (fs.inode? addr).map _ = _ at ran
  obtain ⟨_, _, same⟩ := Option.map_eq_some_iff.mp ran
  exact (Prod.mk.inj same).2.symm

private theorem get_same {value : FileSystem} (ran : (get : M FileSystem) fs = some (value, fs')) : fs' = fs := by
  cases ran
  rfl

private theorem sprintf_same {size : Nat} {printed result : CString} (ran : sprintf size printed fs = some (result, fs')) : fs' = fs := by
  rw [sprintf] at ran
  split at ran <;> cases ran
  rfl

end Reading

section Commands

theorem fsutilRead_unless (running : Running fs state) (plain : PlainName name) (size : Nat) :
    WpUnless True (fsutilRead name size) (fun _ fs' => Looked fs fs' state name) fs := by
  by_cases negative : posOf fs name < 0
  · exact .of_result fun (_, _) _ ran => (fsutilRead_negative running plain negative ran).1
  · exact ((fsutilRead_wp running plain (by omega) size).mono fun _ _ done => done.1).unless

private theorem faults : WpUnless True (fault : M α) post fs := .inr ⟨trivial, rfl⟩

theorem fsutilRead_whole (running : Running fs state) (plain : PlainName name) (named : Named fs name sector)
    (start : posOf fs name = 0) {size : Int} (sized : size = (curData fs sector).length) :
    Wp (fsutilRead name (size % 4294967296).toNat) (fun result fs' => result.2 = contentOf fs sector ∧ Looked fs fs' state name ∧
      posOf fs' name = (curData fs sector).length) fs := by
  obtain ⟨length, limit⟩ := contentOf_length running named.live
  refine (fsutilRead_wp running plain (by omega) _).mono fun (_, buffer) fs' ⟨looked, read⟩ => ?_
  rcases read with ⟨_, absent, _⟩ | ⟨there, bytes, named', available_eq, returned, moved⟩
  · exact absurd named (absent sector)
  · obtain rfl := running.volume.root.functional named named'
    rw [start, sized, available, Int.toNat_zero, List.drop_zero, offsetT_eq (by omega) (by omega),
      List.take_of_length_le (by omega)] at available_eq
    subst available_eq
    exact ⟨(Prod.mk.inj returned).2, looked, by rw [moved, start]; omega⟩

/-- The file is read from its start, wherever its position was, and its position is at the start afterwards. -/
theorem copyOut_wp (running : Running fs state) (plain : PlainName name) (named : Named fs name sector) (writable : Bool) :
    Wp (copyOut name writable) (fun result fs' =>
      result = (if writable then (0, some (text (contentOf fs sector))) else (1, none)) ∧ Looked fs fs' state name ∧
      posOf fs' name = 0) fs := by
  have root := running.volume.root
  have notRoot := (root.plain name sector named).2.2.2
  have inside : -2147483648 ≤ (0 : Int) ∧ (0 : Int) < 2147483648 := by decide
  rw [copyOut, wp_bind]
  refine (filesysOpen_wp running.volume running.session plain).mono fun found fs₁ ⟨calm, session, missing, opened⟩ => ?_
  have looked₁ : Looked fs fs₁ state name := calm.looked running session
  cases found with
  | none => exact absurd named (missing rfl sector)
  | some f =>
    obtain ⟨same, _⟩ := opened f rfl
    rw [wp_bind]
    have named₁ : Named fs₁ name sector := looked₁.named ▸ named
    refine (fsutilSize_there looked₁.running plain named₁).mono fun size fs₂ ⟨looked₂, _, sized⟩ => ?_
    rw [looked₁.data _ notRoot] at sized
    have looked₂ := looked₁.trans looked₂
    have named₂ : Named fs₂ name sector := looked₂.named ▸ named
    rw [wp_bind]
    refine (fsutilSeek_wp looked₂.running plain inside.1 inside.2).mono fun _ fs₃ ⟨looked₃, moved⟩ => ?_
    have start : posOf fs₃ name = 0 := by
      rcases moved with ⟨_, absent, _⟩ | ⟨_, _, pos⟩
      · exact absurd named₂ (absent sector)
      · exact pos
    have looked₃ := looked₂.trans looked₃
    have named₃ : Named fs₃ name sector := looked₃.named ▸ named
    rw [wp_bind]
    refine (fsutilRead_whole looked₃.running plain named₃ start (sized.trans (by rw [looked₃.data _ notRoot]))).mono
      fun (_, buffer) fs₄ ⟨whole, looked₄, _⟩ => ?_
    dsimp only at whole ⊢
    rw [looked₃.content notRoot] at whole
    have looked₄ := looked₃.trans looked₄
    have named₄ : Named fs₄ name sector := looked₄.named ▸ named
    obtain ⟨length, _⟩ := contentOf_length running named.live
    have restore : Wp (fsutilSeek name ((some f).elim 0 (·.pos))) (fun _ fs' => Looked fs fs' state name ∧ posOf fs' name = 0) fs₄ := by
      rw [same]
      refine (fsutilSeek_wp looked₄.running plain inside.1 inside.2).mono fun _ fs₅ ⟨looked₅, moved⟩ => ?_
      rcases moved with ⟨_, absent, _⟩ | ⟨_, _, pos⟩
      · exact absurd named₄ (absent sector)
      · exact ⟨looked₄.trans looked₅, pos⟩
    cases writable with
    | true =>
      rw [if_pos rfl, if_neg (by omega), wp_bind]
      exact restore.mono fun _ fs₅ done => (wp_pure _).mpr ⟨by rw [whole]; rfl, done⟩
    | false =>
      rw [if_neg (by decide), wp_bind]
      exact restore.mono fun _ fs₅ done => (wp_pure _).mpr ⟨rfl, done⟩

theorem copyOut_looked (running : Running fs state) (plain : PlainName name) (writable : Bool) :
    WpUnless True (copyOut name writable) (fun _ fs' => Looked fs fs' state name) fs := by
  have inside : -2147483648 ≤ (0 : Int) ∧ (0 : Int) < 2147483648 := by decide
  rw [copyOut]
  refine (filesysOpen_wp running.volume running.session plain).unless.bind fun found fs₁ ⟨calm, session, _, opened⟩ => ?_
  have looked₁ : Looked fs fs₁ state name := calm.looked running session
  refine (fsutilSize_wp looked₁.running plain).unless.bind fun size fs₂ ⟨looked₂, _⟩ => ?_
  refine (fsutilSeek_wp looked₂.running plain inside.1 inside.2).unless.bind fun _ fs₃ ⟨looked₃, _⟩ => ?_
  refine (fsutilRead_unless looked₃.running plain _).bind fun (_, buffer) fs₄ looked₄ => ?_
  have looked := (looked₁.trans looked₂).trans (looked₃.trans looked₄)
  have start : found.elim 0 (·.pos) = 0 := by
    cases found with
    | none => rfl
    | some file =>
      rw [(opened file rfl).1]
      rfl
  dsimp only
  rw [start]
  split
  · split
    · exact faults
    · refine (fsutilSeek_wp looked₄.running plain inside.1 inside.2).unless.bind fun _ fs₅ ⟨looked₅, _⟩ => ?_
      exact .inl ((wp_pure _).mpr (looked.trans looked₅))
  · refine (fsutilSeek_wp looked₄.running plain inside.1 inside.2).unless.bind fun _ fs₅ ⟨looked₅, _⟩ => ?_
    exact .inl ((wp_pure _).mpr (looked.trans looked₅))

theorem copyOut_unless (running : Running fs state) (plain : PlainName name) (writable : Bool) :
    WpUnless True (copyOut name writable) (fun _ fs' => Browsed fs fs' state) fs :=
  (copyOut_looked running plain writable).mono fun _ _ looked => looked.browsed

private theorem matchesPattern_unless (running : Running fs state) (plain : PlainName name) (pattern : CString) :
    WpUnless True (matchesPattern pattern name) (fun _ fs' => Browsed fs fs' state) fs := by
  rw [matchesPattern]
  refine (fsutilSize_wp running plain).unless.bind fun size fs₁ ⟨looked₁, _⟩ => ?_
  split
  · exact faults
  · refine (fsutilRead_unless looked₁.running plain _).bind fun (_, before) fs₂ looked₂ => ?_
    have inside : -2147483648 ≤ (0 : Int) ∧ (0 : Int) < 2147483648 := by decide
    refine (fsutilSeek_wp looked₂.running plain inside.1 inside.2).unless.bind fun _ fs₃ ⟨looked₃, _⟩ => ?_
    refine (fsutilRead_unless looked₃.running plain _).bind fun (_, buffer) fs₄ looked₄ => ?_
    exact .inl ((wp_pure _).mpr ((looked₁.trans looked₂).trans (looked₃.trans looked₄)).browsed)

private theorem pass_unless {body : CString → M α} (running : Running fs none)
    (each : ∀ fs dir d name, Running fs (some (dir, d)) → PlainName name →
      WpUnless True (body name) (fun _ fs' => Browsed fs fs' (some (dir, d))) fs) :
    WpUnless True (scanRoot body) (fun _ fs' => Browsed fs fs' none) fs := by
  refine (scanRoot_unless (fun _ _ => True) running fun fs₁ dir d name browsed member => ?_).mono fun _ _ => And.right
  obtain ⟨sector, named⟩ := mem_names.mp member
  have plain := (running.volume.root.plain name sector named).1
  exact (each fs₁ dir d name browsed.running plain).mono fun _ _ browsed' => ⟨browsed.trans browsed', trivial⟩

theorem findFile_unless (running : Running fs none) (pattern : CString) :
    WpUnless True (findFile pattern) (fun _ fs' => Browsed fs fs' none) fs := by
  rw [findFile]
  refine (pass_unless running fun fs dir d name running plain => ?_).bind fun _ _ browsed => .inl ((wp_pure _).mpr browsed)
  exact (matchesPattern_unless running plain pattern).bind fun _ _ browsed => .inl ((wp_pure _).mpr browsed)

private theorem fragmentation_unless (running : Running fs state) (plain : PlainName name) :
    WpUnless True (fragmentation name) (fun _ fs' => Browsed fs fs' state) fs := by
  rw [fragmentation]
  refine (filesysOpen_wp running.volume running.session plain).unless.bind fun found fs₁ ⟨calm, session, _⟩ => ?_
  have looked₁ : Looked fs fs₁ state name := calm.looked running session
  cases found with
  | none => exact faults
  | some f =>
    refine (fsutilSize_wp looked₁.running plain).unless.bind fun size fs₂ ⟨looked₂, _⟩ => ?_
    refine (fsutilSize_wp looked₂.running plain).unless.bind fun size' fs₃ ⟨looked₃, _⟩ => ?_
    have browsed₃ := ((looked₁.trans looked₂).trans looked₃).browsed
    dsimp only
    generalize (if size.tmod 512 ≠ 0 then size'.tdiv 512 + 1 else size'.tdiv 512) = sectorsToRead
    split
    · refine (WpUnless.of_result fun _ _ => getInode_same).bind fun node fs₄ same => ?_
      obtain rfl := same
      refine (WpUnless.of_result fun _ _ => getInodeDataSectors_same).bind fun sectors fs₅ same => ?_
      obtain rfl := same
      split
      · exact faults
      · split
        · exact faults
        · exact .inl ((wp_pure _).mpr browsed₃)
    · exact .inl ((wp_pure _).mpr browsed₃)

theorem fragmentationDegree_unless (running : Running fs none) :
    WpUnless True fragmentationDegree (fun _ fs' => Browsed fs fs' none) fs := by
  rw [fragmentationDegree]
  exact (pass_unless running fun fs dir d name running plain => fragmentation_unless running plain).bind
    fun _ _ browsed => .inl ((wp_pure _).mpr browsed)

private theorem recoverSlack_unless (running : Running fs state) (plain : PlainName name) :
    WpUnless True (recoverSlack name) (fun _ fs' => Browsed fs fs' state) fs := by
  rw [recoverSlack]
  refine (filesysOpen_wp running.volume running.session plain).unless.bind fun found fs₁ ⟨calm, session, _⟩ => ?_
  have looked₁ : Looked fs fs₁ state name := calm.looked running session
  cases found with
  | none => exact faults
  | some f =>
    refine (fsutilSize_wp looked₁.running plain).unless.bind fun size fs₂ ⟨looked₂, _⟩ => ?_
    have browsed₂ := (looked₁.trans looked₂).browsed
    refine (WpUnless.of_result fun _ _ => getInode_same).bind fun node fs₃ same => ?_
    obtain rfl := same
    refine (WpUnless.of_result fun _ _ => getInodeDataSectors_same).bind fun sectors fs₄ same => ?_
    obtain rfl := same
    generalize (if size.tmod 512 ≠ 0 then size.tdiv 512 + 1 else size.tdiv 512) = sectorsToRead
    split
    · exact faults
    · split
      · exact faults
      · refine (WpUnless.of_result fun _ _ => get_same).bind fun current fs₅ same => ?_
        obtain rfl := same
        dsimp only
        split
        · refine (WpUnless.of_result fun _ _ => bufferCacheRead_same).bind fun block fs₆ same => ?_
          obtain rfl := same
          refine (WpUnless.of_result fun _ _ => sprintf_same).bind fun newname fs₇ same => ?_
          obtain rfl := same
          split
          · exact .inl ((wp_pure _).mpr browsed₂)
          · split
            · exact faults
            · exact .inl ((wp_pure _).mpr browsed₂)
        · exact .inl ((wp_pure _).mpr browsed₂)

private theorem recoverSectors_unless (i left : Nat) : WpUnless True (recoverSectors i left) (fun _ fs' => fs' = fs) fs := by
  induction left generalizing i with
  | zero => exact .inl ((wp_pure _).mpr rfl)
  | succ left ih =>
    rw [recoverSectors]
    refine (WpUnless.of_result fun _ _ => get_same).bind fun current fs₁ same => ?_
    obtain rfl := same
    dsimp only
    split
    · refine (WpUnless.of_result fun _ _ => sprintf_same).bind fun newname fs₂ same => ?_
      obtain rfl := same
      refine (WpUnless.of_result fun _ _ => bufferCacheRead_same).bind fun block fs₃ same => ?_
      obtain rfl := same
      rw [pure_bind]
      refine (ih (i + 1)).bind fun rest fs₄ same => ?_
      exact .inl ((wp_pure _).mpr same)
    · rw [pure_bind]
      refine (ih (i + 1)).bind fun rest fs₄ same => ?_
      exact .inl ((wp_pure _).mpr same)

/-- With no sector free, `recover` finds no inode to give a name to. -/
private theorem recoverInodes_full (full : freeCount fs = 0) (i left : Nat) (inside : i + left ≤ fs.freeMap.length) :
    recoverInodes i left fs = some (⟨⟩, fs) := by
  induction left generalizing i with
  | zero => rfl
  | succ left ih =>
    have used : bitmapTest fs.freeMap i = true := by
      rw [bitmapTest, List.getD_eq_getElem?_getD, List.getElem?_eq_getElem (by omega), Option.getD_some]
      exact Bool.of_not_eq_false fun free => List.count_eq_zero.mp full (free ▸ List.getElem_mem _)
    have now : (get : M FileSystem) fs = some (fs, fs) := rfl
    rw [recoverInodes, run_bind now]
    dsimp only
    rw [if_pos used]
    exact ih (i + 1) (by omega)

theorem recover_unless (running : Running fs none) {flag : Int} (full : flag = 0 → freeCount fs = 0) :
    WpUnless True (recover flag) (fun _ fs' => Browsed fs fs' none) fs := by
  rw [recover]
  have now : (get : M FileSystem) fs = some (fs, fs) := rfl
  apply WpUnless.after now
  split
  next first =>
    apply WpUnless.after (recoverInodes_full (full first) 0 _ (by omega))
    exact .inl ((wp_pure _).mpr running.browsed)
  next =>
    split
    · exact (recoverSectors_unless _ _).mono fun _ _ same => same ▸ running.browsed
    · split
      · exact (pass_unless running fun fs dir d name running plain => recoverSlack_unless running plain).bind
          fun _ _ browsed => .inl ((wp_pure _).mpr browsed)
      · exact .inl ((wp_pure _).mpr running.browsed)

end Commands

section CopyingIn
variable {source : List UInt8} {result : Int}

theorem hostBuffer_length (source : List UInt8) (count : Nat) : (hostBuffer source count).length = count := by
  rw [hostBuffer, List.length_append, List.length_take, List.length_replicate]
  omega

theorem hostBuffer_eq {source : List UInt8} {count : Nat} (fewer : count ≤ source.length) : hostBuffer source count = source.take count := by
  rw [hostBuffer, Nat.sub_eq_zero_of_le fewer, List.replicate_zero, List.append_nil]

/-- The first `newSize` bytes of the host file are what `copy_in` puts into the buffer. -/
theorem copyIn_result {result : Int} (ran : copyIn name (some source) fs = some (result, fs')) :
    ∃ newSize created middle, newSize = copyInSize (numFreeSectors fs) (offsetT source.length) ∧
      fsutilCreate name (newSize % 4294967296).toNat fs = some (created, middle) ∧
      (created ≠ 1 ∧ result = 2 ∧ fs' = middle ∨
        created = 1 ∧ result = 0 ∧ ∃ written, fsutilWrite name (hostBuffer source newSize.toNat ++ [0]) middle = some (written, fs')) := by
  have free : fsutilFreespace fs = some (numFreeSectors fs, fs) := rfl
  rw [copyIn, run_bind free] at ran
  obtain ⟨created, middle, first, rest⟩ := bind_some ran
  refine ⟨_, created, middle, rfl, first, ?_⟩
  by_cases refused : created ≠ 1
  · rw [if_pos refused] at rest
    cases rest
    exact .inl ⟨refused, rfl, rfl⟩
  · rw [if_neg refused] at rest
    obtain ⟨written, after, wrote, rest⟩ := bind_some rest
    cases rest
    exact .inr ⟨Decidable.not_not.mp refused, rfl, written, wrote⟩

/-- The two commands that `copy_in` is made of. -/
def copyInCreate (fs : FileSystem) (name : CString) (source : List UInt8) : Command :=
  .create name (copyInSize (numFreeSectors fs) (offsetT source.length) % 4294967296).toNat

def copyInWrite (fs : FileSystem) (name : CString) (source : List UInt8) : Command :=
  .write name (hostBuffer source (copyInSize (numFreeSectors fs) (offsetT source.length)).toNat ++ [0])

theorem copyInCreate_valid (plain : PlainName name) : (copyInCreate fs name source).Valid := ⟨plain, nofun, nofun⟩

theorem copyInSize_range (freespace : Nat) {fileSize : Int} (low : -2147483648 ≤ fileSize) (high : fileSize < 2147483648) :
    -2147483648 ≤ copyInSize freespace fileSize ∧ copyInSize freespace fileSize < 2147483648 := by
  simp only [copyInSize]
  generalize (if fileSize.tmod 512 ≠ 0 then fileSize.tdiv 512 + 1 else fileSize.tdiv 512) = sectorsTowrite
  generalize (if 123 < offsetT ((freespace : Int) - 1) ∧ 123 < sectorsTowrite then
    if 123 + 129 < offsetT ((freespace : Int) - 1) ∧ 123 + 129 < sectorsTowrite then (17 : Int) else 2 else 0) = allocatedIndirect
  split
  · exact offsetT_range _
  · exact ⟨low, high⟩

/-- The size reaches `inode_create` as it was computed. -/
theorem copyInSize_offsetT (freespace : Nat) (source : List UInt8) :
    offsetT (copyInSize freespace (offsetT source.length) % 4294967296).toNat = copyInSize freespace (offsetT source.length) := by
  have range := offsetT_range source.length
  obtain ⟨low, high⟩ := copyInSize_range freespace range.1 range.2
  rw [offsetT, Int.bmod_def, Int.cast_ofNat_Int]
  omega

/-- `copy_in` is nothing, a create, or a create and a write. -/
theorem copyIn_commands (running : Running fs none) (plain : PlainName name) {host : Option (List UInt8)}
    (ran : copyIn name host fs = some (result, fs')) :
    fs' = fs ∨ ∃ source created middle, host = some source ∧ (copyInCreate fs name source).run fs = some ((created, []), middle) ∧
      (fs' = middle ∨ created = 1 ∧ ∃ written, (copyInWrite fs name source).Valid ∧
        (copyInWrite fs name source).run middle = some ((written, []), fs')) := by
  cases host with
  | none =>
    cases ran
    exact .inl rfl
  | some source =>
    obtain ⟨newSize, created, middle, size, first, rest⟩ := copyIn_result ran
    have create : (copyInCreate fs name source).run fs = some ((created, []), middle) := by
      rw [copyInCreate, Command.run, ← size]
      exact run_bind first _
    refine .inr ⟨source, created, middle, rfl, create, ?_⟩
    rcases rest with ⟨_, _, same⟩ | ⟨rfl, _, written, wrote⟩
    · exact .inl same
    · have valid : (copyInCreate fs name source).Valid := ⟨plain, nofun, nofun⟩
      have small : newSize.toNat ≤ 8517120 := by
        have high : newSize < 2147483648 := size ▸ (copyInSize_range _ (offsetT_range _).1 (offsetT_range _).2).2
        by_cases long : 255 ≤ name.length
        · cases (fsutilCreate_refused long).symm.trans first
        · obtain ⟨_, success, returned, ran⟩ := (fsutilCreate_wp running plain _ (by omega)).result first
          cases success with
          | false => cases returned
          | true =>
            have fits := (ran.outcome.mp rfl).1
            rcases Int.lt_or_le newSize 0 with negative | nonneg
            · omega
            · have unsigned : ((newSize % 4294967296).toNat : Int) = newSize := by omega
              rw [unsigned, offsetT_eq (by omega) high] at fits
              have limit := fits.2.1
              omega
      refine .inr ⟨rfl, written, ⟨plain, ?_, nofun⟩, ?_⟩
      · rintro _ _ same
        cases same
        rw [← size, List.length_append, hostBuffer_length, List.length_singleton]
        omega
      · rw [copyInWrite, Command.run, ← size]
        exact run_bind wrote _

end CopyingIn

section Runs

theorem Shell.Allowed.running (allowed : shell.Allowed fs) (running : Running fs none) (ran : shell.run fs = some (⟨⟩, fs')) :
    Running fs' none := by
  obtain ⟨valid, full⟩ := allowed
  cases shell with
  | file command =>
    obtain ⟨_, ran⟩ := run_unit ran
    exact Command.Valid.running valid running ran
  | ls =>
    obtain ⟨_, ran⟩ := run_unit ran
    exact ((fsutilLs_wp running).result ran).2.running
  | copyIn name source =>
    obtain ⟨_, ran⟩ := run_unit ran
    rcases copyIn_commands running valid ran with rfl | ⟨source, created, middle, _, create, rest⟩
    · exact running
    · have running₁ := (copyInCreate_valid valid).running running create
      rcases rest with rfl | ⟨_, written, fine, write⟩
      · exact running₁
      · exact fine.running running₁ write
  | copyOut name writable =>
    obtain ⟨_, ran⟩ := run_unit ran
    exact ((copyOut_unless running valid writable).result ran).running
  | findFile pattern =>
    obtain ⟨_, ran⟩ := run_unit ran
    exact ((findFile_unless running pattern).result ran).running
  | fragmentationDegree =>
    obtain ⟨_, ran⟩ := run_unit ran
    exact ((fragmentationDegree_unless running).result ran).running
  | defragment =>
    obtain ⟨_, ran⟩ := run_unit ran
    exact ((defragment_wp running).result ran).2.running
  | recover flag =>
    obtain ⟨_, ran⟩ := run_unit ran
    exact ((recover_unless running fun zero => full (zero ▸ rfl)).result ran).running

theorem ShellReached.running {device : Array Block} {bounded : device.size < 2 ^ 32} (reached : ShellReached Shell.Allowed device bounded fs) :
    Running fs none := by
  induction reached with
  | formatted ran => exact (filesysInit_formatted bounded ran).running
  | step _ may ran ih => exact may.running ih ran

end Runs

end Comp310.Fs
