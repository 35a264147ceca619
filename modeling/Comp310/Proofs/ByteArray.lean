import Comp310.Lib.Bytes
import Comp310.Fs.Runs

/-! An open inode is a growable array of bytes. -/

namespace Comp310.Proofs.ByteArray
open Comp310.Fs Comp310.Lib

/-- No two objects share a sector, every sector they own is in use, and each is zero past its end wherever it has a block. -/
structure WellFormed (live : Sector → Prop) (fs : FileSystem) : Prop where
  blocks : Blocks live fs
  blank : ∀ sector, live sector → sector ≠ 0 → Blank fs sector

variable {live : Sector → Prop} {fs fs' : FileSystem} {addr : Addr} {inode : Inode} {sector : Sector} {buffer : List UInt8}
  {start : Nat} {ok : Bool}

private theorem contentOf_length (blocks : Blocks live fs) (member : live sector) :
    ((contentOf fs sector).length : Int) = (curData fs sector).length ∧ (curData fs sector).length ≤ 8517120 := by
  have sound := blocks.sound sector member
  have nonneg := sound.nonneg
  rw [contentOf, fileRange_length]
  exact ⟨by omega, sound.limit⟩

private theorem WellFormed.contentOf_getD (formed : WellFormed live fs) (member : live sector) (nonzero : sector ≠ 0) (i : Nat)
    (small : i < 8517120) : (contentOf fs sector).getD i 0 = fileByte fs.disk.view (curData fs sector) i := by
  have length := (contentOf_length formed.blocks member).1
  rcases Nat.lt_or_ge i (contentOf fs sector).length with inside | outside
  · rw [List.getD_eq_getElem?_getD, List.getElem?_eq_getElem inside]
    simp [contentOf, fileRange]
  · rw [List.getD_eq_getElem?_getD, List.getElem?_eq_none outside]
    exact (formed.blank sector member nonzero i small (by omega)).symm

private theorem WellFormed.written (formed : WellFormed live fs) (opened : (addr, inode) ∈ fs.openInodes)
    (wrote : WriteAt live fs fs' addr inode start buffer ok) : WellFormed live fs' := by
  have was := formed.blocks.handles.curData opened
  refine ⟨wrote.blocks, fun other member nonzero => ?_⟩
  by_cases mine : other = inode.sector
  · subst mine
    intro i small past
    have before := formed.blank _ member nonzero i small
    rw [wrote.length] at past
    rw [was] at before
    rw [wrote.bytes i small]
    cases ok with
    | true =>
      simp only [if_true] at past
      rw [if_neg (by omega)]
      exact before (by omega)
    | false => exact before past
  · exact (wrote.others other member mine).blank nonzero (formed.blank other member nonzero)

theorem WellFormed.content_written (formed : WellFormed live fs) (opened : (addr, inode) ∈ fs.openInodes)
    (nonzero : inode.sector ≠ 0) (positive : 0 < buffer.length) (wrote : WriteAt live fs fs' addr inode start buffer true) :
    contentOf fs' inode.sector = overwrite (contentOf fs inode.sector) start buffer := by
  have member : live inode.sector := formed.blocks.opens _ opened
  have was := formed.blocks.handles.curData opened
  obtain ⟨before, _⟩ := contentOf_length formed.blocks member
  obtain ⟨after, limit⟩ := contentOf_length wrote.blocks member
  have length := wrote.length
  rw [if_pos rfl] at length
  rw [was] at before
  apply bytes_ext
  · rw [overwrite_length positive]
    omega
  · intro i inside
    have small : i < 8517120 := by omega
    rw [(formed.written opened wrote).contentOf_getD member nonzero i small, wrote.bytes i small, overwrite_getD,
      formed.contentOf_getD member nonzero i small, was]
    simp only [true_and]

/-- A write that succeeds puts its bytes into the array, and every later read finds them there. -/
theorem write_then_read (formed : WellFormed live fs) (opened : (addr, inode) ∈ fs.openInodes) (nonzero : inode.sector ≠ 0)
    (positive : 1 ≤ buffer.length) (bound : start + buffer.length < 2147483648)
    (ran : inodeWriteAt addr buffer start fs = some ((buffer.length : Int), fs')) :
    (curData fs' inode.sector).length = max inode.data.length ((start + buffer.length : Nat) : Int) ∧
    (∀ count offset : Nat, ∃ bytes, inodeReadAt addr count offset fs' = some (bytes, fs') ∧
      bytes = available (overwrite (contentOf fs inode.sector) start buffer) offset count ∧
      (bytes.length : Int) = min (count : Int) (max 0 ((curData fs' inode.sector).length - offset))) ∧
    (∀ other, live other → other ≠ 0 → other ≠ inode.sector →
      (curData fs' other).length = (curData fs other).length ∧ contentOf fs' other = contentOf fs other) ∧
    WellFormed live fs' := by
  obtain ⟨ok, _, written, wrote⟩ := (inodeWriteAt_wp formed.blocks opened nonzero positive bound).result ran
  obtain rfl : ok = true := by
    cases ok with
    | true => rfl
    | false =>
      rw [if_neg (by decide)] at written
      omega
  have member : live inode.sector := formed.blocks.opens _ opened
  have length := wrote.length
  rw [if_pos rfl] at length
  refine ⟨length, fun count offset => ?_, fun other there notZero differs => ?_, formed.written opened wrote⟩
  · obtain ⟨after, here⟩ : ∃ after, (addr, after) ∈ fs'.openInodes ∧ after.sector = inode.sector := wrote.openAt ⟨inode, opened, rfl⟩
    have data := wrote.blocks.handles.curData here.1
    rw [here.2] at data
    have readable := wrote.blocks.readable member
    rw [data] at readable
    have read := inodeReadAt_eq (wrote.blocks.handles.inode? here.1) readable count offset
    rw [← data, available_contentOf, formed.content_written opened nonzero positive wrote] at read
    refine ⟨_, read, rfl, ?_⟩
    obtain ⟨whole, _⟩ := contentOf_length wrote.blocks member
    rw [formed.content_written opened nonzero positive wrote] at whole
    rw [available, List.length_take, List.length_drop]
    omega
  · have alike := (wrote.others other there differs).alike notZero
    exact ⟨alike.length, alike.contentOf⟩

theorem write_then_read_grown : ∃ fs fs' addr, ∃ inode : Inode, (addr, inode) ∈ fs.openInodes ∧ inode.data.length = 5 ∧
    inodeWriteAt addr [66, 67] 8 fs = some (2, fs') ∧ (curData fs' inode.sector).length = 10 := by
  obtain ⟨fs, addr, inode, objects, opened, nonzero, _, named, length, _⟩ := smallDevice_open (show 5 ≤ 8517120 by decide)
    (by rw [wanted_eq (by decide), sectorsNeeded_eq (by decide)]; decide)
  have inside : Fits fs inode.data (8 + [(66 : UInt8), 67].length : Nat) := by
    have blocks := objects.blocks
    have readable := blocks.readable named.live
    rw [blocks.handles.curData opened] at readable
    refine ⟨by decide, ?_⟩
    have enough : shortOf fs inode.data (5 : Nat) = [] := shortOf_inside readable (by omega)
    have same : shortOf fs inode.data (8 + [(66 : UInt8), 67].length : Nat) = shortOf fs inode.data (5 : Nat) := rfl
    rw [same, enough]
    exact Nat.zero_le _
  obtain ⟨_, fs', ran, ok, fits, rfl, _⟩ := inodeWriteAt_wp objects.blocks opened nonzero
    (show 0 < [(66 : UInt8), 67].length by decide) (show 8 + [(66 : UInt8), 67].length < 2147483648 by decide)
  obtain rfl := fits.mpr inside
  obtain ⟨after, _⟩ := write_then_read ⟨objects.blocks, objects.blank⟩ opened nonzero (by decide) (by decide) ran
  refine ⟨fs, fs', addr, inode, opened, length, ran, ?_⟩
  rw [after, length]
  decide

private theorem shortened (objects : Objects live fs) (opened : (addr, inode) ∈ fs.openInodes) (nonzero : inode.sector ≠ 0) :
    ∃ fs', fs' = { fs with openInodes := setData fs addr { inode.data with length := 0 } } ∧ Blocks live fs' ∧
      curData fs' inode.sector = { inode.data with length := 0 } ∧
      ∀ other, live other → other ≠ inode.sector → Same fs fs' other := by
  have blocks := objects.blocks
  refine ⟨_, rfl, blocks.replace opened nonzero .refl rfl ?_ ⟨rfl, [], rfl, nofun, fun _ _ => rfl⟩ ?_ (Int.le_refl 0)
    (by dsimp only; omega) fun p absurd' => ?_⟩
  · refine Follows.congr blocks.service rfl (fun file home => ?_) rfl fun _ _ => rfl
    exact inode?_setData (blocks.mapFile_ne opened nonzero home)
  · rw [blockAt_length]
    exact .refl
  · exact absurd absurd' (by dsimp only; omega)

/-- A block past the end of a file is not cleared when a write comes to lie behind it. -/
theorem gap_keeps_block : ∃ fs fs' addr, ∃ inode : Inode, Blocks (Live fs) fs ∧
    (∀ sector, Live fs sector → sector ≠ 0 → ∀ i : Nat, (curData fs sector).length ≤ i →
      (i / 512 * 512 : Nat) < (curData fs sector).length → fileByte fs.disk.view (curData fs sector) i = 0) ∧
    (addr, inode) ∈ fs.openInodes ∧ Named fs [97] inode.sector ∧ inode.data.length = 0 ∧
    inodeWriteAt addr [66] 1000 fs = some (1, fs') ∧ inodeReadAt addr 1 0 fs' = some ([65], fs') := by
  obtain ⟨start, addr, inode, objects, opened, nonzero, notRoot, named, length, _⟩ := smallDevice_open (show 1024 ≤ 8517120 by decide)
    (by rw [wanted_eq (by decide), sectorsNeeded_eq (by decide)]; decide)
  have readable := objects.blocks.readable named.live
  rw [objects.blocks.handles.curData opened] at readable
  obtain ⟨_, full, _, ok, fits, rfl, wrote⟩ := inodeWriteAt_wp objects.blocks opened nonzero
    (show 0 < [(65 : UInt8)].length by decide) (show 0 + [(65 : UInt8)].length < 2147483648 by decide)
  obtain rfl := fits.mpr (fits_inside readable (by rw [length]; decide))
  obtain ⟨inode₁, opened₁, home₁⟩ : ∃ after, (addr, after) ∈ full.openInodes ∧ after.sector = inode.sector :=
    wrote.openAt ⟨inode, opened, rfl⟩
  have data₁ := wrote.blocks.handles.curData opened₁
  rw [home₁] at data₁
  have length₁ := wrote.length
  have byte₁ := wrote.bytes 0 (by decide)
  rw [if_pos ⟨rfl, by decide, by decide⟩, data₁] at byte₁
  rw [data₁, if_pos rfl, length] at length₁
  obtain ⟨fs, rfl, blocks, data, same⟩ := shortened (wrote.objects objects opened) opened₁ (by rw [home₁]; exact nonzero)
  have opened' : (addr, { inode₁ with data := { inode₁.data with length := 0 } }) ∈
      ({ full with openInodes := setData full addr { inode₁.data with length := 0 } } : FileSystem).openInodes :=
    mem_setData.mpr (.inr ⟨inode₁, opened₁, rfl⟩)
  have disk : ({ full with openInodes := setData full addr { inode₁.data with length := 0 } } : FileSystem).disk = full.disk := rfl
  have count : freeCount { full with openInodes := setData full addr { inode₁.data with length := 0 } } = freeCount full := rfl
  generalize ({ full with openInodes := setData full addr { inode₁.data with length := 0 } } : FileSystem) = fs at *
  have kept : slots fs = slots start :=
    ((same 1 Volume.root_live (by rw [home₁]; exact notRoot.symm)).alike (by decide)).slots.trans
      ((wrote.others 1 Volume.root_live notRoot.symm).alike (by decide)).slots
  rw [← live_congr kept] at blocks
  rw [home₁] at data
  have inside : Fits fs { inode₁.data with length := 0 } (1000 + [(66 : UInt8)].length : Nat) := by
    have readable₁ := wrote.blocks.readable named.live
    rw [data₁] at readable₁
    refine ⟨by decide, ?_⟩
    rw [shortOf, disk, blockAt_length, ← shortOf, shortOf_inside readable₁ (by rw [length₁]; decide)]
    exact Nat.zero_le _
  obtain ⟨_, fs', ran, ok, fits, rfl, wrote'⟩ := inodeWriteAt_wp blocks opened' (by dsimp only; rw [home₁]; exact nonzero)
    (show 0 < [(66 : UInt8)].length by decide) (show 1000 + [(66 : UInt8)].length < 2147483648 by decide)
  obtain rfl := fits.mpr inside
  obtain ⟨last, here, home'⟩ : ∃ after, (addr, after) ∈ fs'.openInodes ∧ after.sector = inode₁.sector :=
    wrote'.openAt ⟨_, opened', rfl⟩
  have data' := wrote'.blocks.handles.curData here
  rw [home'] at data'
  have length' := wrote'.length
  have byte' := wrote'.bytes 0 (by decide)
  rw [data', if_pos rfl] at length'
  rw [data', if_neg (by decide)] at byte'
  refine ⟨fs, fs', addr, _, blocks, fun other member notZero i past tail => ?_, opened', ?_, rfl, ran, ?_⟩
  · by_cases mine : other = inode.sector
    · rw [mine, data] at tail
      exact absurd tail (by dsimp only; omega)
    · have there : Live start other := live_congr kept ▸ member
      have limit := (blocks.sound other member).limit
      have before := (wrote.objects objects opened).blank other there notZero
      exact (same other there (by rw [home₁]; exact mine)).blank notZero before i (by omega) past
  · dsimp only
    rw [home₁]
    exact named_congr kept ▸ named
  · have readable' := wrote'.blocks.readable (wrote'.blocks.opens _ here)
    dsimp only at readable'
    rw [home', data'] at readable'
    have read := inodeReadAt_eq (wrote'.blocks.handles.inode? here) readable' 1 0
    rw [length'] at read
    have one : fileRange fs'.disk.view last.data 0 1 = [65] := by
      change [fileByte fs'.disk.view last.data 0] = _
      rw [byte', disk]
      exact congrArg (fun byte => [byte]) byte₁
    rw [← one]
    exact read

end Comp310.Proofs.ByteArray
