import Comp310.Fs.Lifecycle
import Comp310.Fs.Directory

/-! A directory as the list of its entries: what the searches of directory.c
find, and what one written entry changes. -/

namespace Comp310.Fs
open Comp310.Lib

/-- Entry `i` of a directory. -/
def slotAt (v : View) (data : InodeDisk) (i : Nat) : DirEntry := .ofBytes (fileRange v data (36 * i) 36)

/-- The entries of a directory, the ones not in use included. -/
def slotsOf (v : View) (data : InodeDisk) : List DirEntry :=
  (List.range (data.length.toNat / 36)).map (slotAt v data)

def slots (fs : FileSystem) : List DirEntry := slotsOf fs.disk.view (curData fs 1)

/-- What `lookup` finds from entry `i` on, with its offset. -/
def findFrom (name : CString) (i : Nat) : List DirEntry → Option (DirEntry × Int)
  | [] => none
  | e :: rest => if e.inUse && name == e.fname then some (e, (36 * i : Nat)) else findFrom name (i + 1) rest

/-- The first entry that is free from `i` on, or the one past the end. -/
def freeFrom (i : Nat) : List DirEntry → Nat
  | [] => i
  | e :: rest => if e.inUse then freeFrom (i + 1) rest else i

/-- The first name from entry `i` on and the entry after it, as `dir_readdir` goes. -/
def nameFrom (i : Nat) : List DirEntry → Option CString × Nat
  | [] => (none, i)
  | e :: rest => if e.inUse then (some e.fname, i + 1) else nameFrom (i + 1) rest

variable {fs fs' : FileSystem} {v : View} {data : InodeDisk} {addr : Addr} {inode : Inode} {name : CString}

theorem DirEntry.bytes_length (e : DirEntry) : e.bytes.length = 36 := by
  simp [DirEntry.bytes]

private theorem ofBytes_eq (sector : Sector) (name : Vector UInt8 31) (inUse : Bool) {bytes : List UInt8}
    (word : ∀ k < 4, bytes.getD k 0 = wordByte sector k) (names : ∀ k : Fin 31, bytes.getD (4 + k) 0 = name[k])
    (flag : bytes.getD 35 0 = if inUse then 1 else 0) : DirEntry.ofBytes bytes = ⟨sector, name, inUse⟩ := by
  rw [DirEntry.ofBytes, DirEntry.mk.injEq]
  refine ⟨?_, ?_, ?_⟩
  · rw [word 0 (by decide), word 1 (by decide), word 2 (by decide), word 3 (by decide)]
    exact joinBytes_wordByte sector
  · apply Vector.ext
    intro index inside
    rw [Vector.getElem_ofFn]
    exact names ⟨index, inside⟩
  · rw [flag]
    cases inUse <;> rfl

theorem DirEntry.ofBytes_bytes (e : DirEntry) : DirEntry.ofBytes e.bytes = e := by
  obtain ⟨sector, name, inUse⟩ := e
  refine ofBytes_eq sector name inUse (fun k small => ?_) (fun k => ?_) ?_ <;>
    simp only [DirEntry.bytes, List.append_assoc, List.getD_eq_getElem?_getD]
  · rw [List.getElem?_append_left (by simpa using small)]
    match k, small with
    | 0, _ | 1, _ | 2, _ | 3, _ => rfl
  · rw [List.getElem?_append_right (by simp), List.getElem?_append_left (by simp)]
    simp
  · rw [List.getElem?_append_right (by simp), List.getElem?_append_right (by simp)]
    simp

theorem slotsOf_length : (slotsOf v data).length = data.length.toNat / 36 := by simp [slotsOf]

theorem slotsOf_getElem? {i : Nat} (inside : i < (slotsOf v data).length) : (slotsOf v data)[i]? = some (slotAt v data i) := by
  rw [slotsOf_length] at inside
  simp [slotsOf, inside]

theorem drop_slotsOf {i : Nat} (inside : i < (slotsOf v data).length) :
    (slotsOf v data).drop i = slotAt v data i :: (slotsOf v data).drop (i + 1) := by
  have here := slotsOf_getElem? inside
  rw [List.getElem?_eq_getElem inside] at here
  rw [List.drop_eq_getElem_cons inside, Option.some.inj here]

section Reading

theorem inodeReadAt_eq (opened : fs.inode? addr = some inode) (readable : Readable fs inode.data) (size start : Nat) :
    inodeReadAt addr size start fs =
      some (fileRange fs.disk.view inode.data start (min size (inode.data.length.toNat - start)), fs) := by
  rw [inodeReadAt, run_bind (getInode_eq opened)]
  exact readLoop_eq readable _ _ _ (by omega)

private theorem slot_read (opened : fs.inode? addr = some inode) (readable : Readable fs inode.data) (i : Nat) :
    ∃ bytes, inodeReadAt addr 36 (36 * i : Nat) fs = some (bytes, fs) ∧
      (i < (slotsOf fs.disk.view inode.data).length → bytes.length = 36 ∧
        DirEntry.ofBytes bytes = slotAt fs.disk.view inode.data i) ∧
      ((slotsOf fs.disk.view inode.data).length ≤ i → bytes.length ≠ 36) := by
  refine ⟨_, inodeReadAt_eq opened readable 36 (36 * i), fun inside => ?_, fun outside => ?_⟩ <;> rw [slotsOf_length] at *
  · rw [show min 36 (inode.data.length.toNat - 36 * i) = 36 by omega]
    exact ⟨fileRange_length _ _, rfl⟩
  · rw [fileRange_length]
    omega

private theorem next_ofs (i : Nat) : ((36 * i : Nat) : Int) + 36 = ((36 * (i + 1) : Nat) : Int) := by omega

theorem lookupLoop_eq (opened : fs.inode? addr = some inode) (readable : Readable fs inode.data) (fuel i : Nat)
    (enough : (slotsOf fs.disk.view inode.data).length - i < fuel) :
    lookupLoop addr name fuel (36 * i : Nat) fs =
      some (findFrom name i ((slotsOf fs.disk.view inode.data).drop i), fs) := by
  induction fuel generalizing i with
  | zero => omega
  | succ fuel ih =>
    obtain ⟨bytes, read, found, short⟩ := slot_read opened readable i
    rw [lookupLoop, run_bind read]
    rcases Nat.lt_or_ge i (slotsOf fs.disk.view inode.data).length with inside | outside
    · obtain ⟨whole, slot⟩ := found inside
      rw [if_pos whole, slot, drop_slotsOf inside, findFrom]
      split
      next => rfl
      next => rw [next_ofs]; exact ih (i + 1) (by omega)
    · rw [if_neg (short outside), List.drop_eq_nil_of_le outside]
      rfl

theorem freeSlotLoop_eq (opened : fs.inode? addr = some inode) (readable : Readable fs inode.data) (fuel i : Nat)
    (enough : (slotsOf fs.disk.view inode.data).length - i < fuel) :
    freeSlotLoop addr fuel (36 * i : Nat) fs =
      some (((36 * freeFrom i ((slotsOf fs.disk.view inode.data).drop i) : Nat) : Int), fs) := by
  induction fuel generalizing i with
  | zero => omega
  | succ fuel ih =>
    obtain ⟨bytes, read, found, short⟩ := slot_read opened readable i
    rw [freeSlotLoop, run_bind read]
    rcases Nat.lt_or_ge i (slotsOf fs.disk.view inode.data).length with inside | outside
    · obtain ⟨whole, slot⟩ := found inside
      rw [if_pos whole, slot, drop_slotsOf inside, freeFrom]
      split
      next => rw [next_ofs]; exact ih (i + 1) (by omega)
      next => rfl
    · rw [if_neg (short outside), List.drop_eq_nil_of_le outside]
      rfl

/-- One call of `dir_readdir`, on one of the open directories. -/
theorem readdirLoop_wp {dir : Addr} {d : Dir} (opened : fs.inode? d.inode = some inode) (readable : Readable fs inode.data)
    (found : fs.dirs.lookup dir = some d) (fuel i : Nat) (pos : d.pos = (36 * i : Nat))
    (enough : (slotsOf fs.disk.view inode.data).length - i < fuel) :
    Wp (readdirLoop dir fuel) (fun result fs' => result = (nameFrom i ((slotsOf fs.disk.view inode.data).drop i)).1 ∧
      ∃ dirs, fs' = { fs with dirs } ∧ dirs.map (·.1) = fs.dirs.map (·.1) ∧
        dirs.lookup dir = some { d with pos := (36 * (nameFrom i ((slotsOf fs.disk.view inode.data).drop i)).2 : Nat) }) fs := by
  induction fuel generalizing fs d i with
  | zero => omega
  | succ fuel ih =>
    obtain ⟨bytes, read, slot, short⟩ := slot_read opened readable i
    have here : getDir dir fs = some (d, fs) := by
      change (fs.dirs.lookup dir).map _ = _
      rw [found]
      rfl
    rw [readdirLoop, wp_bind]
    refine Wp.of_eq here ?_
    rw [pos, wp_bind]
    refine Wp.of_eq read ?_
    rcases Nat.lt_or_ge i (slotsOf fs.disk.view inode.data).length with inside | outside
    · obtain ⟨whole, slot⟩ := slot inside
      rw [if_pos whole, slot, drop_slotsOf inside, nameFrom, modifyDir, wp_bind, wp_modify]
      generalize moved_eq : (fs.dirs.map fun entry => if entry.1 = dir then (dir, { entry.2 with pos := entry.2.pos + 36 }) else entry) = moved
      have found' : moved.lookup dir = some { d with pos := (36 * (i + 1) : Nat) } := by
        rw [← moved_eq, lookup_change fun d : Dir => { d with pos := d.pos + 36 }, found, ← next_ofs, ← pos]
        rfl
      have keys : moved.map (·.1) = fs.dirs.map (·.1) := by
        rw [← moved_eq]
        exact keys_change fun d : Dir => { d with pos := d.pos + 36 }
      dsimp only
      split
      next => exact (wp_pure _).mpr ⟨rfl, moved, rfl, keys, found'⟩
      next =>
        have readable' : Readable { fs with dirs := moved } inode.data :=
          ⟨readable.nonneg, readable.limit, readable.inRange, readable.mapped⟩
        have opened' : FileSystem.inode? { fs with dirs := moved } d.inode = some inode := opened
        refine (@ih { fs with dirs := moved } { d with pos := (36 * (i + 1) : Nat) } opened' readable' found' (i + 1) rfl
          (by dsimp only; omega)).mono fun result fs' ⟨same, dirs, after, keys', place⟩ => ?_
        exact ⟨same, dirs, after, keys'.trans keys, place⟩
    · rw [if_neg (short outside), List.drop_eq_nil_of_le outside, nameFrom, wp_pure]
      exact ⟨rfl, fs.dirs, rfl, rfl, by rw [found, ← pos]⟩

theorem readdirLoop_eq {dir : Addr} {d : Dir} (opened : fs.inode? d.inode = some inode) (readable : Readable fs inode.data)
    (dirs : fs.dirs = [(dir, d)]) (fuel i : Nat) (pos : d.pos = (36 * i : Nat))
    (enough : (slotsOf fs.disk.view inode.data).length - i < fuel) :
    readdirLoop dir fuel fs = some ((nameFrom i ((slotsOf fs.disk.view inode.data).drop i)).1, { fs with
      dirs := [(dir, { d with pos := (36 * (nameFrom i ((slotsOf fs.disk.view inode.data).drop i)).2 : Nat) })] }) := by
  obtain ⟨_, _, ran, rfl, moved, rfl, keys, place⟩ :=
    readdirLoop_wp opened readable (show fs.dirs.lookup dir = some d by rw [dirs]; simp) fuel i pos enough
  rw [dirs] at keys
  match moved, keys, place with
  | [(_, d')], rfl, place =>
    rw [List.lookup_cons, beq_self_eq_true] at place
    rw [ran, Option.some.inj place]

end Reading

section Searching
variable {entries : List DirEntry} {e : DirEntry} {i : Nat}

theorem findFrom_some {ofs : Int} (found : findFrom name i entries = some (e, ofs)) :
    ∃ j, entries[j]? = some e ∧ ofs = (36 * (i + j) : Nat) ∧ e.inUse = true ∧ e.fname = name := by
  induction entries generalizing i with
  | nil => cases found
  | cons first rest ih =>
    rw [findFrom] at found
    split at found
    next hit =>
      cases found
      rw [Bool.and_eq_true] at hit
      exact ⟨0, rfl, rfl, hit.1, (eq_of_beq hit.2).symm⟩
    next =>
      obtain ⟨j, there, rfl, rest⟩ := ih found
      exact ⟨j + 1, there, by omega, rest⟩

theorem findFrom_none : findFrom name i entries = none ↔ ∀ e ∈ entries, e.inUse = true → e.fname ≠ name := by
  induction entries generalizing i with
  | nil => simp [findFrom]
  | cons first rest ih =>
    rw [findFrom, List.forall_mem_cons, ← ih (i := i + 1)]
    by_cases hit : (first.inUse && name == first.fname) = true
    · rw [if_pos hit]
      rw [Bool.and_eq_true] at hit
      exact ⟨nofun, fun ⟨differs, _⟩ => absurd (eq_of_beq hit.2).symm (differs hit.1)⟩
    · rw [if_neg hit]
      rw [Bool.and_eq_true, not_and] at hit
      exact ⟨fun missing => ⟨fun used same => hit used (beq_iff_eq.mpr same.symm), missing⟩, And.right⟩

theorem freeFrom_le {j : Nat} {e : DirEntry} (there : entries[j]? = some e) (free : e.inUse = false) : freeFrom i entries ≤ i + j := by
  induction entries generalizing i j with
  | nil => cases there
  | cons first rest ih =>
    rw [freeFrom]
    split
    next used =>
      cases j with
      | zero =>
        cases there
        rw [used] at free
        cases free
      | succ j =>
        have later := ih (i := i + 1) there
        omega
    next => omega

theorem freeFrom_spec : i ≤ freeFrom i entries ∧ freeFrom i entries ≤ i + entries.length ∧
    ∀ e, entries[freeFrom i entries - i]? = some e → e.inUse = false := by
  induction entries generalizing i with
  | nil => simp [freeFrom]
  | cons first rest ih =>
    rw [freeFrom]
    split
    next =>
      obtain ⟨low, high, free⟩ := ih (i := i + 1)
      refine ⟨by omega, by rw [List.length_cons]; omega, fun e there => free e ?_⟩
      rw [show freeFrom (i + 1) rest - i = freeFrom (i + 1) rest - (i + 1) + 1 by omega] at there
      exact there
    next unused =>
      refine ⟨Nat.le_refl i, Nat.le_add_right _ _, fun e there => ?_⟩
      rw [Nat.sub_self] at there
      cases there
      simpa using unused

/-- One entry replaced, or added at the end. -/
def putSlot (entries : List DirEntry) (j : Nat) (e : DirEntry) : List DirEntry :=
  if j < entries.length then entries.set j e else entries ++ [e]

theorem putSlot_getElem? {j : Nat} (place : j ≤ entries.length) (k : Nat) :
    (putSlot entries j e)[k]? = if k = j then some e else entries[k]? := by
  unfold putSlot
  split
  next inside =>
    rw [List.getElem?_set]
    by_cases same : k = j
    · subst same
      simp [inside]
    · rw [if_neg (Ne.symm same), if_neg same]
  next outside =>
    obtain rfl : j = entries.length := by omega
    rcases Nat.lt_trichotomy k entries.length with before | rfl | after
    · rw [List.getElem?_append_left before, if_neg (by omega)]
    · simp
    · rw [List.getElem?_eq_none (by simp; omega), if_neg (by omega), List.getElem?_eq_none (by omega)]

end Searching

section Writing

theorem fileRange_congr {v' : View} {data' : InodeDisk} {start count : Nat}
    (same : ∀ i, start ≤ i → i < start + count → fileByte v' data' i = fileByte v data i) :
    fileRange v' data' start count = fileRange v data start count := by
  refine List.map_congr_left fun i inside => ?_
  rw [List.mem_range] at inside
  exact same (start + i) (by omega) (by omega)

theorem Alike.slotsOf {sector : Sector} (alike : Alike fs fs' sector) :
    Fs.slotsOf fs'.disk.view (curData fs' sector) = Fs.slotsOf fs.disk.view (curData fs sector) := by
  unfold Fs.slotsOf
  rw [alike.length]
  refine List.map_congr_left fun i inside => ?_
  rw [List.mem_range] at inside
  rw [slotAt, slotAt, fileRange_congr fun k low high => alike.bytes k (by omega)]

theorem Alike.slots (alike : Alike fs fs' 1) : slots fs' = slots fs := alike.slotsOf

theorem WriteAt.slotsOf {live : Sector → Prop} {j : Nat} {e : DirEntry} {ok : Bool}
    (wrote : WriteAt live fs fs' addr inode (36 * j) e.bytes ok) (blocks : Blocks live fs)
    (opened : (addr, inode) ∈ fs.openInodes) (place : j ≤ (Fs.slotsOf fs.disk.view inode.data).length) : Fs.slotsOf fs'.disk.view (curData fs' inode.sector) =
      if ok then putSlot (Fs.slotsOf fs.disk.view inode.data) j e else Fs.slotsOf fs.disk.view inode.data := by
  have was := blocks.handles.curData opened
  have readable := was ▸ blocks.readable (blocks.opens _ opened)
  have readable' := wrote.blocks.readable (blocks.opens _ opened)
  have length := wrote.length
  have bytes := wrote.bytes
  have nonneg := readable.nonneg
  have limit := readable.limit
  have limit' := readable'.limit
  dsimp only at limit'
  rw [slotsOf_length] at place
  rw [e.bytes_length] at length bytes
  have old (k : Nat) (inside : k < inode.data.length.toNat / 36) (differs : ok = false ∨ k ≠ j) :
      slotAt fs'.disk.view (curData fs' inode.sector) k = slotAt fs.disk.view inode.data k := by
    rw [slotAt, slotAt, fileRange_congr]
    intro i low high
    rw [bytes i (by omega)]
    refine if_neg ?_
    rintro ⟨done, above, below⟩
    rcases differs with failed | differs
    · rw [failed] at done
      cases done
    · omega
  cases ok with
  | false =>
    have same : (curData fs' inode.sector).length = inode.data.length := length
    rw [if_neg (by decide), Fs.slotsOf, Fs.slotsOf, same]
    refine List.map_congr_left fun k inside => ?_
    rw [List.mem_range] at inside
    exact old k inside (.inl rfl)
  | true =>
    simp only [if_true] at length
    have size : (curData fs' inode.sector).length.toNat / 36 = max (inode.data.length.toNat / 36) (j + 1) := by omega
    rw [if_pos rfl]
    apply List.ext_getElem?
    intro k
    rw [putSlot_getElem? (by rw [slotsOf_length]; exact place)]
    rcases Nat.lt_or_ge k (max (inode.data.length.toNat / 36) (j + 1)) with inside | outside
    · rw [slotsOf_getElem? (by rw [slotsOf_length, size]; exact inside)]
      by_cases same : k = j
      · subst same
        have written : fileRange fs'.disk.view (curData fs' inode.sector) (36 * k) 36 = e.bytes := by
          apply List.ext_getElem
          · rw [fileRange_length, e.bytes_length]
          · intro i inside inside'
            rw [fileRange_length] at inside
            simp only [fileRange, List.getElem_map, List.getElem_range]
            rw [bytes _ (by omega), if_pos ⟨rfl, by omega, by omega⟩, Nat.add_sub_cancel_left, List.getD_eq_getElem?_getD,
              List.getElem?_eq_getElem inside']
            rfl
        rw [if_pos rfl, slotAt, written, e.ofBytes_bytes]
      · rw [if_neg same, slotsOf_getElem? (by rw [slotsOf_length]; omega), old k (by omega) (.inr same)]
    · rw [List.getElem?_eq_none (by rw [slotsOf_length, size]; exact outside), if_neg (by omega),
        List.getElem?_eq_none (by rw [slotsOf_length]; omega)]

theorem WriteAt.slots {live : Sector → Prop} {j : Nat} {e : DirEntry} {ok : Bool}
    (wrote : WriteAt live fs fs' addr inode (36 * j) e.bytes ok) (blocks : Blocks live fs)
    (opened : (addr, inode) ∈ fs.openInodes) (root : inode.sector = 1)
    (place : j ≤ (Fs.slots fs).length) : Fs.slots fs' = if ok then putSlot (Fs.slots fs) j e else Fs.slots fs := by
  have was := blocks.handles.curData opened
  rw [root] at was
  rw [Fs.slots, was] at place
  have written := wrote.slotsOf blocks opened place
  rw [root] at written
  rw [Fs.slots, Fs.slots, was]
  exact written

end Writing

end Comp310.Fs
