import Comp310.Fs.Stable
import Comp310.Fs.Fsutil

/-! Invariants that every operation on directories and paths keeps, besides those
that read and write: they depend neither on the directories that are open nor on
who has an inode open. -/

namespace Comp310.Fs
open Comp310.Lib

structure Enduring (long : Int → Prop) (invariant : FileSystem → Prop) : Prop extends Stable long invariant where
  dirs : ∀ fs dirs cwd nextAddr, invariant fs → invariant { fs with dirs, cwd, nextAddr }
  loaded : ∀ fs addr inode, invariant fs → long inode.data.length →
    invariant { fs with openInodes := (addr, inode) :: fs.openInodes }
  stored : ∀ block, long (InodeDisk.ofBlock block).length
  closed : ∀ fs addr, invariant fs →
    invariant { fs with openInodes := fs.openInodes.filter fun entry => entry.1 != addr }
  header : ∀ fs addr (change : Inode → Inode), (∀ inode, (change inode).data = inode.data) → invariant fs →
    invariant { fs with openInodes := fs.openInodes.map fun entry =>
      if entry.1 = addr then (addr, change entry.2) else entry }

namespace Enduring

variable {long : Int → Prop} {invariant : FileSystem → Prop}

section Inodes

theorem newAddr (enduring : Enduring long invariant) : Stays invariant newAddr := by
  apply Preserves.get.bind
  intro fs holds
  exact (Preserves.set (enduring.dirs fs fs.dirs fs.cwd _ holds)).next fun _ => .done

theorem inodeOpen (enduring : Enduring long invariant) (sector : Sector) : Stays invariant (inodeOpen sector) := by
  apply Preserves.get.stays.next
  intro fs
  split
  · exact .done
  · apply enduring.newAddr.next
    intro addr
    apply (enduring.bufferCacheRead sector).next
    intro block
    apply Preserves.next _ fun _ => .done
    apply Preserves.modify
    intro fs holds
    exact enduring.loaded fs addr _ holds (enduring.stored block)

theorem setHeader (enduring : Enduring long invariant) (addr : Addr) {change : Inode → Inode}
    (keeps : ∀ inode, (change inode).data = inode.data) : Stays invariant (modifyInode addr change) := by
  apply Preserves.modify
  intro fs holds
  exact enduring.header fs addr change keeps holds

theorem inodeClose (enduring : Enduring long invariant) (addr : Addr) : Stays invariant (inodeClose addr) := by
  apply (enduring.getInode addr).stays.next
  intro inode
  apply Preserves.ite
  · intro _
    apply Preserves.next
    · apply Preserves.modify
      intro fs holds
      exact enduring.closed fs addr holds
    intro _
    apply Preserves.ite
    · intro _
      apply (enduring.freeMapRelease _ _).next
      intro _
      exact (enduring.inodeDeallocate (fun sector => enduring.freeMapRelease sector 1) _).next fun _ => .done
    · exact fun _ => .done
  · intro _
    apply enduring.setHeader
    exact fun _ => rfl

theorem inodeRemove (enduring : Enduring long invariant) (addr : Addr) : Stays invariant (inodeRemove addr) := by
  apply (enduring.getInode addr).stays.next
  intro _
  apply enduring.setHeader
  exact fun _ => rfl

theorem fileClose (enduring : Enduring long invariant) (file : File) : Stays invariant (fileClose file) := by
  have allow : Stays invariant (fileAllowWrite file) := by
    apply Preserves.ite
    · intro _
      apply enduring.setHeader
      exact fun _ => rfl
    · exact fun _ => .done
  exact allow.next fun _ => enduring.inodeClose file.inode

end Inodes

section Directories

theorem getDir (dir : Addr) : Stays invariant (getDir dir) := by
  intro fs d fs' holds ran
  obtain ⟨d', _, done⟩ := Option.map_eq_some_iff.mp ran
  cases done
  exact ⟨holds, trivial⟩

theorem modifyDir (enduring : Enduring long invariant) (dir : Addr) (change : Dir → Dir) :
    Stays invariant (modifyDir dir change) := by
  apply Preserves.modify
  intro fs holds
  exact enduring.dirs fs _ fs.cwd fs.nextAddr holds

theorem dirOpen (enduring : Enduring long invariant) (inode : Addr) : Stays invariant (dirOpen inode) := by
  apply enduring.newAddr.next
  intro addr
  apply Preserves.next _ fun _ => .done
  apply Preserves.modify
  intro fs holds
  exact enduring.dirs fs _ fs.cwd fs.nextAddr holds

theorem dirOpenRoot (enduring : Enduring long invariant) : Stays invariant dirOpenRoot := by
  apply Preserves.get.stays.next
  intro fs
  split
  · apply (enduring.inodeOpen _).next
    intro inode
    apply (enduring.dirOpen inode).next
    intro dir
    apply Preserves.next _ fun _ => .done
    apply Preserves.modify
    intro fs holds
    exact enduring.dirs fs fs.dirs _ fs.nextAddr holds
  · apply (getDir _).next
    intro _
    exact (enduring.modifyDir _ _).next fun _ => .done

theorem dirReopen (enduring : Enduring long invariant) (dir : Addr) : Stays invariant (dirReopen dir) :=
  (getDir dir).next fun d => enduring.dirOpen d.inode

theorem dirClose (enduring : Enduring long invariant) (dir : Addr) : Stays invariant (dirClose dir) := by
  apply (getDir dir).next
  intro d
  apply Preserves.ite
  · intro _
    apply (enduring.inodeClose _).next
    intro _
    apply Preserves.modify
    intro fs holds
    exact enduring.dirs fs _ none fs.nextAddr holds
  · exact fun _ => enduring.modifyDir _ _

theorem entriesOf (enduring : Enduring long invariant) (inode : Addr) : Stays invariant (entriesOf inode) :=
  (enduring.getInode inode).stays.next fun _ => .done

theorem lookupLoop (enduring : Enduring long invariant) (inode : Addr) (name : CString) (fuel : Nat) (ofs : Int) :
    Stays invariant (lookupLoop inode name fuel ofs) := by
  induction fuel generalizing ofs with
  | zero => exact .fault
  | succ fuel ih =>
    apply (enduring.inodeReadAt _ _ _).next
    intro bytes
    apply Preserves.ite
    · intro _
      exact .ite (fun _ => .done) fun _ => ih _
    · exact fun _ => .done

theorem lookup (enduring : Enduring long invariant) (dir : Addr) (name : CString) : Stays invariant (lookup dir name) := by
  apply (getDir dir).next
  intro d
  apply (enduring.entriesOf d.inode).next
  intro fuel
  exact enduring.lookupLoop d.inode name fuel 36

theorem emptyLoop (enduring : Enduring long invariant) (inode : Addr) (fuel : Nat) (ofs : Int) :
    Stays invariant (emptyLoop inode fuel ofs) := by
  induction fuel generalizing ofs with
  | zero => exact .fault
  | succ fuel ih =>
    apply (enduring.inodeReadAt _ _ _).next
    intro bytes
    apply Preserves.ite
    · intro _
      exact .ite (fun _ => .done) fun _ => ih _
    · exact fun _ => .done

theorem dirIsEmpty (enduring : Enduring long invariant) (dir : Addr) : Stays invariant (dirIsEmpty dir) := by
  apply (getDir dir).next
  intro d
  apply (enduring.entriesOf d.inode).next
  intro fuel
  exact enduring.emptyLoop d.inode fuel 36

theorem dirLookup (enduring : Enduring long invariant) (dir : Addr) (name : CString) : Stays invariant (dirLookup dir name) := by
  apply (getDir dir).next
  intro d
  apply Preserves.ite
  · exact fun _ => .done
  intro _
  apply Preserves.ite
  · intro _
    apply (enduring.inodeReadAt _ _ _).next
    intro bytes
    exact (enduring.inodeOpen _).next fun _ => .done
  · intro _
    apply (enduring.lookup dir name).next
    intro found
    split
    · exact (enduring.inodeOpen _).next fun _ => .done
    · exact .done

theorem freeSlotLoop (enduring : Enduring long invariant) (inode : Addr) (fuel : Nat) (ofs : Int) :
    Stays invariant (freeSlotLoop inode fuel ofs) := by
  induction fuel generalizing ofs with
  | zero => exact .fault
  | succ fuel ih =>
    apply (enduring.inodeReadAt _ _ _).next
    intro bytes
    apply Preserves.ite
    · intro _
      exact .ite (fun _ => ih _) fun _ => .done
    · exact fun _ => .done

theorem dirAdd (enduring : Enduring long invariant) (dir : Addr) (name : CString) (sector : Sector) :
    Stays invariant (dirAdd dir name sector) := by
  apply (getDir dir).next
  intro d
  apply Preserves.ite
  · exact fun _ => .done
  intro _
  apply (enduring.lookup dir name).next
  intro found
  split
  · exact .done
  · apply (enduring.entriesOf d.inode).next
    intro fuel
    apply (enduring.freeSlotLoop d.inode fuel 0).next
    intro ofs
    exact (enduring.inodeWriteAt _ _ _).next fun _ => .done

theorem dirRemove (enduring : Enduring long invariant) (dir : Addr) (name : CString) : Stays invariant (dirRemove dir name) := by
  apply (enduring.lookup dir name).next
  intro found
  split
  · exact .done
  next e ofs =>
    apply (getDir dir).next
    intro d
    apply (enduring.inodeOpen e.inodeSector).next
    intro inode
    apply (enduring.getInode inode).stays.next
    intro opened
    have close (removed : Bool) : Stays invariant (do
        Fs.inodeClose inode
        pure removed) := (enduring.inodeClose inode).next fun _ => .done
    extract_lets rest
    have rests (removable : Bool) : Stays invariant (rest removable) := by
      apply Preserves.ite
      · intro _
        apply (enduring.inodeWriteAt _ _ _).next
        intro written
        apply Preserves.ite
        · intro _
          exact (enduring.inodeRemove inode).next fun _ => close true
        · exact fun _ => close false
      · exact fun _ => close false
    apply Preserves.ite
    · intro _
      apply (enduring.dirOpen inode).next
      intro target
      apply (enduring.dirIsEmpty target).next
      intro isEmpty
      apply (enduring.dirClose target).next
      intro _
      exact Preserves.done.next rests
    · exact fun _ => Preserves.done.next rests

theorem readdirLoop (enduring : Enduring long invariant) (dir : Addr) (fuel : Nat) : Stays invariant (readdirLoop dir fuel) := by
  induction fuel with
  | zero => exact .fault
  | succ fuel ih =>
    apply (getDir dir).next
    intro d
    apply (enduring.inodeReadAt _ _ _).next
    intro bytes
    apply Preserves.ite
    · intro _
      apply (enduring.modifyDir _ _).next
      intro _
      exact .ite (fun _ => .done) fun _ => ih
    · exact fun _ => .done

theorem dirReaddir (enduring : Enduring long invariant) (dir : Addr) : Stays invariant (dirReaddir dir) := by
  apply (getDir dir).next
  intro d
  apply (enduring.entriesOf d.inode).next
  intro fuel
  exact enduring.readdirLoop dir fuel

end Directories

section Paths

theorem walkPath (enduring : Enduring long invariant) (path : List CString) (curr : Addr) : Stays invariant (walkPath curr path) := by
  induction path generalizing curr with
  | nil => exact .done
  | cons token rest ih =>
    apply (enduring.dirLookup curr token).next
    intro found
    split
    · exact (enduring.dirClose curr).next fun _ => .done
    · apply (enduring.dirOpen _).next
      intro next
      exact (enduring.dirClose curr).next fun _ => ih next

theorem dirOpenPath (enduring : Enduring long invariant) (path : CString) : Stays invariant (dirOpenPath path) := by
  apply Preserves.get.stays.next
  intro fs
  extract_lets walk
  have walks (start : Addr) : Stays invariant (walk start) := by
    apply (enduring.walkPath _ start).next
    intro found
    split
    · exact .done
    · apply (getDir _).next
      intro d
      apply (enduring.getInode _).stays.next
      intro inode
      apply Preserves.ite
      · exact fun _ => (enduring.dirClose _).next fun _ => .done
      · exact fun _ => .done
  apply Preserves.ite
  · exact fun _ => enduring.dirOpenRoot.next walks
  · intro _
    split
    · exact enduring.dirOpenRoot.next walks
    · exact (enduring.dirReopen _).next walks

theorem filesysCreate (enduring : Enduring long invariant) (path : CString) (initialSize : Int) :
    Stays invariant (filesysCreate path initialSize) := by
  apply enduring.dirOpenRoot.next
  intro dir
  apply (enduring.freeMapAllocate 1).next
  intro found
  split
  · exact (enduring.dirClose dir).next fun _ => .done
  next inodeSector =>
    apply (enduring.inodeCreate _ _ _).next
    intro created
    extract_lets finish
    have finishes (success : Bool) : Stays invariant (finish success) := by
      have close (value : PUnit) : Stays invariant (do
          Fs.dirClose dir
          pure success) := (enduring.dirClose dir).next fun _ => .done
      apply Preserves.ite
      · exact fun _ => (enduring.freeMapRelease _ _).next close
      · exact fun _ => close ⟨⟩
    apply Preserves.ite
    · exact fun _ => (enduring.dirAdd _ _ _).next finishes
    · exact fun _ => finishes false

theorem filesysOpen (enduring : Enduring long invariant) (name : CString) :
    Preserves invariant (filesysOpen name) fun found => ∀ file, found = some file → file = fileOpen file.inode := by
  apply Preserves.ite
  · exact fun _ => .pure nofun
  intro _
  apply enduring.dirOpenRoot.next
  intro dir
  extract_lets look
  have looks (found : Option Addr) : Preserves invariant (look found)
      fun found => ∀ file, found = some file → file = fileOpen file.inode := by
    cases found with
    | none => exact .pure nofun
    | some addr =>
      apply (enduring.getInode addr).stays.next
      intro inode
      apply Preserves.ite
      · exact fun _ => .pure nofun
      · intro _
        apply Preserves.pure
        intro file opened
        cases opened
        rfl
  apply Preserves.ite
  · intro _
    apply (enduring.dirLookup _ _).next
    intro inode
    exact (enduring.dirClose dir).next fun _ => Preserves.done.next looks
  · intro _
    apply (getDir dir).next
    intro d
    exact Preserves.done.next looks

theorem filesysRemove (enduring : Enduring long invariant) (name : CString) : Stays invariant (filesysRemove name) := by
  apply (enduring.dirOpenPath _).next
  intro found
  split
  · exact .done
  · apply (enduring.dirRemove _ _).next
    intro success
    exact (enduring.dirClose _).next fun _ => .done

end Paths

section Scans
variable {body : CString → M α}

theorem forEachFile (enduring : Enduring long invariant) (each : ∀ name, Stays invariant (body name)) (dir : Addr) (fuel : Nat) :
    Stays invariant (forEachFile dir body fuel) := by
  induction fuel with
  | zero => exact .fault
  | succ fuel ih =>
    apply (enduring.dirReaddir dir).next
    intro found
    cases found with
    | none => exact .done
    | some name =>
      apply (each name).next
      intro result
      exact ih.next fun _ => .done

theorem scanRoot (enduring : Enduring long invariant) (each : ∀ name, Stays invariant (body name)) : Stays invariant (scanRoot body) := by
  apply enduring.dirOpenRoot.next
  intro dir
  apply (getDir dir).next
  intro d
  apply (enduring.entriesOf _).next
  intro fuel
  apply (enduring.forEachFile each dir fuel).next
  intro results
  exact (enduring.dirClose dir).next fun _ => .done

end Scans

end Enduring

end Comp310.Fs
