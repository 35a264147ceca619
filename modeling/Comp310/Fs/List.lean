import Comp310.Lib.Headed
import Comp310.Lib.Wp

/-! Doubly linked lists (list.c). The elements are anywhere in memory, and `less`
compares what they are embedded in. A null pointer that is followed, or returned
where the source leaves the result undefined, is a fault; an assertion that fails
prints a panic and is passed. A loop is given fuel. -/

namespace Comp310.Fs
open Comp310.Lib

/-- The address of a `list_elem`. -/
abbrev Elem := Nat

/-- `struct list`: its two elements, by their addresses. -/
abbrev LList := Ends Elem

/-- The pointers of all elements, and the number of panics so far. -/
structure ListHeap where
  links : Links Elem
  panics : Nat

abbrev L := Prog ListHeap

def ListHeap.isHead (heap : ListHeap) (elem : Elem) : Bool := (heap.links.prev elem).isNone && (heap.links.next elem).isSome

def ListHeap.isInterior (heap : ListHeap) (elem : Elem) : Bool := (heap.links.prev elem).isSome && (heap.links.next elem).isSome

def ListHeap.isTail (heap : ListHeap) (elem : Elem) : Bool := (heap.links.prev elem).isSome && (heap.links.next elem).isNone

/-- ASSERT. -/
def assert (condition : ListHeap → Bool) : L PUnit :=
  modify fun heap => if condition heap then heap else { heap with panics := heap.panics + 1 }

/-- `elem->prev`, to be followed. -/
def getPrev (elem : Elem) : L Elem := fun heap => (heap.links.prev elem).map fun target => (target, heap)

/-- `elem->next`, to be followed. -/
def getNext (elem : Elem) : L Elem := fun heap => (heap.links.next elem).map fun target => (target, heap)

def setPrev (elem : Elem) (target : Option Elem) : L PUnit := modify fun heap => { heap with links := heap.links.setPrev elem target }

def setNext (elem : Elem) (target : Option Elem) : L PUnit := modify fun heap => { heap with links := heap.links.setNext elem target }

def llistInit (list : LList) : L PUnit := do
  setPrev list.head none
  setNext list.head (some list.tail)
  setPrev list.tail (some list.head)
  setNext list.tail none

def listBegin (list : LList) : L Elem := getNext list.head

def listEnd (list : LList) : Elem := list.tail

def listNext (elem : Elem) : L Elem := do
  assert fun heap => heap.isHead elem || heap.isInterior elem
  getNext elem

def listPrev (elem : Elem) : L Elem := do
  assert fun heap => heap.isInterior elem || heap.isTail elem
  getPrev elem

def listInsert (before elem : Elem) : L PUnit := do
  assert fun heap => heap.isInterior before || heap.isTail before
  let prev ← getPrev before
  setPrev elem prev
  setNext elem before
  let prev ← getPrev before
  setNext prev elem
  setPrev before elem

/-- The elements from `first` up to the one before `last` are put before `before`. -/
def listSplice (before first last : Elem) : L PUnit := do
  assert fun heap => heap.isInterior before || heap.isTail before
  if first = last then pure ⟨⟩
  else do
    let last ← listPrev last
    assert fun heap => heap.isInterior first
    assert fun heap => heap.isInterior last
    let prev ← getPrev first
    let next ← getNext last
    setNext prev next
    let next ← getNext last
    let prev ← getPrev first
    setPrev next prev
    let prev ← getPrev before
    setPrev first prev
    setNext last before
    let prev ← getPrev before
    setNext prev first
    setPrev before last

def listPushFront (list : LList) (elem : Elem) : L PUnit := do
  let before ← listBegin list
  listInsert before elem

def listPushBack (list : LList) (elem : Elem) : L PUnit := listInsert (listEnd list) elem

/-- What followed the element is returned. -/
def listRemove (elem : Elem) : L Elem := do
  assert fun heap => heap.isInterior elem
  let prev ← getPrev elem
  let next ← getNext elem
  setNext prev next
  let next ← getNext elem
  let prev ← getPrev elem
  setPrev next prev
  getNext elem

def listEmpty (list : LList) : L Bool := do
  let first ← listBegin list
  pure (first == listEnd list)

def listFront (list : LList) : L Elem := do
  let empty ← listEmpty list
  assert fun _ => !empty
  getNext list.head

def listBack (list : LList) : L Elem := do
  let empty ← listEmpty list
  assert fun _ => !empty
  getPrev list.tail

def listPopFront (list : LList) : L Elem := do
  let front ← listFront list
  let _ ← listRemove front
  pure front

def listPopBack (list : LList) : L Elem := do
  let back ← listBack list
  let _ ← listRemove back
  pure back

def sizeLoop (list : LList) : Nat → Elem → Nat → L Nat
  | 0, _, _ => fault
  | fuel + 1, e, cnt =>
    if e = listEnd list then pure cnt
    else do
      let e ← listNext e
      sizeLoop list fuel e (cnt + 1)

/-- The two pointers of one element change places. -/
def swapElem (elem : Elem) : L PUnit :=
  modify fun heap => { heap with links := (heap.links.setPrev elem (heap.links.next elem)).setNext elem (heap.links.prev elem) }

/-- Two pointers of different elements change places. -/
def swapNextPrev (first second : Elem) : L PUnit :=
  modify fun heap => { heap with links := (heap.links.setNext first (heap.links.prev second)).setPrev second (heap.links.next first) }

def reverseLoop (list : LList) : Nat → Elem → L PUnit
  | 0, _ => fault
  | fuel + 1, e =>
    if e = listEnd list then pure ⟨⟩
    else do
      swapElem e
      let e ← getPrev e
      reverseLoop list fuel e

section Loops
variable (fuel : Nat)

def listSize (list : LList) : L Nat := do
  let e ← listBegin list
  sizeLoop list fuel e 0

def listReverse (list : LList) : L PUnit := do
  let empty ← listEmpty list
  if empty then pure ⟨⟩
  else do
    let e ← listBegin list
    reverseLoop list fuel e
    swapNextPrev list.head list.tail
    let first ← getNext list.head
    let last ← getPrev list.tail
    swapNextPrev last first

end Loops

def keepDuplicate (duplicates : Option LList) (elem : Elem) : L PUnit :=
  match duplicates with
  | none => pure ⟨⟩
  | some duplicates => listPushBack duplicates elem

section Ordered
variable (less : Elem → Elem → Bool)

def sortedLoop (b : Elem) : Nat → Elem → L Bool
  | 0, _ => fault
  | fuel + 1, a => do
    let a ← listNext a
    if a = b then pure true
    else do
      let prev ← listPrev a
      if less a prev then pure false else sortedLoop b fuel a

def endOfRunLoop (b : Elem) : Nat → Elem → L Elem
  | 0, _ => fault
  | fuel + 1, a => do
    let a ← listNext a
    if a = b then pure a
    else do
      let prev ← listPrev a
      if less a prev then pure a else endOfRunLoop b fuel a

def mergeLoop (b1 : Elem) : Nat → Elem → Elem → L PUnit
  | 0, _, _ => fault
  | fuel + 1, a0, a1b0 =>
    if a0 = a1b0 ∨ a1b0 = b1 then pure ⟨⟩
    else if less a1b0 a0 = false then do
      let a0 ← listNext a0
      mergeLoop b1 fuel a0 a1b0
    else do
      let a1b0 ← listNext a1b0
      let moved ← listPrev a1b0
      listSplice a0 moved a1b0
      mergeLoop b1 fuel a0 a1b0

def insertLoop (list : LList) (elem : Elem) : Nat → Elem → L Elem
  | 0, _ => fault
  | fuel + 1, e =>
    if e = listEnd list then pure e
    else if less elem e then pure e
    else do
      let e ← listNext e
      insertLoop list elem fuel e

def uniqueLoop (list : LList) (duplicates : Option LList) : Nat → Elem → L PUnit
  | 0, _ => fault
  | fuel + 1, elem => do
    let next ← listNext elem
    if next = listEnd list then pure ⟨⟩
    else if less elem next = false ∧ less next elem = false then do
      let _ ← listRemove next
      keepDuplicate duplicates next
      uniqueLoop list duplicates fuel elem
    else uniqueLoop list duplicates fuel next

/-- The loop of `list_max`; that of `list_min` has the arguments of `less` the other way round. -/
def bestLoop (better : Elem → Elem → Bool) (list : LList) : Nat → Elem → Elem → L Elem
  | 0, _, _ => fault
  | fuel + 1, best, e =>
    if e = listEnd list then pure best
    else do
      let best := if better best e then e else best
      let e ← listNext e
      bestLoop better list fuel best e

variable (fuel : Nat)

def isSorted (a b : Elem) : L Bool := if a = b then pure true else sortedLoop less b fuel a

def findEndOfRun (a b : Elem) : L Elem := do
  assert fun _ => a != b
  endOfRunLoop less b fuel a

def inplaceMerge (a0 a1b0 b1 : Elem) : L PUnit := do
  let sorted ← isSorted less fuel a0 a1b0
  assert fun _ => sorted
  let sorted ← isSorted less fuel a1b0 b1
  assert fun _ => sorted
  mergeLoop less b1 fuel a0 a1b0

/-- One pass over the list, and the number of runs that it puts out. -/
def sortPass (list : LList) : Nat → Elem → Nat → L Nat
  | 0, _, _ => fault
  | steps + 1, a0, outputRunCnt =>
    if a0 = listEnd list then pure outputRunCnt
    else do
      let a1b0 ← findEndOfRun less fuel a0 (listEnd list)
      if a1b0 = listEnd list then pure (outputRunCnt + 1)
      else do
        let b1 ← findEndOfRun less fuel a1b0 (listEnd list)
        inplaceMerge less fuel a0 a1b0 b1
        sortPass list steps b1 (outputRunCnt + 1)

def sortPasses (list : LList) : Nat → L PUnit
  | 0 => fault
  | steps + 1 => do
    let a0 ← listBegin list
    let outputRunCnt ← sortPass less fuel list fuel a0 0
    if outputRunCnt > 1 then sortPasses list steps else pure ⟨⟩

def listSort (list : LList) : L PUnit := do
  sortPasses less fuel list fuel
  let first ← listBegin list
  let sorted ← isSorted less fuel first (listEnd list)
  assert fun _ => sorted

def listInsertOrdered (list : LList) (elem : Elem) : L PUnit := do
  let e ← listBegin list
  let e ← insertLoop less list elem fuel e
  listInsert e elem

def listUnique (list : LList) (duplicates : Option LList) : L PUnit := do
  let empty ← listEmpty list
  if empty then pure ⟨⟩
  else do
    let elem ← listBegin list
    uniqueLoop less list duplicates fuel elem

def listBest (better : Elem → Elem → Bool) (list : LList) : L Elem := do
  let best ← listBegin list
  if best = listEnd list then pure best
  else do
    let e ← listNext best
    bestLoop better list fuel best e

def listMax (list : LList) : L Elem := listBest fuel less list

def listMin (list : LList) : L Elem := listBest fuel (fun a b => less b a) list

end Ordered

end Comp310.Fs
