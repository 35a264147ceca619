import Mathlib.Logic.Function.Basic
import Comp310.Lib.Headed
import Comp310.Lib.Wp

/-! The lists of the kernel (a3/linked_list.c). Nodes are allocated and never released; what
`malloc` leaves in one cannot be used. `equal` compares what the data points to, so it reads the
rest of memory. To follow a null pointer is a fault, and so are the end of the shell and a size
that is no `int`. -/

namespace Comp310.Kernel
open Comp310.Lib

/-- `LINKED_LIST`. -/
structure LinkedList (δ ε : Type) where
  size : Int
  dummyHead : Nat
  dummyTail : Nat
  equal : ε → δ → δ → Bool

/-- The nodes by their addresses, and the lists by theirs. No node from `fresh` on is allocated. -/
structure NodeHeap (δ ε : Type) where
  links : Links Nat
  data : Nat → Option δ
  lists : Nat → Option (LinkedList δ ε)
  fresh : Nat

abbrev N (δ ε : Type) := Prog (NodeHeap δ ε)

namespace LinkedList
variable {δ ε : Type}

def malloc : N δ ε Nat := fun heap => some (heap.fresh, { heap with fresh := heap.fresh + 1 })

def getList (list : Nat) : N δ ε (LinkedList δ ε) := fun heap => (heap.lists list).map fun fields => (fields, heap)

def putList (list : Nat) (fields : LinkedList δ ε) : N δ ε PUnit :=
  modify fun heap => { heap with lists := Function.update heap.lists list (some fields) }

/-- `node->next`, to be followed. -/
def nextOf (node : Nat) : N δ ε Nat := fun heap => (heap.links.next node).map fun target => (target, heap)

/-- `node->prev`, to be followed. -/
def prevOf (node : Nat) : N δ ε Nat := fun heap => (heap.links.prev node).map fun target => (target, heap)

def setNext (node : Nat) (target : Option Nat) : N δ ε PUnit := modify fun heap => { heap with links := heap.links.setNext node target }

def setPrev (node : Nat) (target : Option Nat) : N δ ε PUnit := modify fun heap => { heap with links := heap.links.setPrev node target }

def dataOf (node : Nat) : N δ ε δ := fun heap => (heap.data node).map fun data => (data, heap)

def setData (node : Nat) (data : δ) : N δ ε PUnit := modify fun heap => { heap with data := Function.update heap.data node (some data) }

def listInit (list : Nat) (equal : ε → δ → δ → Bool) : N δ ε PUnit := do
  let dummyHead ← malloc
  let dummyTail ← malloc
  setNext dummyTail none
  setNext dummyHead (some dummyTail)
  setPrev dummyTail (some dummyHead)
  putList list ⟨0, dummyHead, dummyTail, equal⟩

def listClear (list : Nat) : N δ ε PUnit := do
  let fields ← getList list
  putList list { fields with size := 0 }
  setNext fields.dummyHead (some fields.dummyTail)
  setPrev fields.dummyTail (some fields.dummyHead)

/-- `list->size++`. -/
def increment (list : Nat) (fields : LinkedList δ ε) : N δ ε PUnit :=
  if fields.size < 2147483647 then putList list { fields with size := fields.size + 1 } else fault

def addTail (data : δ) (list : Nat) : N δ ε Int := do
  let fields ← getList list
  let newNode ← malloc
  let oldTail ← prevOf fields.dummyTail
  setData newNode data
  setNext oldTail (some newNode)
  setPrev newNode (some oldTail)
  setNext newNode (some fields.dummyTail)
  setPrev fields.dummyTail (some newNode)
  increment list fields
  pure 0

def addHead (data : δ) (list : Nat) : N δ ε Int := do
  let fields ← getList list
  let newNode ← malloc
  let oldHead ← nextOf fields.dummyHead
  setData newNode data
  setPrev oldHead (some newNode)
  setNext newNode (some oldHead)
  setPrev newNode (some fields.dummyHead)
  setNext fields.dummyHead (some newNode)
  increment list fields
  pure 0

/-- The end of `pop_head`, `pop_tail` and `remove_elem`. -/
def unlink (list : Nat) (fields : LinkedList δ ε) (toBeDeleted : Nat) : N δ ε δ := do
  let prev ← prevOf toBeDeleted
  let next ← nextOf toBeDeleted
  setNext prev (some next)
  let next ← nextOf toBeDeleted
  let prev ← prevOf toBeDeleted
  setPrev next (some prev)
  putList list { fields with size := fields.size - 1 }
  dataOf toBeDeleted

/-- On an empty list the shell ends. -/
def popHead (list : Nat) : N δ ε δ := do
  let fields ← getList list
  if fields.size ≤ 0 then fault
  else do
    let toBeDeleted ← nextOf fields.dummyHead
    unlink list fields toBeDeleted

def popTail (list : Nat) : N δ ε δ := do
  let fields ← getList list
  if fields.size ≤ 0 then fault
  else do
    let toBeDeleted ← prevOf fields.dummyTail
    unlink list fields toBeDeleted

def skipNodes : Nat → Nat → N δ ε Nat
  | 0, curr => pure curr
  | index + 1, curr => do
    let curr ← nextOf curr
    skipNodes index curr

def getNodeByIndex (list : Nat) (index : Int) : N δ ε (Option Nat) := do
  let fields ← getList list
  if index ≥ fields.size ∨ index < 0 then pure none
  else do
    let curr ← nextOf fields.dummyHead
    let curr ← skipNodes index.toNat curr
    pure (some curr)

/-- The data of a node that may be a null pointer. -/
def dataAt : Option Nat → N δ ε δ
  | none => fault
  | some node => dataOf node

def getByIndex (list : Nat) (index : Int) : N δ ε δ := do
  let targetNode ← getNodeByIndex list index
  dataAt targetNode

def searchLoop (equal : δ → δ → Bool) (targetData : δ) : Nat → Option Nat → N δ ε (Option Nat)
  | 0, _ => fault
  | _ + 1, none => pure none
  | fuel + 1, some curr => do
    let data ← dataOf curr
    if equal targetData data then pure (some curr)
    else do
      let heap ← get
      searchLoop equal targetData fuel (heap.links.next curr)

def swap (node1 node2 : Nat) : N δ ε PUnit := do
  let tmp ← dataOf node1
  let other ← dataOf node2
  setData node1 other
  setData node2 tmp

/-- A walk with `has_next` and `next`, and the data that it meets. -/
def visitLoop : Nat → Nat → N δ ε (List δ)
  | 0, _ => fault
  | fuel + 1, curr => do
    let heap ← get
    match heap.links.next curr with
    | none => pure []
    | some next => do
      let data ← dataOf curr
      let rest ← visitLoop fuel next
      pure (data :: rest)

section Loops
variable (memory : ε) (fuel : Nat)

def getNodeByValue (list : Nat) (targetData : δ) : N δ ε (Option Nat) := do
  let fields ← getList list
  let curr ← nextOf fields.dummyHead
  searchLoop (fields.equal memory) targetData fuel (some curr)

def getByValue (list : Nat) (elem : δ) : N δ ε δ := do
  let targetNode ← getNodeByValue memory fuel list elem
  dataAt targetNode

def removeElem (dataToDel : δ) (list : Nat) : N δ ε δ := do
  let toBeDeleted ← getNodeByValue memory fuel list dataToDel
  match toBeDeleted with
  | none => fault
  | some toBeDeleted => do
    let fields ← getList list
    unlink list fields toBeDeleted

end Loops

/-- The walks of the kernel over its processes. -/
def visit (fuel : Nat) (list : Nat) : N δ ε (List δ) := do
  let fields ← getList list
  let curr ← nextOf fields.dummyHead
  visitLoop fuel curr

def listSize (list : Nat) : N δ ε Int := do
  let fields ← getList list
  pure fields.size

/-- The calls of linked_list.h that the kernel makes, and the walk over a list. -/
inductive NodeCall (δ ε : Type) where
  | listInit (list : Nat) (equal : ε → δ → δ → Bool)
  | listClear (list : Nat)
  | addTail (data : δ) (list : Nat)
  | addHead (data : δ) (list : Nat)
  | popHead (list : Nat)
  | popTail (list : Nat)
  | getByIndex (list : Nat) (index : Int)
  | getByValue (memory : ε) (list : Nat) (elem : δ)
  | removeElem (memory : ε) (dataToDel : δ) (list : Nat)
  | size (list : Nat)
  | visit (list : Nat)

inductive NodeReply (δ : Type) where
  | done
  | code (ret : Int)
  | data (data : δ)
  | count (size : Int)
  | all (data : List δ)

def NodeCall.run (fuel : Nat) : NodeCall δ ε → N δ ε (NodeReply δ)
  | listInit list equal => do
    LinkedList.listInit list equal
    pure .done
  | listClear list => do
    LinkedList.listClear list
    pure .done
  | addTail data list => .code <$> LinkedList.addTail data list
  | addHead data list => .code <$> LinkedList.addHead data list
  | popHead list => .data <$> LinkedList.popHead list
  | popTail list => .data <$> LinkedList.popTail list
  | getByIndex list index => .data <$> LinkedList.getByIndex list index
  | getByValue memory list elem => .data <$> LinkedList.getByValue memory fuel list elem
  | removeElem memory dataToDel list => .data <$> LinkedList.removeElem memory fuel dataToDel list
  | size list => .count <$> listSize list
  | visit list => .all <$> LinkedList.visit fuel list

def runCalls (fuel : Nat) : List (NodeCall δ ε) → N δ ε (List (NodeReply δ))
  | [] => pure []
  | call :: calls => do
    let reply ← call.run fuel
    let replies ← runCalls fuel calls
    pure (reply :: replies)

end LinkedList

end Comp310.Kernel
