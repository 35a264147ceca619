import Comp310.Kernel.ShellMemory

/-! Processes (a2/pcb.h) and the ready queue (a2/ready_queue.c), whose nodes are
linked. A loop is given fuel; without enough of it, and where a null pointer is
followed, there is no result. -/

namespace Comp310.A2
open Comp310.Kernel (CString)

/-- `PAGE`. -/
structure Page where
  start : Int
  endAt : Int
  loaded : Bool
  executed : Bool
  lastUsed : Int

/-- `PCB`. -/
structure Pcb where
  priority : Bool
  pid : Int
  pc : Int
  start : Int
  endAt : Int
  jobLengthScore : Int
  pt : Vector Page 30
  tempSize : Int
  fullSize : Int
  filename : CString

structure QueueNode where
  pcb : Pcb
  next : Option Nat

/-- The nodes by their addresses, and `head`. -/
structure ReadyQueue where
  head : Option Nat
  node : Nat → QueueNode

/-- `MAX_INT`. -/
def maxInt : Int := 2147483646

namespace ReadyQueue

def next (queue : ReadyQueue) (addr : Nat) : Option Nat := (queue.node addr).next

def pcb (queue : ReadyQueue) (addr : Nat) : Pcb := (queue.node addr).pcb

def setNext (queue : ReadyQueue) (addr : Nat) (target : Option Nat) : ReadyQueue :=
  { queue with node := fun other => if other = addr then { queue.node addr with next := target } else queue.node other }

def setPcb (queue : ReadyQueue) (addr : Nat) (pcb : Pcb) : ReadyQueue :=
  { queue with node := fun other => if other = addr then { queue.node addr with pcb } else queue.node other }

/-- The last node from `cur` on. -/
def lastFrom (queue : ReadyQueue) : Nat → Nat → Option Nat
  | 0, _ => none
  | fuel + 1, cur =>
    match queue.next cur with
    | none => some cur
    | some next => queue.lastFrom fuel next

def addToTail (fuel : Nat) (node : Nat) (queue : ReadyQueue) : Option ReadyQueue :=
  match queue.head with
  | none => some { queue.setNext node none with head := some node }
  | some head => (queue.lastFrom fuel head).map fun last => (queue.setNext last (some node)).setNext node none

def addToHead (node : Nat) (queue : ReadyQueue) : ReadyQueue :=
  match queue.head with
  | none => { queue.setNext node none with head := some node }
  | some head => { queue.setNext node (some head) with head := some node }

def isReadyEmpty (queue : ReadyQueue) : Bool := queue.head == none

def popHead (queue : ReadyQueue) : Option Nat × ReadyQueue :=
  match queue.head with
  | none => (none, queue)
  | some head => (some head, { queue with head := queue.next head })

def decrement (pcb : Pcb) : Pcb := if pcb.jobLengthScore > 0 then { pcb with jobLengthScore := pcb.jobLengthScore - 1 } else pcb

/-- The loop of `ready_queue_decrement_job_length_score`. -/
def decrementFrom : Nat → Option Nat → ReadyQueue → Option ReadyQueue
  | 0, _, _ => none
  | _ + 1, none, queue => some queue
  | fuel + 1, some cur, queue => decrementFrom fuel (queue.next cur) (queue.setPcb cur (decrement (queue.pcb cur)))

def decrementJobLengthScore (fuel : Nat) (queue : ReadyQueue) : Option ReadyQueue := decrementFrom fuel queue.head queue

/-- `cur` at the end of the loop that looks for the node before `toSwap`. -/
def previousFrom (queue : ReadyQueue) (toSwap : Nat) : Nat → Option Nat → Option (Option Nat)
  | 0, _ => none
  | _ + 1, none => some none
  | fuel + 1, some cur => if queue.next cur = some toSwap then some (some cur) else queue.previousFrom toSwap fuel (queue.next cur)

/-- The part of `ready_queue_swap_with_next` for the head, which the other part follows. -/
def swapHead (toSwap : Nat) (queue : ReadyQueue) : Option ReadyQueue :=
  if queue.head = some toSwap then
    match queue.next toSwap with
    | none => none
    | some next => some { (queue.setNext toSwap (queue.next next)).setNext next (some toSwap) with head := some next }
  else some queue

def swapBehind (toSwap : Nat) (cur : Option Nat) (queue : ReadyQueue) : Option ReadyQueue :=
  match cur with
  | none => some queue
  | some cur =>
    match queue.next toSwap with
    | none => none
    | some next => some (((queue.setNext cur (some next)).setNext next (some toSwap)).setNext toSwap (queue.next next))

def swapWithNext (fuel : Nat) (toSwap : Nat) (queue : ReadyQueue) : Option ReadyQueue := do
  let cur := queue.head
  let queue ← queue.swapHead toSwap
  let cur ← queue.previousFrom toSwap fuel cur
  queue.swapBehind toSwap cur

/-- The comparison of `swap_needed`: whether the first has to be behind the second. -/
def comesAfter (cur next : Pcb) : Bool :=
  if cur.priority && next.priority then cur.jobLengthScore > next.jobLengthScore
  else if cur.priority && !next.priority then false
  else if !cur.priority && next.priority then true
  else cur.jobLengthScore > next.jobLengthScore

def swapNeeded (queue : ReadyQueue) (cur : Nat) : Bool :=
  match queue.next cur with
  | none => false
  | some next => comesAfter (queue.pcb cur) (queue.pcb next)

/-- The inner loop of `sort_ready_queue`, with `sorted` and `cur`. -/
def sortInner : Nat → Bool → Nat → ReadyQueue → Option (Bool × Nat × ReadyQueue)
  | 0, _, _, _ => none
  | fuel + 1, sorted, cur, queue =>
    match queue.next cur with
    | none => some (sorted, cur, queue)
    | some next =>
      if queue.swapNeeded cur then (queue.swapWithNext fuel cur).bind fun queue => sortInner fuel false cur queue
      else sortInner fuel sorted next queue

/-- The outer loop: `cur` stays where the inner loop has left it. -/
def sortOuter : Nat → Nat → ReadyQueue → Option ReadyQueue
  | 0, _, _ => none
  | fuel + 1, cur, queue => (sortInner fuel true cur queue).bind fun result =>
    if result.1 then some result.2.2 else sortOuter fuel result.2.1 result.2.2

def sortReadyQueue (fuel : Nat) (queue : ReadyQueue) : Option ReadyQueue :=
  match queue.head with
  | none => some queue
  | some cur => sortOuter fuel cur queue

def popShortestJob (fuel : Nat) (queue : ReadyQueue) : Option (Option Nat × ReadyQueue) := (queue.sortReadyQueue fuel).map popHead

/-- The loop of `ready_queue_get_shortest_job_score`. -/
def shortestFrom (queue : ReadyQueue) : Nat → Int → Option Nat → Option Int
  | 0, _, _ => none
  | _ + 1, shortest, none => some shortest
  | fuel + 1, shortest, some cur =>
    queue.shortestFrom fuel (if (queue.pcb cur).jobLengthScore < shortest then (queue.pcb cur).jobLengthScore else shortest) (queue.next cur)

def getShortestJobScore (fuel : Nat) (queue : ReadyQueue) : Option Int := queue.shortestFrom fuel maxInt queue.head

/-- `cur` at the end of the loop that looks for the node before one with the score. -/
def scoreFrom (queue : ReadyQueue) (score : Int) : Nat → Nat → Option Nat
  | 0, _ => none
  | fuel + 1, cur =>
    match queue.next cur with
    | none => some cur
    | some next => if (queue.pcb next).jobLengthScore = score then some cur else queue.scoreFrom score fuel next

def promote (fuel : Nat) (score : Int) (queue : ReadyQueue) : Option ReadyQueue :=
  match queue.head with
  | none => none
  | some head =>
    if (queue.pcb head).jobLengthScore = score then some queue
    else (queue.scoreFrom score fuel head).map fun cur =>
      match queue.next cur with
      | none => queue
      | some next =>
        if (queue.pcb next).jobLengthScore ≠ score then queue
        else { (queue.setNext cur (queue.next next)).setNext next (some head) with head := some next }

end ReadyQueue

end Comp310.A2
