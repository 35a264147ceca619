import Comp310.Fs.ListLoops

/-! The calls of list.h, and what the short ones do. -/

namespace Comp310.Fs
open Comp310.Lib

inductive ListCall where
  | init (list : LList)
  | begin (list : LList)
  | rbegin (list : LList)
  | next (elem : Elem)
  | prev (elem : Elem)
  | insert (before elem : Elem)
  | splice (before first last : Elem)
  | pushFront (list : LList) (elem : Elem)
  | pushBack (list : LList) (elem : Elem)
  | remove (elem : Elem)
  | popFront (list : LList)
  | popBack (list : LList)
  | front (list : LList)
  | back (list : LList)
  | size (list : LList)
  | empty (list : LList)
  | reverse (list : LList)
  | sort (list : LList)
  | insertOrdered (list : LList) (elem : Elem)
  | unique (list : LList) (duplicates : Option LList)
  | max (list : LList)
  | min (list : LList)

/-- What it returns. -/
inductive ListReply where
  | done
  | elem (elem : Elem)
  | count (cnt : Nat)
  | truth (answer : Bool)
  deriving DecidableEq

def listRbegin (list : LList) : L Elem := getPrev list.tail

def ListCall.run (less : Elem → Elem → Bool) (fuel : Nat) : ListCall → L ListReply
  | init list => do
    llistInit list
    pure .done
  | begin list => .elem <$> listBegin list
  | rbegin list => .elem <$> listRbegin list
  | next elem => .elem <$> listNext elem
  | prev elem => .elem <$> listPrev elem
  | insert before elem => do
    listInsert before elem
    pure .done
  | splice before first last => do
    listSplice before first last
    pure .done
  | pushFront list elem => do
    listPushFront list elem
    pure .done
  | pushBack list elem => do
    listPushBack list elem
    pure .done
  | remove elem => .elem <$> listRemove elem
  | popFront list => .elem <$> listPopFront list
  | popBack list => .elem <$> listPopBack list
  | front list => .elem <$> listFront list
  | back list => .elem <$> listBack list
  | size list => .count <$> listSize fuel list
  | empty list => .truth <$> listEmpty list
  | reverse list => do
    listReverse fuel list
    pure .done
  | sort list => do
    listSort less fuel list
    pure .done
  | insertOrdered list elem => do
    listInsertOrdered less fuel list elem
    pure .done
  | unique list duplicates => do
    listUnique less fuel list duplicates
    pure .done
  | max list => .elem <$> listMax less fuel list
  | min list => .elem <$> listMin less fuel list

def runCalls (fuel : Nat) : List ((Elem → Elem → Bool) × ListCall) → L (List ListReply)
  | [] => pure []
  | (less, call) :: calls => do
    let reply ← call.run less fuel
    let replies ← runCalls fuel calls
    pure (reply :: replies)

variable {heap : ListHeap} {list : LList} {lists rest : Lists} {loose : List (List Elem)} {cells xs ys : List Elem} {x y e : Elem}
  {less : Elem → Elem → Bool} {fuel : Nat}

theorem Hold.single (hold : Hold heap lists []) (free : ∀ entry ∈ lists, e ∉ entry.1.nodes entry.2) : Hold heap lists [[e]] :=
  ⟨hold.toHeaded.single free (List.not_mem_nil), hold.quiet⟩

theorem llistInit_wp (hold : Hold heap lists []) (differs : list.head ≠ list.tail)
    (free : ∀ entry ∈ lists, list.head ∉ entry.1.nodes entry.2 ∧ list.tail ∉ entry.1.nodes entry.2) :
    Wp (llistInit list) (fun _ heap' => Hold heap' ((list, []) :: lists) []) heap := by
  obtain ⟨links, panics⟩ := heap
  have outside (elem : Elem) (apart : ∀ entry ∈ lists, elem ∉ entry.1.nodes entry.2) :
      elem ∉ (lists.map fun entry => entry.1.nodes entry.2).flatten ++ [].flatten := by
    rw [List.flatten_nil, List.append_nil]
    intro member
    obtain ⟨piece, listed, inside⟩ := List.mem_flatten.mp member
    obtain ⟨entry, there, rfl⟩ := List.mem_map.mp listed
    exact apart entry there inside
  have headFree := outside list.head fun entry member => (free entry member).1
  have tailFree := outside list.tail fun entry member => (free entry member).2
  have blank : Headed (links.setPrev list.head none) lists [] := by
    refine ⟨?_, fun other member => ?_, hold.back⟩
    · rw [List.flatten_nil, List.append_nil] at headFree
      rw [List.append_nil]
      have pieces := hold.pieces
      rw [List.append_nil] at pieces
      exact pieces.setPrev headFree none
    · have kept := hold.front other member
      change (if other.head = list.head then none else links.prev other.head) = none
      split
      · rfl
      · exact kept
  have init := blank.init differs (if_pos rfl) headFree tailFree
  have ran : llistInit list ⟨links, panics⟩ =
      some (⟨⟩, ⟨((links.setPrev list.head none).setNext list.tail none).join list.head list.tail, panics⟩) := by
    rw [Links.join, setNext_comm _ differs.symm]
    rfl
  exact .of_eq ran ⟨init, hold.quiet⟩

theorem listRbegin_run (hold : Hold heap ((list, cells) :: rest) loose) : listRbegin list heap = some (list.before cells, heap) :=
  getPrev_run hold.prev_tail

theorem listPushFront_wp (hold : Hold heap ((list, cells) :: rest) ([e] :: loose)) :
    Wp (listPushFront list e) (fun _ heap' => Hold heap' ((list, e :: cells) :: rest) loose) heap := by
  have whole : Hold heap ((list, [] ++ cells) :: rest) ([e] :: loose) := hold
  rw [listPushFront, wp_bind]
  exact .of_eq hold.listBegin_run (listInsert_wp whole)

theorem listFront_run (hold : Hold heap ((list, x :: ys) :: rest) loose) : listFront list heap = some (x, heap) := by
  rw [listFront, run_bind hold.listEmpty_run, run_bind (assert_run rfl), getNext_run hold.next_head, at_cons]

theorem listBack_run (hold : Hold heap ((list, xs ++ [x]) :: rest) loose) : listBack list heap = some (x, heap) := by
  have filled : (!(xs ++ [x]).isEmpty) = true := by
    cases xs <;> rfl
  rw [listBack, run_bind hold.listEmpty_run, run_bind (assert_run filled), getPrev_run hold.prev_tail, before_concat]

theorem listPopFront_wp (hold : Hold heap ((list, x :: ys) :: rest) loose) :
    Wp (listPopFront list) (fun elem heap' => elem = x ∧ Hold heap' ((list, ys) :: rest) ([x] :: loose)) heap := by
  have whole : Hold heap ((list, [] ++ x :: ys) :: rest) loose := hold
  rw [listPopFront, wp_bind]
  refine .of_eq (listFront_run hold) ?_
  rw [wp_bind]
  refine (listRemove_wp whole).mono ?_
  rintro _ after ⟨-, held⟩
  exact (wp_pure _).mpr ⟨rfl, held⟩

theorem listPopBack_wp (hold : Hold heap ((list, xs ++ [x]) :: rest) loose) :
    Wp (listPopBack list) (fun elem heap' => elem = x ∧ Hold heap' ((list, xs) :: rest) ([x] :: loose)) heap := by
  rw [listPopBack, wp_bind]
  refine .of_eq (listBack_run hold) ?_
  rw [wp_bind]
  refine (listRemove_wp hold).mono ?_
  rintro _ after ⟨-, held⟩
  rw [List.append_nil] at held
  exact (wp_pure _).mpr ⟨rfl, held⟩

theorem listSplice_none (hold : Hold heap ((list, xs ++ ys) :: rest) loose) : listSplice (list.at ys) e e heap = some (⟨⟩, heap) := by
  have holds : (heap.isInterior (list.at ys) || heap.isTail (list.at ys)) = true := by
    rw [ListHeap.isInterior, ListHeap.isTail, hold.prev]
    cases heap.links.next (list.at ys) <;> rfl
  rw [listSplice, run_bind (assert_run holds), if_pos rfl]
  rfl

theorem listUnique_none (duplicates : Option LList) (hold : Hold heap ((list, []) :: rest) loose) :
    listUnique less fuel list duplicates heap = some (⟨⟩, heap) := by
  rw [listUnique, run_bind hold.listEmpty_run, List.isEmpty_nil, if_pos rfl]
  rfl

theorem FirstBest.unique {better : Elem → Elem → Bool} (first : FirstBest better cells x) (second : FirstBest better cells y) : x = y := by
  obtain ⟨front, back, rfl, worse, notBetter⟩ := first
  obtain ⟨front', back', same, worse', notBetter'⟩ := second
  rcases List.append_eq_append_iff.mp same with ⟨middle, rfl, split⟩ | ⟨middle, rfl, split⟩
  · cases middle with
    | nil => exact (List.cons.inj split).1
    | cons z middle =>
      obtain ⟨rfl, rfl⟩ := List.cons.inj split
      have later := notBetter y (List.mem_append_right _ List.mem_cons_self)
      rw [worse' x (List.mem_append_right _ List.mem_cons_self)] at later
      cases later
  · cases middle with
    | nil => exact (List.cons.inj split).1.symm
    | cons z middle =>
      obtain ⟨rfl, rfl⟩ := List.cons.inj split
      have later := notBetter' x (List.mem_append_right _ List.mem_cons_self)
      rw [worse y (List.mem_append_right _ List.mem_cons_self)] at later
      cases later

end Comp310.Fs
