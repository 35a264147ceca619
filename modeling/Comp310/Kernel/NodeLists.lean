import Comp310.Kernel.LinkedList

/-! What the calls of linked_list.c do to the lists that the nodes hold. -/

namespace Comp310.Kernel.LinkedList
open Comp310.Lib

variable {δ ε : Type}

/-- A list with its nodes, each with its data. -/
structure Row (δ ε : Type) where
  list : Nat
  ends : Ends Nat
  equal : ε → δ → δ → Bool
  nodes : List (Nat × δ)

def Row.entry (row : Row δ ε) : Ends Nat × List Nat := (row.ends, row.nodes.map (·.1))

def Row.with (row : Row δ ε) (nodes : List (Nat × δ)) : Row δ ε := { row with nodes }

def Row.fields (row : Row δ ε) : LinkedList δ ε := ⟨row.nodes.length, row.ends.head, row.ends.tail, row.equal⟩

structure Table (heap : NodeHeap δ ε) (rows : List (Row δ ε)) : Prop where
  headed : Headed heap.links (rows.map Row.entry) []
  fields : ∀ row ∈ rows, heap.lists row.list = some row.fields
  data : ∀ row ∈ rows, ∀ node ∈ row.nodes, heap.data node.1 = some node.2
  names : (rows.map Row.list).Nodup
  below : ∀ row ∈ rows, ∀ node ∈ row.ends.nodes (row.nodes.map (·.1)), node < heap.fresh
  blank : ∀ node, heap.fresh ≤ node → heap.links.prev node = none

variable {heap : NodeHeap δ ε} {row : Row δ ε} {rows rows' : List (Row δ ε)} {nodes front back : List (Nat × δ)} {node : Nat × δ}
  {links : Links Nat} {data : Nat → Option δ} {lists : Nat → Option (LinkedList δ ε)} {fresh list fuel : Nat} {fields : LinkedList δ ε}
  {x target : δ} {memory : ε}

namespace Table

theorem perm (table : Table heap rows) (same : rows.Perm rows') : Table heap rows' := by
  refine ⟨table.headed.perm (same.map _), fun row member => ?_, fun row member => ?_, ((same.map _).nodup_iff).mp table.names,
    fun row member => ?_, table.blank⟩
  · exact table.fields row (same.mem_iff.mpr member)
  · exact table.data row (same.mem_iff.mpr member)
  · exact table.below row (same.mem_iff.mpr member)

theorem rebuild (table : Table heap (row :: rows)) (headed : Headed links ((row.with nodes :: rows).map Row.entry) [])
    (mine : ∀ node ∈ nodes, data node.1 = some node.2) (others : ∀ cell < heap.fresh, data cell = heap.data cell)
    (grows : heap.fresh ≤ fresh) (below : ∀ node ∈ nodes, node.1 < fresh) (blank : ∀ cell, fresh ≤ cell → links.prev cell = none) :
    Table ⟨links, data, Function.update heap.lists row.list (some (row.with nodes).fields), fresh⟩ (row.with nodes :: rows) := by
  obtain ⟨absent, nodup⟩ := List.nodup_cons.mp table.names
  have cell_below (other : Row δ ε) (member : other ∈ row :: rows) (node : Nat × δ) (inside : node ∈ other.nodes) : node.1 < heap.fresh :=
    table.below other member node.1 (List.mem_cons_of_mem _ (List.mem_append_left _ (List.mem_map_of_mem inside)))
  refine ⟨headed, fun other member => ?_, fun other member => ?_, table.names, fun other member cell inside => ?_, blank⟩
  · rcases List.mem_cons.mp member with rfl | member
    · exact Function.update_self ..
    · refine (Function.update_of_ne ?_ ..).trans (table.fields other (List.mem_cons_of_mem _ member))
      intro same
      exact absent (same ▸ List.mem_map_of_mem member)
  · rcases List.mem_cons.mp member with rfl | member
    · exact mine
    · intro node inside
      refine (others node.1 (cell_below other (List.mem_cons_of_mem _ member) node inside)).trans ?_
      exact table.data other (List.mem_cons_of_mem _ member) node inside
  · rcases List.mem_cons.mp member with rfl | member
    · rcases List.mem_cons.mp inside with rfl | inside
      · exact Nat.lt_of_lt_of_le (table.below row List.mem_cons_self _ (head_mem _ _)) grows
      · rcases List.mem_append.mp inside with inside | inside
        · obtain ⟨node, there, rfl⟩ := List.mem_map.mp inside
          exact below node there
        · cases List.mem_singleton.mp inside
          exact Nat.lt_of_lt_of_le (table.below row List.mem_cons_self _ (tail_mem _ _)) grows
    · exact Nat.lt_of_lt_of_le (table.below other (List.mem_cons_of_mem _ member) cell inside) grows

theorem single (table : Table heap rows) : Headed heap.links (rows.map Row.entry) [[heap.fresh]] := by
  refine table.headed.single (fun entry listed inside => ?_) List.not_mem_nil
  obtain ⟨row, member, rfl⟩ := List.mem_map.mp listed
  exact Nat.lt_irrefl _ (table.below row member _ inside)

theorem fresh_ne (table : Table heap rows) (member : row ∈ rows) {cell : Nat} (inside : cell ∈ row.ends.nodes (row.nodes.map (·.1))) :
    heap.fresh ≠ cell := Nat.ne_of_gt (table.below row member cell inside)

theorem prev_tail (table : Table heap (row :: rows)) : heap.links.prev row.ends.tail = some (row.ends.before (row.nodes.map (·.1))) := by
  have headed := table.headed
  rw [List.map_cons, Row.entry, ← List.append_nil (row.nodes.map (·.1))] at headed
  have prev : heap.links.prev (row.ends.at []) = _ := headed.prev
  exact prev

theorem next_head (table : Table heap (row :: rows)) : heap.links.next row.ends.head = some (row.ends.at (row.nodes.map (·.1))) := by
  have headed := table.headed
  rw [List.map_cons, Row.entry, ← List.nil_append (row.nodes.map (·.1))] at headed
  have next : heap.links.next (row.ends.before []) = _ := headed.next
  exact next

end Table

section Runs

theorem getList_run (held : lists list = some fields) : getList list ⟨links, data, lists, fresh⟩ = some (fields, ⟨links, data, lists, fresh⟩) := by
  rw [getList]
  exact congrArg (Option.map _) held

theorem nextOf_run {a b : Nat} (link : links.next a = some b) : nextOf a ⟨links, data, lists, fresh⟩ = some (b, ⟨links, data, lists, fresh⟩) := by
  rw [nextOf, link, Option.map_some]

theorem prevOf_run {a b : Nat} (link : links.prev b = some a) : prevOf b ⟨links, data, lists, fresh⟩ = some (a, ⟨links, data, lists, fresh⟩) := by
  rw [prevOf, link, Option.map_some]

theorem dataOf_run {a : Nat} (stored : data a = some x) : dataOf a ⟨links, data, lists, fresh⟩ = some (x, ⟨links, data, lists, fresh⟩) := by
  rw [dataOf]
  exact congrArg (Option.map _) stored

theorem malloc_run : malloc ⟨links, data, lists, fresh⟩ = some (fresh, ⟨links, data, lists, fresh + 1⟩) := rfl

theorem putList_run : putList list fields ⟨links, data, lists, fresh⟩ = some (⟨⟩, ⟨links, data, Function.update lists list (some fields), fresh⟩) := rfl

theorem setNext_run (a : Nat) (b : Option Nat) : setNext a b ⟨links, data, lists, fresh⟩ = some (⟨⟩, ⟨links.setNext a b, data, lists, fresh⟩) := rfl

theorem setPrev_run (a : Nat) (b : Option Nat) : setPrev a b ⟨links, data, lists, fresh⟩ = some (⟨⟩, ⟨links.setPrev a b, data, lists, fresh⟩) := rfl

theorem setData_run (a : Nat) : setData a x ⟨links, data, lists, fresh⟩ = some (⟨⟩, ⟨links, Function.update data a (some x), lists, fresh⟩) := rfl

end Runs

section Adding

theorem Table.insert (table : Table ⟨links, data, lists, fresh⟩ (row :: rows)) (split : row.nodes = front ++ back) :
    Table ⟨(links.join (row.ends.before (front.map (·.1))) fresh).join fresh (row.ends.at (back.map (·.1))),
      Function.update data fresh (some x), Function.update lists row.list (some (row.with (front ++ (fresh, x) :: back)).fields), fresh + 1⟩
      (row.with (front ++ (fresh, x) :: back) :: rows) := by
  have single := table.single
  rw [List.map_cons, Row.entry, split, List.map_append] at single
  have headed := single.putIn rfl rfl
  have below (node : Nat × δ) (inside : node ∈ row.nodes) : node.1 < fresh :=
    table.below row List.mem_cons_self node.1 (List.mem_cons_of_mem _ (List.mem_append_left _ (List.mem_map_of_mem inside)))
  refine table.rebuild ?_ (fun node inside => ?_) (fun cell inside => Function.update_of_ne (Nat.ne_of_lt inside) ..) (Nat.le_succ fresh)
    (fun node inside => ?_) fun cell beyond => ?_
  · rw [List.map_cons, Row.entry, Row.with, List.map_append, List.map_cons]
    exact headed
  · rw [List.mem_append, List.mem_cons, or_left_comm, ← List.mem_append, ← split] at inside
    rcases inside with rfl | inside
    · exact Function.update_self ..
    · exact (Function.update_of_ne (Nat.ne_of_lt (below node inside)) ..).trans (table.data row List.mem_cons_self node inside)
  · rw [List.mem_append, List.mem_cons, or_left_comm, ← List.mem_append, ← split] at inside
    rcases inside with rfl | inside
    · exact Nat.lt_succ_self fresh
    · exact Nat.lt_succ_of_lt (below node inside)
  · have place := at_mem row.ends (front.map (·.1)) (back.map (·.1))
    rw [← List.map_append, ← split] at place
    have differs : cell ≠ row.ends.at (back.map (·.1)) :=
      Nat.ne_of_gt (Nat.lt_of_lt_of_le (Nat.lt_succ_of_lt (table.below row List.mem_cons_self _ place)) beyond)
    refine (relink_other differs).trans ((relink_other (Nat.ne_of_gt beyond)).trans (table.blank cell (Nat.le_of_succ_le beyond)))

theorem increment_run (room : row.nodes.length < 2147483647) {heap : NodeHeap δ ε} : increment row.list row.fields heap =
    some (⟨⟩, { heap with lists := Function.update heap.lists row.list (some { row.fields with size := row.fields.size + 1 }) }) := by
  have small : row.fields.size < 2147483647 := Int.ofNat_lt.mpr room
  rw [increment, if_pos small]
  rfl

theorem addTail_wp (x : δ) (table : Table heap (row :: rows)) (room : row.nodes.length < 2147483647) :
    Wp (addTail x row.list) (fun ret heap' => ret = 0 ∧ ∃ node, Table heap' (row.with (row.nodes ++ [(node, x)]) :: rows)) heap := by
  obtain ⟨links, data, lists, fresh⟩ := heap
  have held : lists row.list = some row.fields := table.fields row List.mem_cons_self
  have place : links.prev row.fields.dummyTail = _ := table.prev_tail
  have insert := table.insert (x := x) (List.append_nil row.nodes).symm
  have size : row.fields.size + 1 = ((row.nodes ++ [(fresh, x)]).length : Int) := by
    rw [List.length_append]
    rfl
  refine .of_eq ?_ ⟨rfl, fresh, insert⟩
  rw [addTail, run_bind (getList_run held), run_bind malloc_run, run_bind (prevOf_run place), run_bind (setData_run _),
    run_bind (setNext_run _ _), run_bind (setPrev_run _ _), run_bind (setNext_run _ _), run_bind (setPrev_run _ _), run_bind (increment_run room), size]
  rfl

theorem addHead_wp (x : δ) (table : Table heap (row :: rows)) (room : row.nodes.length < 2147483647) :
    Wp (addHead x row.list) (fun ret heap' => ret = 0 ∧ ∃ node, Table heap' (row.with ((node, x) :: row.nodes) :: rows)) heap := by
  obtain ⟨links, data, lists, fresh⟩ := heap
  have held : lists row.list = some row.fields := table.fields row List.mem_cons_self
  have place : links.next row.fields.dummyHead = _ := table.next_head
  have insert := table.insert (x := x) (List.nil_append row.nodes).symm
  have headNe : fresh ≠ row.ends.head := table.fresh_ne List.mem_cons_self (head_mem _ _)
  have firstNe : fresh ≠ row.ends.at (row.nodes.map (·.1)) := table.fresh_ne List.mem_cons_self (at_mem _ [] _)
  generalize row.ends.at (row.nodes.map (·.1)) = oldHead at place insert firstNe
  -- the same four writes, those to one side first
  have same : ((((links.setPrev oldHead (some fresh)).setNext fresh (some oldHead)).setPrev fresh (some row.ends.head)).setNext
      row.ends.head (some fresh)) = (links.join row.ends.head fresh).join fresh oldHead :=
    (congrArg (fun links : Links Nat => (links.setPrev oldHead (some fresh)).setPrev fresh (some row.ends.head)) (setNext_comm links headNe)).trans
      (setPrev_comm _ firstNe.symm)
  refine .of_eq ?_ ⟨rfl, fresh, insert⟩
  rw [addHead, run_bind (getList_run held), run_bind malloc_run, run_bind (nextOf_run place), run_bind (setData_run _),
    run_bind (setPrev_run _ _), run_bind (setNext_run _ _), run_bind (setPrev_run _ _), run_bind (setNext_run _ _), run_bind (increment_run room)]
  change some (_, NodeHeap.mk ((((links.setPrev oldHead (some fresh)).setNext fresh (some oldHead)).setPrev fresh (some row.ends.head)).setNext
    row.ends.head (some fresh)) _ _ _) = _
  rw [same]
  rfl

end Adding

section Removing

theorem unlink_wp (table : Table heap (row :: rows)) (split : row.nodes = front ++ node :: back) :
    Wp (unlink row.list row.fields node.1) (fun data heap' => data = node.2 ∧ Table heap' (row.with (front ++ back) :: rows)) heap := by
  obtain ⟨links, data, lists, fresh⟩ := heap
  have headed : Headed links ((row.ends, front.map (·.1) ++ ([node.1] ++ back.map (·.1))) :: rows.map Row.entry) [] := by
    have headed := table.headed
    rwa [List.map_cons, Row.entry, split, List.map_append, List.map_cons] at headed
  have out := headed.takeOut
  have apart := out.loose_apart List.mem_cons_self _ List.mem_cons_self
  have prev : links.prev node.1 = some (row.ends.before (front.map (·.1))) := headed.prev
  have next : links.next node.1 = some (row.ends.at (back.map (·.1))) := by
    rw [← List.append_assoc] at headed
    rw [← before_concat row.ends (front.map (·.1)) node.1]
    exact headed.next
  have differs : node.1 ≠ row.ends.before (front.map (·.1)) := fun same => apart (same ▸ before_mem _ _ _)
  have next' : (links.setNext (row.ends.before (front.map (·.1))) (some (row.ends.at (back.map (·.1))))).next node.1 = _ :=
    (relink_other differs).trans next
  have prev' : (links.setNext (row.ends.before (front.map (·.1))) (some (row.ends.at (back.map (·.1))))).prev node.1 = _ := prev
  have within (other : Nat × δ) (inside : other ∈ front ++ back) : other ∈ row.nodes := by
    rw [split, List.mem_append, List.mem_cons]
    exact (List.mem_append.mp inside).imp_right .inr
  have cell_below (other : Nat × δ) (inside : other ∈ row.nodes) : other.1 < fresh :=
    table.below row List.mem_cons_self other.1 (List.mem_cons_of_mem _ (List.mem_append_left _ (List.mem_map_of_mem inside)))
  have stored : data node.1 = some node.2 := by
    refine table.data row List.mem_cons_self node ?_
    rw [split]
    exact List.mem_append_right _ List.mem_cons_self
  have size : row.fields.size - 1 = ((front ++ back).length : Int) := by
    change (row.nodes.length : Int) - 1 = _
    rw [split, List.length_append, List.length_append, List.length_cons]
    omega
  have built : Table ⟨links.join (row.ends.before (front.map (·.1))) (row.ends.at (back.map (·.1))), data,
      Function.update lists row.list (some (row.with (front ++ back)).fields), fresh⟩ (row.with (front ++ back) :: rows) := by
    refine table.rebuild ?_ (fun other inside => table.data row List.mem_cons_self other (within other inside)) (fun _ _ => rfl) (Nat.le_refl _)
      (fun other inside => cell_below other (within other inside)) fun cell beyond => ?_
    · rw [List.map_cons, Row.entry, Row.with, List.map_append]
      exact out.forget
    · have place := at_mem row.ends (front.map (·.1) ++ [node.1]) (back.map (·.1))
      rw [List.append_assoc, List.singleton_append, ← List.map_cons, ← List.map_append, ← split] at place
      exact (relink_other (Nat.ne_of_gt (Nat.lt_of_lt_of_le (table.below row List.mem_cons_self _ place) beyond))).trans (table.blank cell beyond)
  refine .of_eq ?_ ⟨rfl, built⟩
  rw [unlink, run_bind (prevOf_run prev), run_bind (nextOf_run next), run_bind (setNext_run _ _), run_bind (nextOf_run next'),
    run_bind (prevOf_run prev'), run_bind (setPrev_run _ _), run_bind putList_run, dataOf_run stored, size]
  rfl

theorem popHead_wp (table : Table heap (row :: rows)) (split : row.nodes = node :: back) :
    Wp (popHead row.list) (fun data heap' => data = node.2 ∧ Table heap' (row.with back :: rows)) heap := by
  have taken := unlink_wp table (show row.nodes = [] ++ node :: back from split)
  obtain ⟨links, data, lists, fresh⟩ := heap
  have held : lists row.list = some row.fields := table.fields row List.mem_cons_self
  have place : links.next row.fields.dummyHead = some node.1 := by
    refine table.next_head.trans ?_
    rw [split]
    rfl
  have filled : ¬ row.fields.size ≤ 0 := by
    change ¬ (row.nodes.length : Int) ≤ 0
    rw [split, List.length_cons]
    omega
  rw [popHead, wp_bind]
  refine .of_eq (getList_run held) ?_
  rw [if_neg filled, wp_bind]
  exact .of_eq (nextOf_run place) taken

theorem popTail_wp (table : Table heap (row :: rows)) (split : row.nodes = front ++ [node]) :
    Wp (popTail row.list) (fun data heap' => data = node.2 ∧ Table heap' (row.with front :: rows)) heap := by
  have taken := unlink_wp table split
  rw [List.append_nil] at taken
  obtain ⟨links, data, lists, fresh⟩ := heap
  have held : lists row.list = some row.fields := table.fields row List.mem_cons_self
  have place : links.prev row.fields.dummyTail = some node.1 := by
    refine table.prev_tail.trans ?_
    rw [split, List.map_append, List.map_singleton, before_concat]
  have filled : ¬ row.fields.size ≤ 0 := by
    change ¬ (row.nodes.length : Int) ≤ 0
    rw [split, List.length_append, List.length_singleton]
    omega
  rw [popTail, wp_bind]
  refine .of_eq (getList_run held) ?_
  rw [if_neg filled, wp_bind]
  exact .of_eq (prevOf_run place) taken

end Removing

section Walking

theorem Table.getList_run (table : Table heap (row :: rows)) : getList row.list heap = some (row.fields, heap) :=
  LinkedList.getList_run (table.fields row List.mem_cons_self)

theorem Table.first_run (table : Table heap (row :: rows)) :
    nextOf row.fields.dummyHead heap = some (row.ends.at (row.nodes.map (·.1)), heap) := nextOf_run table.next_head

theorem Table.next_node (table : Table heap (row :: rows)) (split : row.nodes = front ++ node :: back) :
    heap.links.next node.1 = some (row.ends.at (back.map (·.1))) := by
  have headed := table.headed
  rw [List.map_cons, Row.entry, split, List.map_append, List.map_cons, List.append_cons] at headed
  rw [← before_concat row.ends (front.map (·.1)) node.1]
  exact headed.next

theorem searchLoop_run {equal : δ → δ → Bool} {skipped : List (Nat × δ)} (table : Table heap (row :: rows))
    (split : row.nodes = skipped ++ (front ++ node :: back)) (others : ∀ other ∈ front, equal target other.2 = false)
    (found : equal target node.2 = true) (enough : front.length < fuel) :
    searchLoop equal target fuel (some (row.ends.at ((front ++ node :: back).map (·.1)))) heap = some (some node.1, heap) := by
  induction front generalizing skipped fuel with
  | nil =>
    obtain ⟨fuel, rfl⟩ := Nat.exists_eq_succ_of_ne_zero (Nat.ne_of_gt enough)
    have stored : heap.data node.1 = some node.2 :=
      table.data row List.mem_cons_self node (split ▸ List.mem_append_right _ List.mem_cons_self)
    rw [List.nil_append, List.map_cons, at_cons, searchLoop, run_bind (dataOf_run stored), if_pos found]
    rfl
  | cons other front ih =>
    obtain ⟨fuel, rfl⟩ := Nat.exists_eq_succ_of_ne_zero (Nat.ne_of_gt (Nat.zero_lt_of_lt enough))
    have stored : heap.data other.1 = some other.2 :=
      table.data row List.mem_cons_self other (split ▸ List.mem_append_right _ List.mem_cons_self)
    have different : ¬ equal target other.2 = true := by
      rw [others other List.mem_cons_self]
      exact Bool.false_ne_true
    rw [List.cons_append, List.map_cons, at_cons, searchLoop, run_bind (dataOf_run stored), if_neg different]
    change searchLoop equal target fuel (heap.links.next other.1) heap = _
    rw [table.next_node split]
    have split' : row.nodes = (skipped ++ [other]) ++ (front ++ node :: back) := by
      rw [split, List.append_assoc]
      rfl
    exact ih split' (fun later member => others later (List.mem_cons_of_mem _ member)) (Nat.lt_of_succ_lt_succ enough)

theorem getNodeByValue_run (table : Table heap (row :: rows)) (split : row.nodes = front ++ node :: back)
    (others : ∀ other ∈ front, row.equal memory target other.2 = false) (found : row.equal memory target node.2 = true)
    (enough : front.length < fuel) : getNodeByValue memory fuel row.list target heap = some (some node.1, heap) := by
  have search := searchLoop_run table (show row.nodes = [] ++ (front ++ node :: back) from split) others found enough
  rw [← split] at search
  rw [getNodeByValue, run_bind table.getList_run, run_bind table.first_run]
  exact search

theorem removeElem_wp (table : Table heap (row :: rows)) (split : row.nodes = front ++ node :: back)
    (others : ∀ other ∈ front, row.equal memory target other.2 = false) (found : row.equal memory target node.2 = true)
    (enough : front.length < fuel) :
    Wp (removeElem memory fuel target row.list) (fun data heap' => data = node.2 ∧ Table heap' (row.with (front ++ back) :: rows)) heap := by
  rw [removeElem, wp_bind]
  refine .of_eq (getNodeByValue_run table split others found enough) ?_
  dsimp only
  rw [wp_bind]
  exact .of_eq table.getList_run (unlink_wp table split)

theorem getByValue_run (table : Table heap (row :: rows)) (split : row.nodes = front ++ node :: back)
    (others : ∀ other ∈ front, row.equal memory target other.2 = false) (found : row.equal memory target node.2 = true)
    (enough : front.length < fuel) : getByValue memory fuel row.list target heap = some (node.2, heap) := by
  have stored : heap.data node.1 = some node.2 :=
    table.data row List.mem_cons_self node (split ▸ List.mem_append_right _ List.mem_cons_self)
  rw [getByValue, run_bind (getNodeByValue_run table split others found enough), dataAt, dataOf_run stored]

theorem skipNodes_run {skipped : List (Nat × δ)} (table : Table heap (row :: rows)) (split : row.nodes = skipped ++ (front ++ node :: back)) :
    skipNodes front.length (row.ends.at ((front ++ node :: back).map (·.1))) heap = some (node.1, heap) := by
  induction front generalizing skipped with
  | nil => rfl
  | cons other front ih =>
    rw [List.length_cons, skipNodes, List.cons_append, List.map_cons, at_cons, run_bind (nextOf_run (table.next_node split))]
    have split' : row.nodes = (skipped ++ [other]) ++ (front ++ node :: back) := by
      rw [split, List.append_assoc]
      rfl
    exact ih split'

theorem getByIndex_run (table : Table heap (row :: rows)) (split : row.nodes = front ++ node :: back) :
    getByIndex row.list front.length heap = some (node.2, heap) := by
  have stored : heap.data node.1 = some node.2 :=
    table.data row List.mem_cons_self node (split ▸ List.mem_append_right _ List.mem_cons_self)
  have skip := skipNodes_run table (show row.nodes = [] ++ (front ++ node :: back) from split)
  rw [← split] at skip
  have valid : ¬ ((front.length : Int) ≥ row.fields.size ∨ (front.length : Int) < 0) := by
    change ¬ ((front.length : Int) ≥ row.nodes.length ∨ _)
    rw [split, List.length_append, List.length_cons]
    omega
  rw [getByIndex, getNodeByIndex, bind_assoc, run_bind table.getList_run, if_neg valid, bind_assoc, run_bind table.first_run, bind_assoc,
    Int.toNat_natCast, run_bind skip]
  exact dataOf_run stored

theorem visitLoop_none (fuel : Nat) {curr : Nat} (last : heap.links.next curr = none) : visitLoop (fuel + 1) curr heap = some ([], heap) := by
  have start : (get : N δ ε (NodeHeap δ ε)) heap = some (heap, heap) := rfl
  rw [visitLoop, run_bind start, last]
  rfl

theorem visitLoop_some (fuel : Nat) {curr next : Nat} (more : heap.links.next curr = some next) : visitLoop (fuel + 1) curr heap = (do
    let data ← dataOf curr
    let rest ← visitLoop fuel next
    pure (data :: rest) : N δ ε (List δ)) heap := by
  have start : (get : N δ ε (NodeHeap δ ε)) heap = some (heap, heap) := rfl
  rw [visitLoop, run_bind start, more]

theorem visitLoop_run {skipped : List (Nat × δ)} (table : Table heap (row :: rows)) (split : row.nodes = skipped ++ nodes)
    (enough : nodes.length < fuel) : visitLoop fuel (row.ends.at (nodes.map (·.1))) heap = some (nodes.map (·.2), heap) := by
  induction nodes generalizing skipped fuel with
  | nil =>
    obtain ⟨fuel, rfl⟩ := Nat.exists_eq_succ_of_ne_zero (Nat.ne_of_gt enough)
    have last : heap.links.next (row.ends.at []) = none := table.headed.back row.ends List.mem_cons_self
    exact visitLoop_none fuel last
  | cons node nodes ih =>
    obtain ⟨fuel, rfl⟩ := Nat.exists_eq_succ_of_ne_zero (Nat.ne_of_gt (Nat.zero_lt_of_lt enough))
    have stored : heap.data node.1 = some node.2 :=
      table.data row List.mem_cons_self node (split ▸ List.mem_append_right _ List.mem_cons_self)
    have split' : row.nodes = (skipped ++ [node]) ++ nodes := by
      rw [split, List.append_assoc]
      rfl
    have rest := ih split' (Nat.lt_of_succ_lt_succ enough)
    rw [List.map_cons, at_cons, visitLoop_some fuel (table.next_node split), run_bind (dataOf_run stored), run_bind rest]
    rfl

theorem visit_run (table : Table heap (row :: rows)) (enough : row.nodes.length < fuel) :
    LinkedList.visit fuel row.list heap = some (row.nodes.map (·.2), heap) := by
  rw [LinkedList.visit, run_bind table.getList_run, run_bind table.first_run]
  exact visitLoop_run table (show row.nodes = [] ++ row.nodes from rfl) enough

end Walking

section Lists

theorem listClear_wp (table : Table heap (row :: rows)) :
    Wp (listClear row.list) (fun _ heap' => Table heap' (row.with [] :: rows)) heap := by
  obtain ⟨links, data, lists, fresh⟩ := heap
  have headed : Headed links ((row.ends, [] ++ (row.nodes.map (·.1) ++ [])) :: rows.map Row.entry) [] := by
    rw [List.append_nil]
    exact table.headed
  have out := headed.takeOut.forget
  have ran : listClear row.list ⟨links, data, lists, fresh⟩ =
      some (⟨⟩, ⟨links.join row.ends.head row.ends.tail, data, Function.update lists row.list (some (row.with []).fields), fresh⟩) := by
    rw [listClear, run_bind table.getList_run, run_bind putList_run, run_bind (setNext_run _ _)]
    rfl
  refine .of_eq ran (table.rebuild out (fun _ member => (List.not_mem_nil member).elim) (fun _ _ => rfl) (Nat.le_refl _)
    (fun _ member => (List.not_mem_nil member).elim) fun cell beyond => ?_)
  exact (relink_other (Nat.ne_of_gt (Nat.lt_of_lt_of_le (table.below row List.mem_cons_self _ (tail_mem _ _)) beyond))).trans
    (table.blank cell beyond)

theorem listInit_wp (equal : ε → δ → δ → Bool) (table : Table heap rows) (new : list ∉ rows.map Row.list) :
    Wp (listInit list equal) (fun _ heap' => ∃ ends, Table heap' (⟨list, ends, equal, []⟩ :: rows)) heap := by
  obtain ⟨links, data, lists, fresh⟩ := heap
  have free (cell : Nat) (beyond : fresh ≤ cell) : cell ∉ ((rows.map Row.entry).map fun entry => entry.1.nodes entry.2).flatten ++ [].flatten := by
    rw [List.flatten_nil, List.append_nil]
    intro member
    obtain ⟨piece, listed, inside⟩ := List.mem_flatten.mp member
    obtain ⟨entry, there, rfl⟩ := List.mem_map.mp listed
    obtain ⟨row, member, rfl⟩ := List.mem_map.mp there
    exact Nat.lt_irrefl _ (Nat.lt_of_lt_of_le (table.below row member cell inside) beyond)
  have differs : (Ends.mk fresh (fresh + 1)).head ≠ (Ends.mk fresh (fresh + 1)).tail := Nat.ne_of_lt (Nat.lt_succ_self fresh)
  have init := table.headed.init differs (table.blank fresh (Nat.le_refl fresh)) (free fresh (Nat.le_refl fresh)) (free (fresh + 1) (Nat.le_succ fresh))
  have ran : listInit list equal ⟨links, data, lists, fresh⟩ = some (⟨⟩, ⟨(links.setNext (fresh + 1) none).join fresh (fresh + 1), data,
    Function.update lists list (some ⟨0, fresh, fresh + 1, equal⟩), fresh + 2⟩) := rfl
  refine .of_eq ran ⟨⟨fresh, fresh + 1⟩, init, fun other member => ?_, fun other member => ?_, List.nodup_cons.mpr ⟨new, table.names⟩,
    fun other member cell inside => ?_, fun cell beyond => ?_⟩
  · rcases List.mem_cons.mp member with rfl | member
    · exact Function.update_self ..
    · refine (Function.update_of_ne ?_ ..).trans (table.fields other member)
      intro same
      exact new (same ▸ List.mem_map_of_mem member)
  · rcases List.mem_cons.mp member with rfl | member
    · exact fun _ inside => (List.not_mem_nil inside).elim
    · exact table.data other member
  · rcases List.mem_cons.mp member with rfl | member
    · rcases List.mem_cons.mp inside with rfl | inside
      · exact Nat.lt_add_of_pos_right Nat.two_pos
      · cases List.mem_singleton.mp inside
        exact Nat.lt_succ_self (fresh + 1)
    · exact Nat.lt_of_lt_of_le (table.below other member cell inside) (Nat.le_add_right fresh 2)
  · have beyond' : fresh + 2 ≤ cell := beyond
    exact (relink_other (by omega)).trans (table.blank cell (show fresh ≤ cell by omega))

end Lists

end Comp310.Kernel.LinkedList
