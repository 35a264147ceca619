import Comp310.Kernel.NodeLists

/-! The kernel's lists are double-ended queues: what they answer and hold is said by lists of data, without nodes. -/

namespace Comp310.Proofs.KernelLists
open Comp310.Lib Comp310.Kernel Comp310.Kernel.LinkedList

variable {δ ε : Type}

/-- The address of a list, how it compares, and what is in it. -/
abbrev Deque (δ ε : Type) := Nat × (ε → δ → δ → Bool) × List δ

/-- What a call that is allowed does. Of elements that compare equal the first one is meant. -/
inductive Effect : NodeCall δ ε → List (Deque δ ε) → NodeReply δ → List (Deque δ ε) → Prop
  | listInit {list equal deques} (new : list ∉ deques.map (·.1)) : Effect (.listInit list equal) deques .done ((list, equal, []) :: deques)
  | listClear {list equal xs rest} : Effect (.listClear list) ((list, equal, xs) :: rest) .done ((list, equal, []) :: rest)
  | addTail {list equal xs x rest} (room : xs.length < 2147483647) :
      Effect (.addTail x list) ((list, equal, xs) :: rest) (.code 0) ((list, equal, xs ++ [x]) :: rest)
  | addHead {list equal xs x rest} (room : xs.length < 2147483647) :
      Effect (.addHead x list) ((list, equal, xs) :: rest) (.code 0) ((list, equal, x :: xs) :: rest)
  | popHead {list equal x xs rest} : Effect (.popHead list) ((list, equal, x :: xs) :: rest) (.data x) ((list, equal, xs) :: rest)
  | popTail {list equal xs x rest} : Effect (.popTail list) ((list, equal, xs ++ [x]) :: rest) (.data x) ((list, equal, xs) :: rest)
  | getByIndex {list equal xs x ys rest} :
      Effect (.getByIndex list xs.length) ((list, equal, xs ++ x :: ys) :: rest) (.data x) ((list, equal, xs ++ x :: ys) :: rest)
  | getByValue {list equal memory target xs x ys rest} (others : ∀ other ∈ xs, equal memory target other = false)
      (found : equal memory target x = true) :
      Effect (.getByValue memory list target) ((list, equal, xs ++ x :: ys) :: rest) (.data x) ((list, equal, xs ++ x :: ys) :: rest)
  | removeElem {list equal memory target xs x ys rest} (others : ∀ other ∈ xs, equal memory target other = false)
      (found : equal memory target x = true) :
      Effect (.removeElem memory target list) ((list, equal, xs ++ x :: ys) :: rest) (.data x) ((list, equal, xs ++ ys) :: rest)
  | size {list equal xs rest} : Effect (.size list) ((list, equal, xs) :: rest) (.count xs.length) ((list, equal, xs) :: rest)
  | visit {list equal xs rest} : Effect (.visit list) ((list, equal, xs) :: rest) (.all xs) ((list, equal, xs) :: rest)
  | perm {call deques deques' reply after} (same : deques.Perm deques') (effect : Effect call deques' reply after) :
      Effect call deques reply after

inductive Calls : List (NodeCall δ ε) → List (Deque δ ε) → List (NodeReply δ) → List (Deque δ ε) → Prop
  | nil {deques} : Calls [] deques [] deques
  | cons {call calls deques reply replies middle after} (first : Effect call deques reply middle) (later : Calls calls middle replies after) :
      Calls (call :: calls) deques (reply :: replies) after

def rowDeque (row : Row δ ε) : Deque δ ε := (row.list, row.equal, row.nodes.map (·.2))

/-- The nodes in the heap hold the queues. -/
def Shows (heap : NodeHeap δ ε) (deques : List (Deque δ ε)) : Prop := ∃ rows, Table heap rows ∧ (rows.map rowDeque).Perm deques

variable {heap : NodeHeap δ ε} {deques deques' rest after : List (Deque δ ε)} {deque : Deque δ ε} {call : NodeCall δ ε}
  {calls : List (NodeCall δ ε)} {reply : NodeReply δ} {replies : List (NodeReply δ)}

theorem Shows.perm (shows : Shows heap deques) (same : deques.Perm deques') : Shows heap deques' := by
  obtain ⟨rows, table, held⟩ := shows
  exact ⟨rows, table, held.trans same⟩

theorem Shows.take {list : Nat} {equal : ε → δ → δ → Bool} {xs : List δ} (shows : Shows heap ((list, equal, xs) :: rest)) :
    ∃ row rows, Table heap (row :: rows) ∧ row.list = list ∧ row.equal = equal ∧ row.nodes.map (·.2) = xs ∧ (rows.map rowDeque).Perm rest := by
  obtain ⟨rows, table, held⟩ := shows
  obtain ⟨row, member, same⟩ := List.mem_map.mp (held.mem_iff.mpr List.mem_cons_self)
  obtain ⟨before, behind, rfl⟩ := List.append_of_mem member
  have middle : (before ++ row :: behind).Perm (row :: (before ++ behind)) := List.perm_middle
  have held := (middle.map rowDeque).symm.trans held
  rw [List.map_cons, same] at held
  cases same
  exact ⟨row, before ++ behind, table.perm middle, rfl, rfl, rfl, held.cons_inv⟩

theorem Shows.put {row : Row δ ε} {rows : List (Row δ ε)} (table : Table heap (row :: rows)) (held : (rows.map rowDeque).Perm rest) :
    Shows heap ((row.list, row.equal, row.nodes.map (·.2)) :: rest) := ⟨row :: rows, table, held.cons _⟩

theorem split_nodes {nodes : List (Nat × δ)} {xs ys : List δ} {x : δ} (same : nodes.map (·.2) = xs ++ x :: ys) :
    ∃ front node back, nodes = front ++ node :: back ∧ front.map (·.2) = xs ∧ node.2 = x ∧ back.map (·.2) = ys := by
  obtain ⟨front, later, rfl, held, same⟩ := List.map_eq_append_iff.mp same
  obtain ⟨node, back, rfl, rfl, rfl⟩ := List.map_eq_cons_iff.mp same
  exact ⟨front, node, back, rfl, held, rfl, rfl⟩

theorem Effect.shows (effect : Effect call deques reply after) :
    ∃ enough, ∀ fuel ≥ enough, ∀ heap, Shows heap deques → Wp (call.run fuel) (fun reply' heap' => reply' = reply ∧ Shows heap' after) heap := by
  induction effect with
  | @listInit list equal deques new =>
    refine ⟨0, fun fuel _ heap shows => ?_⟩
    obtain ⟨rows, table, held⟩ := shows
    have names : list ∉ rows.map Row.list := by
      have same := (held.map (·.1)).mem_iff (a := list)
      rw [List.map_map] at same
      exact fun member => new (same.mp member)
    rw [NodeCall.run, wp_bind]
    refine (listInit_wp equal table names).mono ?_
    rintro _ heap' ⟨ends, table⟩
    exact (wp_pure _).mpr ⟨rfl, Shows.put table held⟩
  | listClear =>
    refine ⟨0, fun fuel _ heap shows => ?_⟩
    obtain ⟨row, rows, table, rfl, rfl, -, held⟩ := shows.take
    rw [NodeCall.run, wp_bind]
    exact (listClear_wp table).mono fun _ _ table => (wp_pure _).mpr ⟨rfl, Shows.put table held⟩
  | @addTail list equal xs x rest room =>
    refine ⟨0, fun fuel _ heap shows => ?_⟩
    obtain ⟨row, rows, table, rfl, rfl, rfl, held⟩ := shows.take
    rw [List.length_map] at room
    refine wp_map.mpr ((addTail_wp x table room).mono ?_)
    rintro _ heap' ⟨rfl, node, table⟩
    have shows := Shows.put table held
    rw [Row.with, List.map_append] at shows
    exact ⟨rfl, shows⟩
  | @addHead list equal xs x rest room =>
    refine ⟨0, fun fuel _ heap shows => ?_⟩
    obtain ⟨row, rows, table, rfl, rfl, rfl, held⟩ := shows.take
    rw [List.length_map] at room
    refine wp_map.mpr ((addHead_wp x table room).mono ?_)
    rintro _ heap' ⟨rfl, node, table⟩
    exact ⟨rfl, Shows.put table held⟩
  | popHead =>
    refine ⟨0, fun fuel _ heap shows => ?_⟩
    obtain ⟨row, rows, table, rfl, rfl, same, held⟩ := shows.take
    obtain ⟨node, back, split, rfl, rfl⟩ := List.map_eq_cons_iff.mp same
    refine wp_map.mpr ((popHead_wp table split).mono ?_)
    rintro _ heap' ⟨rfl, table⟩
    exact ⟨rfl, Shows.put table held⟩
  | popTail =>
    refine ⟨0, fun fuel _ heap shows => ?_⟩
    obtain ⟨row, rows, table, rfl, rfl, same, held⟩ := shows.take
    obtain ⟨front, node, back, split, rfl, rfl, last⟩ := split_nodes same
    cases List.map_eq_nil_iff.mp last
    refine wp_map.mpr ((popTail_wp table split).mono ?_)
    rintro _ heap' ⟨rfl, table⟩
    exact ⟨rfl, Shows.put table held⟩
  | getByIndex =>
    refine ⟨0, fun fuel _ heap shows => ?_⟩
    obtain ⟨row, rows, table, rfl, rfl, same, held⟩ := shows.take
    obtain ⟨front, node, back, split, rfl, rfl, rfl⟩ := split_nodes same
    have ran := getByIndex_run table split
    rw [← same, List.length_map]
    exact wp_map.mpr (.of_eq ran ⟨rfl, Shows.put table held⟩)
  | @getByValue list equal memory target xs x ys rest others found =>
    refine ⟨xs.length + 1, fun fuel enough heap shows => ?_⟩
    obtain ⟨row, rows, table, rfl, rfl, same, held⟩ := shows.take
    obtain ⟨front, node, back, split, rfl, rfl, rfl⟩ := split_nodes same
    rw [List.length_map] at enough
    have ran := getByValue_run table split (fun other member => others other.2 (List.mem_map_of_mem member)) found enough
    rw [← same]
    exact wp_map.mpr (.of_eq ran ⟨rfl, Shows.put table held⟩)
  | @removeElem list equal memory target xs x ys rest others found =>
    refine ⟨xs.length + 1, fun fuel enough heap shows => ?_⟩
    obtain ⟨row, rows, table, rfl, rfl, same, held⟩ := shows.take
    obtain ⟨front, node, back, split, rfl, rfl, rfl⟩ := split_nodes same
    rw [List.length_map] at enough
    refine wp_map.mpr ((removeElem_wp table split (fun other member => others other.2 (List.mem_map_of_mem member)) found enough).mono ?_)
    rintro _ heap' ⟨rfl, table⟩
    have shows := Shows.put table held
    rw [Row.with, List.map_append] at shows
    exact ⟨rfl, shows⟩
  | size =>
    refine ⟨0, fun fuel _ heap shows => ?_⟩
    obtain ⟨row, rows, table, rfl, rfl, rfl, held⟩ := shows.take
    refine wp_map.mpr ?_
    rw [listSize, wp_bind]
    refine .of_eq table.getList_run ((wp_pure _).mpr ⟨?_, Shows.put table held⟩)
    rw [List.length_map]
    rfl
  | @visit list equal xs rest =>
    refine ⟨xs.length + 1, fun fuel enough heap shows => ?_⟩
    obtain ⟨row, rows, table, rfl, rfl, rfl, held⟩ := shows.take
    rw [List.length_map] at enough
    exact wp_map.mpr (.of_eq (visit_run table enough) ⟨rfl, Shows.put table held⟩)
  | perm same _ ih =>
    obtain ⟨enough, runs⟩ := ih
    exact ⟨enough, fun fuel bound heap shows => runs fuel bound heap (shows.perm same)⟩

/-- Any calls, on any number of lists in one memory. -/
theorem linked_lists (run : Calls calls deques replies after) : ∃ enough, ∀ fuel ≥ enough, ∀ heap, Shows heap deques →
    ∃ heap', runCalls fuel calls heap = some (replies, heap') ∧ Shows heap' after := by
  induction run with
  | nil => exact ⟨0, fun fuel _ heap shows => ⟨heap, rfl, shows⟩⟩
  | cons first later ih =>
    obtain ⟨enough, one⟩ := first.shows
    obtain ⟨enough', others⟩ := ih
    refine ⟨max enough enough', fun fuel bound heap shows => ?_⟩
    obtain ⟨reply, middle, ran, rfl, shows⟩ := one fuel (Nat.max_le.mp bound).1 heap shows
    obtain ⟨heap', ran', shows⟩ := others fuel (Nat.max_le.mp bound).2 middle shows
    refine ⟨heap', ?_, shows⟩
    rw [runCalls, run_bind ran, run_bind ran']
    rfl

def sameNumber (_ : Unit) (a b : Nat) : Bool := a == b

theorem linked_lists_two : Shows (δ := Nat) (ε := Unit) ⟨⟨fun _ => none, fun _ => none⟩, fun _ => none, fun _ => none, 0⟩ [] ∧
    ∃ enough, ∀ fuel ≥ enough, ∀ heap : NodeHeap Nat Unit, Shows heap [] →
      ∃ heap', runCalls fuel [.listInit 7 sameNumber, .listInit 8 sameNumber, .addTail 1 7, .addTail 2 7, .addHead 3 7, .removeElem () 1 7,
          .popTail 7, .visit 7] heap =
        some ([.done, .done, .code 0, .code 0, .code 0, .data 1, .data 2, .all [3]], heap') ∧
        Shows heap' [(7, sameNumber, [3]), (8, sameNumber, [])] := by
  constructor
  · refine ⟨[], ⟨⟨⟨fun _ member => (List.not_mem_nil member).elim, .nil⟩, ?_, ?_⟩, ?_, ?_, .nil, ?_, fun _ _ => rfl⟩, .refl _⟩
    all_goals exact fun _ member => (List.not_mem_nil member).elim
  · have removed : Effect (.removeElem () 1 7) [(7, sameNumber, [3] ++ 1 :: [2]), (8, sameNumber, [])] (.data 1)
        [(7, sameNumber, [3] ++ [2]), (8, sameNumber, [])] := .removeElem (by decide) rfl
    have popped : Effect (.popTail 7) [(7, sameNumber, [3] ++ [2]), (8, sameNumber, [])] (.data 2) [(7, sameNumber, [3]), (8, sameNumber, [])] :=
      .popTail
    exact linked_lists (.cons (.listInit List.not_mem_nil) (.cons (.listInit (by decide)) (.cons (.perm (.swap ..) (.addTail (by decide)))
      (.cons (.addTail (by decide)) (.cons (.addHead (by decide)) (.cons removed (.cons popped (.cons .visit .nil))))))))

end Comp310.Proofs.KernelLists
