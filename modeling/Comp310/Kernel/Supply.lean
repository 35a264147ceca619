import Comp310.Kernel.Tries

/-! What a process still has of its lines: those in its pages that were not run, and those behind them in its file. No try brings
a line back, so a process that counts on more of them never comes to its end. -/

namespace Comp310.Kernel
open Comp310.Lib

/-- The lines of the page that are still to be run. -/
def Page.waiting (page : Page) (counter : Nat) : Nat :=
  (List.finRange 3).countP fun j => decide (counter ≤ j.val) && page.validBit.get j

def Pcb.waiting (pcb : Pcb) : Nat := (List.zipWith Page.waiting pcb.pageTable pcb.programCounter).sum

/-- The lines of the file are the next ones, and with those that wait in the pages there are too few by so many. -/
structure Pcb.Lacks (pcb : Pcb) (missing : Nat) (lines : List (List UInt8)) : Prop where
  reads : Reads lines
  unread : pcb.sourceFile = lines.flatten
  counters : pcb.programCounter.length = pcb.pageTable.length
  few : (pcb.waiting + lines.length + missing : Int) ≤ pcb.size

section Sums
variable {α β : Type} {f : α → β → Nat} {items : List α} {keys : List β} {i : Nat} {item new : α} {key : β}

theorem sum_zipWith_set (there : items[i]? = some item) (paired : keys[i]? = some key) (new : α) :
    (List.zipWith f (items.set i new) keys).sum + f item key = (List.zipWith f items keys).sum + f new key := by
  induction items generalizing keys i with
  | nil => cases there
  | cons first rest ih =>
    cases keys with
    | nil => cases paired
    | cons head tail =>
      cases i with
      | zero =>
        cases there
        cases paired
        rw [List.set_cons_zero, List.zipWith_cons_cons, List.zipWith_cons_cons, List.sum_cons, List.sum_cons]
        omega
      | succ i =>
        have rest' := ih there paired
        rw [List.set_cons_succ, List.zipWith_cons_cons, List.zipWith_cons_cons, List.sum_cons, List.sum_cons]
        omega

theorem sum_zipWith_modify (there : items[i]? = some item) (paired : keys[i]? = some key) (change : β → β) :
    (List.zipWith f items (keys.modify i change)).sum + f item key = (List.zipWith f items keys).sum + f item (change key) := by
  induction items generalizing keys i with
  | nil => cases there
  | cons first rest ih =>
    cases keys with
    | nil => cases paired
    | cons head tail =>
      cases i with
      | zero =>
        cases there
        cases paired
        rw [List.modify_zero_cons, List.zipWith_cons_cons, List.zipWith_cons_cons, List.sum_cons, List.sum_cons]
        omega
      | succ i =>
        have rest' := ih there paired
        rw [List.modify_succ_cons, List.zipWith_cons_cons, List.zipWith_cons_cons, List.sum_cons, List.sum_cons]
        omega

end Sums

variable {border i c missing : Nat} {pcb pcb' : Pcb} {page page' : Page} {lines : List (List UInt8)} {memory memory' : ShellMemory} {label : CString}
  {file' : List UInt8}

section Processes

theorem loadLines_bits (reads : Reads lines) (empty : page.validBit = .replicate 3 false)
    (read : loadLines label [0, 1, 2] page lines.flatten memory = (page', file', memory')) :
    file' = (lines.drop 3).flatten ∧ ∀ j : Fin 3, page'.validBit.get j = decide (j.val < lines.length) := by
  have bits : ∀ j : Fin 3, (Vector.replicate 3 false).get j = false ∧ ((Vector.replicate 3 false).set 0 true).get j = decide (j.val < 1) ∧
      (((Vector.replicate 3 false).set 0 true).set 1 true).get j = decide (j.val < 2) ∧
      ((((Vector.replicate 3 false).set 0 true).set 1 true).set 2 true).get j = true := by decide
  rcases lines with _ | ⟨first, _ | ⟨second, _ | ⟨third, rest⟩⟩⟩
  · rw [loadLines, fgets_end] at read
    cases read
    exact ⟨rfl, fun j => by rw [empty]; exact (bits j).1⟩
  · rw [List.flatten_cons, loadLines, reads.1] at read
    dsimp only at read
    rw [loadLines, fgets_end] at read
    cases read
    exact ⟨rfl, fun j => by dsimp only; rw [empty]; exact (bits j).2.1⟩
  · rw [List.flatten_cons, loadLines, reads.1] at read
    dsimp only at read
    rw [List.flatten_cons, loadLines, reads.2.1] at read
    dsimp only at read
    rw [loadLines, fgets_end] at read
    cases read
    exact ⟨rfl, fun j => by dsimp only; rw [empty]; exact (bits j).2.2.1⟩
  · rw [List.flatten_cons, loadLines, reads.1] at read
    dsimp only at read
    rw [List.flatten_cons, loadLines, reads.2.1] at read
    dsimp only at read
    rw [List.flatten_cons, loadLines, reads.2.2.1] at read
    dsimp only at read
    cases read
    refine ⟨rfl, fun j => ?_⟩
    have small := j.isLt
    dsimp only
    rw [empty, List.length_cons, List.length_cons, List.length_cons]
    exact (bits j).2.2.2.trans (decide_eq_true (by omega)).symm

theorem waiting_eq (page : Page) (counter : Nat) : page.waiting counter = (if counter = 0 ∧ page.validBit.get 0 = true then 1 else 0) +
    (if counter ≤ 1 ∧ page.validBit.get 1 = true then 1 else 0) + (if counter ≤ 2 ∧ page.validBit.get 2 = true then 1 else 0) := by
  have slots : List.finRange 3 = [0, 1, 2] := rfl
  simp only [Page.waiting, slots, List.countP_cons, List.countP_nil, Bool.and_eq_true, decide_eq_true_eq, Fin.val_zero, Fin.val_one, Fin.val_two, Nat.le_zero]
  omega

/-- A line that was run, or is covered by those that are read, does not wait. -/
theorem waiting_read (bits : ∀ j : Fin 3, page.validBit.get j = decide (j.val < lines.length)) (counter : Nat) :
    page.waiting counter + min counter (min 3 lines.length) ≤ min 3 lines.length := by
  rw [waiting_eq, bits, bits, bits]
  simp only [decide_eq_true_eq, Fin.val_zero, Fin.val_one, Fin.val_two]
  split_ifs <;> omega

/-- Where lines of the page were run, as many of those that it gets are lost, and with them all that waited in it. -/
theorem Pcb.Lacks.load (lacks : pcb.Lacks missing lines) (there : pcb.pageTable[i]? = some page) (counter : pcb.programCounter[i]? = some c)
    (loads : loadPage border i pcb page memory = some (pcb', memory')) :
    pcb'.Lacks (missing + page.waiting c + min c (min 3 lines.length)) (lines.drop 3) := by
  obtain ⟨⟨start, marked⟩, found, loads⟩ := Option.bind_eq_some_iff.mp loads
  cases read : loadLines (decimal pcb.pid) [0, 1, 2]
    { page with index := #v[start, start + 1, start + 2], validBit := .replicate 3 false } pcb.sourceFile marked with
  | mk page' rest =>
    obtain ⟨file', memory''⟩ := rest
    dsimp only at loads
    rw [read] at loads
    cases loads
    rw [lacks.unread] at read
    obtain ⟨left, bits⟩ := loadLines_bits lacks.reads rfl read
    have read' := waiting_read bits c
    have sum := sum_zipWith_set there counter (f := Page.waiting) page'
    refine ⟨lacks.reads.drop 3, left, by rw [List.length_set]; exact lacks.counters, ?_⟩
    have few := lacks.few
    rw [List.length_drop]
    unfold Pcb.waiting at few ⊢
    dsimp only at few ⊢
    omega

/-- What waited in an evicted page is lost. -/
theorem Pcb.Lacks.evict (lacks : pcb.Lacks missing lines) (there : pcb.pageTable[i]? = some page) (counter : pcb.programCounter[i]? = some c)
    (memory : ShellMemory) : Pcb.Lacks { pcb with pageTable := pcb.pageTable.set i (pageEvict page memory).1 } (missing + page.waiting c) lines := by
  have none : (pageEvict page memory).1.waiting c = 0 := by
    have bits : ∀ j : Fin 3, (Vector.replicate 3 false).get j = false := by decide
    rw [waiting_eq]
    simp [pageEvict, bits]
  have sum := sum_zipWith_set there counter (f := Page.waiting) (pageEvict page memory).1
  refine ⟨lacks.reads, lacks.unread, by rw [List.length_set]; exact lacks.counters, ?_⟩
  have few := lacks.few
  unfold Pcb.waiting at few ⊢
  dsimp only
  omega

theorem waiting_next {j : Fin 3} (valid : page.validBit.get j = true) : page.waiting (j + 1) + 1 = page.waiting j := by
  rw [waiting_eq, waiting_eq]
  rcases j with ⟨_ | _ | _ | j, small⟩
  · have valid : page.validBit.get 0 = true := valid
    simp [valid]
    omega
  · have valid : page.validBit.get 1 = true := valid
    simp [valid]
    omega
  · have valid : page.validBit.get 2 = true := valid
    simp [valid]
  · omega

theorem Pcb.Lacks.countLine {j : Fin 3} (lacks : pcb.Lacks missing lines) (there : pcb.pageTable[i]? = some page)
    (counter : pcb.programCounter[i]? = some j.val) (valid : page.validBit.get j = true) : (Processes.countLine pcb i).Lacks missing lines := by
  have next := waiting_next valid
  have sum := sum_zipWith_modify there counter (f := Page.waiting) (· + 1)
  refine ⟨lacks.reads, lacks.unread, by rw [Processes.countLine, List.length_modify]; exact lacks.counters, ?_⟩
  have few := lacks.few
  unfold Pcb.waiting at few ⊢
  change _ ≤ pcb.size - 1
  change (((List.zipWith Page.waiting pcb.pageTable (pcb.programCounter.modify i (· + 1))).sum : Nat) : Int) + _ + _ ≤ _
  omega

theorem Pcb.Lacks.mono {more : Nat} (lacks : pcb.Lacks more lines) (order : missing ≤ more) : pcb.Lacks missing lines :=
  ⟨lacks.reads, lacks.unread, lacks.counters, by have few := lacks.few; omega⟩

end Processes

end Comp310.Kernel
