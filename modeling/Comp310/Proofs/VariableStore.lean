import Mathlib.Data.List.Nodup
import Mathlib.Data.List.Perm.Subperm
import Comp310.Lib.SlotMap
import Comp310.Kernel.ShellMemory

/-! The variables of the shell as a map. A free slot is told by its name, "none", which is also the name of a variable. -/

namespace Comp310.Proofs.VariableStore
open Comp310.Kernel Comp310.Lib

inductive VarCall where
  | memSetValue (var value : CString)
  | memGetValue (var : CString) (caller : UInt8)
  | resetVarZone

def VarCall.run (border varStoreSize : Nat) (memory : ShellMemory) : VarCall → ShellMemory
  | .memSetValue var value => Kernel.memSetValue border varStoreSize var value memory
  | .memGetValue _ _ => memory
  | .resetVarZone => Kernel.resetVarZone border varStoreSize memory

/-- The variables that there are after a call. -/
def VarCall.note (map : CString → Option CString) : VarCall → CString → Option CString
  | .memSetValue var value => insertKey map var value
  | .memGetValue _ _ => map
  | .resetVarZone => fun _ => none

/-- The names that are in use after a call. -/
def VarCall.mention (names : List CString) : VarCall → List CString
  | .memSetValue var _ => names.insert var
  | .memGetValue _ _ => names
  | .resetVarZone => []

def runCalls (border varStoreSize : Nat) (calls : List VarCall) : ShellMemory := calls.foldl (VarCall.run border varStoreSize) memInit

/-- The value that a name was last given, if it was after the last reset. -/
def latest (calls : List VarCall) : CString → Option CString := calls.foldl VarCall.note fun _ => none

/-- The distinct names since the last reset. -/
def namesSince (calls : List VarCall) : List CString := calls.foldl VarCall.mention []

def slotView : SlotView MemoryStruct CString CString := ⟨fun s => s.var != noneText, (·.var), (·.value)⟩

def varTable (border varStoreSize : Nat) (memory : ShellMemory) : List MemoryStruct := (varSlots border varStoreSize).map memory

/-- The map without the name of a free slot. -/
def plain (map : CString → Option CString) : CString → Option CString := fun name => if name = noneText then none else map name

/-- The slots hold the map, as long as there are enough of them for its names. -/
structure Holds (border varStoreSize : Nat) (map : CString → Option CString) (names : List CString) (memory : ShellMemory) : Prop where
  named : ∀ name, map name ≠ none → name ∈ names
  distinct : names.Nodup
  slots : names.length ≤ varStoreSize → Represents slotView (varTable border varStoreSize memory) (plain map)

variable {border varStoreSize : Nat} {map : CString → Option CString} {names : List CString} {memory : ShellMemory} {name : CString}
  {slot : MemoryStruct} {pos : Nat} {call : VarCall} {calls : List VarCall}

theorem varTable_get (i : Nat) :
    (varTable border varStoreSize memory)[i]? = if i < varStoreSize then some (memory (border + i)) else none := by
  rw [varTable, varSlots, List.getElem?_map]
  split
  next inside => simp [inside]
  next outside => simp [Nat.le_of_not_lt outside]

theorem varTable_put (inside : pos < varStoreSize) (i : Nat) : (varTable border varStoreSize (memPut memory (border + pos) slot))[i]? =
    if i = pos then some slot else (varTable border varStoreSize memory)[i]? := by
  rw [varTable_get, varTable_get]
  by_cases same : i = pos
  · subst same
    rw [if_pos inside, if_pos rfl, memPut_self]
  · rw [if_neg same, memPut_other (by omega)]

theorem find_varSlots {wanted : Nat → Bool} {i : Nat} (found : (varSlots border varStoreSize).find? wanted = some i) :
    ∃ k < varStoreSize, i = border + k ∧ wanted i = true := by
  have member := List.mem_range'_1.mp (List.mem_of_find?_eq_some found)
  exact ⟨i - border, by omega, by omega, List.find?_some found⟩

theorem find_name (represents : Represents slotView (varTable border varStoreSize memory) map) (other : name ≠ noneText) :
    (∃ k < varStoreSize, (varSlots border varStoreSize).find? (fun i => (memory i).var == name) = some (border + k) ∧
      (memory (border + k)).var = name ∧ map name = some (memory (border + k)).value) ∨
    ((varSlots border varStoreSize).find? (fun i => (memory i).var == name) = none ∧ map name = none) := by
  cases found : (varSlots border varStoreSize).find? fun i => (memory i).var == name with
  | some i =>
    obtain ⟨k, inside, rfl, same⟩ := find_varSlots found
    have var : (memory (border + k)).var = name := eq_of_beq same
    have there : (varTable border varStoreSize memory)[k]? = some (memory (border + k)) := by rw [varTable_get, if_pos inside]
    have used : slotView.used (memory (border + k)) = true := bne_iff_ne.mpr (var ▸ other)
    have value := represents.found there used
    exact .inl ⟨k, inside, rfl, var, var ▸ value⟩
  | none =>
    refine .inr ⟨rfl, represents.absent.mpr fun s member _ same => ?_⟩
    obtain ⟨i, place, rfl⟩ := List.mem_map.mp member
    exact List.find?_eq_none.mp found i place (beq_iff_eq.mpr same)

/-- Where a new name still fits in, there is a free slot for it. -/
theorem find_free (represents : Represents slotView (varTable border varStoreSize memory) map)
    (named : ∀ other, map other ≠ none → other ∈ names) (new : map name = none) (few : (names.insert name).length ≤ varStoreSize) :
    ∃ k < varStoreSize, (varSlots border varStoreSize).find? (fun i => (memory i).var == noneText) = some (border + k) ∧
      (memory (border + k)).var = noneText := by
  cases found : (varSlots border varStoreSize).find? fun i => (memory i).var == noneText with
  | some i =>
    obtain ⟨k, inside, rfl, same⟩ := find_varSlots found
    exact ⟨k, inside, rfl, eq_of_beq same⟩
  | none =>
    obtain ⟨once, keys⟩ := represents.keys
    have full : (varTable border varStoreSize memory).filter slotView.used = varTable border varStoreSize memory := by
      rw [List.filter_eq_self]
      intro s member
      obtain ⟨i, place, rfl⟩ := List.mem_map.mp member
      exact bne_iff_ne.mpr fun free => List.find?_eq_none.mp found i place (beq_iff_eq.mpr free)
    rw [full] at once keys
    have absent : name ∉ (varTable border varStoreSize memory).map slotView.key := fun member => (keys name).mp member new
    have all : name :: (varTable border varStoreSize memory).map slotView.key ⊆ names.insert name := by
      intro other member
      rcases List.mem_cons.mp member with rfl | member
      · exact List.mem_insert_self
      · exact List.mem_insert_of_mem (named other ((keys other).mp member))
    have more := ((List.nodup_cons.mpr ⟨absent, once⟩).subperm all).length_le
    rw [List.length_cons, List.length_map, varTable, List.length_map, varSlots, List.length_range'] at more
    omega

theorem plain_none : plain map noneText = none := if_pos rfl

theorem plain_other (other : name ≠ noneText) : plain map name = map name := if_neg other

theorem plain_empty : (plain fun _ => none) = fun _ => none := by
  funext name
  exact ite_self none

theorem plain_insert {value : CString} (other : name ≠ noneText) : plain (insertKey map name value) = insertKey (plain map) name value := by
  funext key
  by_cases free : key = noneText
  · rw [free, plain_none, insertKey_other other.symm, plain_none]
  · rw [plain_other free, insertKey, insertKey, plain_other free]

theorem plain_insert_none {value : CString} : plain (insertKey map noneText value) = plain map := by
  funext key
  by_cases free : key = noneText
  · rw [free, plain_none, plain_none]
  · rw [plain_other free, plain_other free, insertKey_other free]

theorem memGetValue_eq (represents : Represents slotView (varTable border varStoreSize memory) (plain map)) (other : name ≠ noneText)
    (caller : UInt8) : memGetValue border varStoreSize name caller memory = (map name).getD (notFound caller) := by
  have same : plain map name = map name := plain_other other
  rw [memGetValue, ← same]
  rcases find_name represents other with ⟨k, _, found, _, value⟩ | ⟨missing, absent⟩
  · rw [found, value]
    rfl
  · rw [missing, absent]
    rfl

/-- Setting a variable puts it into the map, if there is a slot left for it. -/
theorem memSetValue_represents {value : CString} (represents : Represents slotView (varTable border varStoreSize memory) map)
    (named : ∀ other, map other ≠ none → other ∈ names) (other : name ≠ noneText) (few : (names.insert name).length ≤ varStoreSize) :
    Represents slotView (varTable border varStoreSize (memSetValue border varStoreSize name value memory)) (insertKey map name value) := by
  have used : slotView.used ⟨name, value⟩ = true := bne_iff_ne.mpr other
  rw [memSetValue]
  rcases find_name represents other with ⟨k, inside, found, var, _⟩ | ⟨missing, absent⟩
  · rw [found]
    dsimp only
    rw [var]
    have there : (varTable border varStoreSize memory)[k]? = some (memory (border + k)) := by rw [varTable_get, if_pos inside]
    have taken : slotView.used (memory (border + k)) = true := bne_iff_ne.mpr (var ▸ other)
    exact represents.replace (varTable_put inside) there taken used var.symm
  · obtain ⟨k, inside, found, free⟩ := find_free represents named absent few
    rw [missing, found]
    refine represents.put (varTable_put inside) (fun t there => ?_) used absent
    rw [varTable_get, if_pos inside] at there
    cases there
    exact bne_eq_false_iff_eq.mpr free

/-- The name of a free slot sets the value of a free slot. -/
theorem memSetValue_none {value : CString} (represents : Represents slotView (varTable border varStoreSize memory) map) :
    Represents slotView (varTable border varStoreSize (memSetValue border varStoreSize noneText value memory)) map := by
  rw [memSetValue]
  cases found : (varSlots border varStoreSize).find? fun i => (memory i).var == noneText with
  | none => exact represents
  | some i =>
    obtain ⟨k, inside, rfl, same⟩ := find_varSlots found
    have free : (memory (border + k)).var = noneText := eq_of_beq same
    apply represents.idle (varTable_put inside)
    · intro s there
      rw [varTable_get, if_pos inside] at there
      cases there
      exact bne_eq_false_iff_eq.mpr free
    · exact bne_eq_false_iff_eq.mpr free

theorem resetVarZone_represents :
    Represents slotView (varTable border varStoreSize (resetVarZone border varStoreSize memory)) fun _ => none := by
  apply Represents.empty
  intro s member
  obtain ⟨i, place, rfl⟩ := List.mem_map.mp member
  rw [resetVarZone_var place]
  exact bne_self_eq_false noneText

theorem memInit_represents : Represents slotView (varTable border varStoreSize memInit) fun _ => none := by
  apply Represents.empty
  intro s member
  obtain ⟨_, _, rfl⟩ := List.mem_map.mp member
  exact bne_self_eq_false noneText

theorem Holds.empty (free : Represents slotView (varTable border varStoreSize memory) fun _ => none) :
    Holds border varStoreSize (fun _ => none) [] memory := by
  refine ⟨fun _ some => absurd rfl some, List.nodup_nil, fun _ => ?_⟩
  rw [plain_empty]
  exact free

theorem Holds.set {value : CString} (holds : Holds border varStoreSize map names memory) :
    Holds border varStoreSize (insertKey map name value) (names.insert name) (memSetValue border varStoreSize name value memory) := by
  refine ⟨fun other there => ?_, List.Nodup.insert holds.distinct, fun few => ?_⟩
  · by_cases same : other = name
    · exact same ▸ List.mem_insert_self
    · rw [insertKey_other same] at there
      exact List.mem_insert_of_mem (holds.named other there)
  · have fewer : names.length ≤ varStoreSize := Nat.le_trans List.length_le_length_insert few
    by_cases free : name = noneText
    · subst free
      rw [plain_insert_none]
      exact memSetValue_none (holds.slots fewer)
    · rw [plain_insert free]
      apply memSetValue_represents (holds.slots fewer) _ free few
      intro other there
      apply holds.named
      intro missing
      apply there
      rw [plain, missing]
      exact ite_self none

theorem Holds.step (holds : Holds border varStoreSize map names memory) :
    Holds border varStoreSize (call.note map) (call.mention names) (call.run border varStoreSize memory) := by
  cases call with
  | memSetValue var value => exact holds.set
  | memGetValue var caller => exact holds
  | resetVarZone => exact .empty resetVarZone_represents

theorem Holds.run (holds : Holds border varStoreSize map names memory) :
    Holds border varStoreSize (calls.foldl VarCall.note map) (calls.foldl VarCall.mention names)
      (calls.foldl (VarCall.run border varStoreSize) memory) := by
  induction calls generalizing map names memory with
  | nil => exact holds
  | cons call rest ih => exact ih holds.step

/-- After any calls, each name but that of a free slot has the value that it was given last, and setting another name
leaves it that value. -/
theorem store_is_map (calls : List VarCall) (few : (namesSince calls).length ≤ varStoreSize) (asked : name ≠ noneText) (caller : UInt8) :
    memGetValue border varStoreSize name caller (runCalls border varStoreSize calls) = (latest calls name).getD (notFound caller) ∧
    ∀ other value, other ≠ name → ((namesSince calls).insert other).length ≤ varStoreSize →
      memGetValue border varStoreSize name caller (memSetValue border varStoreSize other value (runCalls border varStoreSize calls)) =
        memGetValue border varStoreSize name caller (runCalls border varStoreSize calls) := by
  have holds : Holds border varStoreSize (latest calls) (namesSince calls) (runCalls border varStoreSize calls) :=
    (Holds.empty memInit_represents).run
  have value := memGetValue_eq (holds.slots few) asked caller
  refine ⟨value, ?_⟩
  intro other given differs more
  have after : Holds border varStoreSize (insertKey (latest calls) other given) _ _ := holds.set
  rw [value, memGetValue_eq (after.slots more) asked caller, insertKey_other differs.symm]

/-- Two names are set, the first twice, and looked for. -/
theorem store_is_map_small :
    memGetValue 18 10 [120] 112 (runCalls 18 10 [.memSetValue [120] [49], .memSetValue [121] [50], .memSetValue [120] [51]]) = [51] ∧
    memGetValue 18 10 [120] 112 (memSetValue 18 10 [121] [52]
      (runCalls 18 10 [.memSetValue [120] [49], .memSetValue [121] [50], .memSetValue [120] [51]])) = [51] := by
  have both := @store_is_map 18 10 [120]
    [.memSetValue [120] [49], .memSetValue [121] [50], .memSetValue [120] [51]] (by decide) (by decide) 112
  have kept := both.2 [121] [52] (by decide) (by decide)
  rw [both.1] at kept
  exact ⟨both.1, kept⟩

/-- "none" is set, but the free slot that has the value goes to the next name. -/
theorem store_forgets_none : ¬ ∀ (calls : List VarCall) (name : CString) (caller : UInt8), (namesSince calls).length ≤ 10 →
    memGetValue 18 10 name caller (runCalls 18 10 calls) = (latest calls name).getD (notFound caller) := by
  intro map
  have value := map [.memSetValue noneText [49], .memSetValue [120] [50]] noneText 112 (by decide)
  exact absurd value (by decide)

end Comp310.Proofs.VariableStore
