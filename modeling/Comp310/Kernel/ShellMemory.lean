import Mathlib.Data.List.TakeWhile

/-! The memory of the shell (a3/shellmemory.c): the frames of scripts are below
FRAME_STORE_SIZE and the variables are behind them. A position may be any number:
the array has no end here. -/

namespace Comp310.Kernel

/-- A string of C, without its terminating NUL. -/
abbrev CString := List UInt8

/-- `struct memory_struct`. -/
structure MemoryStruct where
  var : CString
  value : CString
  deriving DecidableEq

abbrev ShellMemory := Nat → MemoryStruct

/-- `"none"`. -/
def noneText : CString := [110, 111, 110, 101]

/-- `strdup` of a buffer: what stands before the first NUL. -/
def strdup (buffer : List UInt8) : CString := buffer.takeWhile (· != 0)

/-- `sprintf` of an int, for the process ids. -/
def decimal (n : Nat) : CString :=
  if small : n < 10 then [48 + UInt8.ofNat n] else decimal (n / 10) ++ [48 + UInt8.ofNat (n % 10)]
termination_by n

def memInit : ShellMemory := fun _ => ⟨noneText, noneText⟩

def memPut (memory : ShellMemory) (pos : Nat) (slot : MemoryStruct) : ShellMemory :=
  fun other => if other = pos then slot else memory other

def memFreeAt (pos : Nat) (memory : ShellMemory) : ShellMemory := memPut memory pos ⟨noneText, noneText⟩

def memSetValueAt (pos : Nat) (pid : CString) (valueIn : List UInt8) (memory : ShellMemory) : ShellMemory :=
  memPut memory pos ⟨pid, strdup valueIn⟩

def memGetValueAt (pos : Nat) (memory : ShellMemory) : CString := (memory pos).value

def clearFrame (startPos : Nat) (memory : ShellMemory) : ShellMemory :=
  memFreeAt (startPos + 2) (memFreeAt (startPos + 1) (memFreeAt startPos memory))

/-- The label of a slot that is taken for a frame. -/
def memMark (pid : CString) (pos : Nat) (memory : ShellMemory) : ShellMemory :=
  memPut memory pos { memory pos with var := pid }

/-- Three slots from here on are in the frame store and free. -/
def frameFree (border : Nat) (memory : ShellMemory) (start : Nat) : Bool :=
  start + 3 ≤ border && (memory start).var == noneText && (memory (start + 1)).var == noneText && (memory (start + 2)).var == noneText

/-- The slot at which the page table entry starts; `none` where the code returns 1. -/
def frameAlloc (border : Nat) (pid : CString) (memory : ShellMemory) : Option (Nat × ShellMemory) :=
  match (List.range border).find? (frameFree border memory) with
  | none => none
  | some start => some (start, memMark pid (start + 2) (memMark pid (start + 1) (memMark pid start memory)))

/-- The slots of the variables, from FRAME_VAR_BORDER on. -/
def varSlots (border varStoreSize : Nat) : List Nat := List.range' border varStoreSize

/-- A new name goes to the first free slot; without one nothing happens. -/
def memSetValue (border varStoreSize : Nat) (varIn valueIn : CString) (memory : ShellMemory) : ShellMemory :=
  match (varSlots border varStoreSize).find? fun i => (memory i).var == varIn with
  | some i => memPut memory i { memory i with value := valueIn }
  | none =>
    match (varSlots border varStoreSize).find? fun i => (memory i).var == noneText with
    | some i => memPut memory i ⟨varIn, valueIn⟩
    | none => memory

/-- `"Variable does not exist"`, or an empty line where the caller is not `print`. -/
def notFound (caller : UInt8) : CString :=
  if caller = 112 then
    [86, 97, 114, 105, 97, 98, 108, 101, 32, 100, 111, 101, 115, 32, 110, 111, 116, 32, 101, 120, 105, 115, 116]
  else []

def memGetValue (border varStoreSize : Nat) (varIn : CString) (caller : UInt8) (memory : ShellMemory) : CString :=
  match (varSlots border varStoreSize).find? fun i => (memory i).var == varIn with
  | some i => (memory i).value
  | none => notFound caller

def resetVarZone (border varStoreSize : Nat) (memory : ShellMemory) : ShellMemory :=
  (varSlots border varStoreSize).foldl (fun memory i => memFreeAt i memory) memory

section Lemmas
variable {memory : ShellMemory} {pos other border start n : Nat} {slot : MemoryStruct} {pid : CString}

/-- A text without a NUL is copied in full. -/
theorem strdup_whole {text : CString} (clean : 0 ∉ text) : strdup text = text := List.takeWhile_eq_self_iff.mpr fun c member => by
  rw [bne_iff_ne]
  rintro rfl
  exact clean member

theorem memPut_self : memPut memory pos slot pos = slot := if_pos rfl

theorem memPut_other (differs : other ≠ pos) : memPut memory pos slot other = memory other := if_neg differs

theorem frameFree_iff : frameFree border memory start = true ↔
    start + 3 ≤ border ∧ ∀ k < 3, (memory (start + k)).var = noneText := by
  simp only [frameFree, Bool.and_eq_true, decide_eq_true_eq, beq_iff_eq]
  constructor
  · rintro ⟨⟨⟨inside, first⟩, second⟩, third⟩
    refine ⟨inside, fun k small => ?_⟩
    match k, small with
    | 0, _ => exact first
    | 1, _ => exact second
    | 2, _ => exact third
  · rintro ⟨inside, free⟩
    exact ⟨⟨⟨inside, free 0 (by decide)⟩, free 1 (by decide)⟩, free 2 (by decide)⟩

/-- A frame is found where there is one, and nothing but its labels changes. -/
theorem frameAlloc_some {memory' : ShellMemory} (found : frameAlloc border pid memory = some (start, memory')) :
    frameFree border memory start = true ∧ ∀ other, memory' other =
      if start ≤ other ∧ other < start + 3 then { memory other with var := pid } else memory other := by
  rw [frameAlloc] at found
  split at found
  next => cases found
  next first search =>
    cases found
    refine ⟨List.find?_some search, fun other => ?_⟩
    by_cases inside : start ≤ other ∧ other < start + 3
    · rw [if_pos inside]
      obtain rfl | rfl | rfl : other = start ∨ other = start + 1 ∨ other = start + 2 := by omega
      all_goals simp [memMark, memPut]
    · rw [if_neg inside, memMark, memPut_other (by omega), memMark, memPut_other (by omega), memMark, memPut_other (by omega)]

theorem frameAlloc_first {memory' : ShellMemory} (found : frameAlloc border pid memory = some (start, memory')) :
    ∀ earlier < start, frameFree border memory earlier = false := by
  rw [frameAlloc] at found
  split at found
  next => cases found
  next first search =>
    cases found
    intro earlier before
    exact (Bool.not_eq_true' _).mp ((List.find?_range_eq_some.mp search).2.2 earlier before)

theorem frameAlloc_none : frameAlloc border pid memory = none ↔ ∀ start, frameFree border memory start = false := by
  rw [frameAlloc]
  split
  next search =>
    refine iff_of_true rfl fun start => ?_
    cases free : frameFree border memory start with
    | false => rfl
    | true =>
      have inside := (frameFree_iff.mp free).1
      have missing := List.find?_eq_none.mp search start (List.mem_range.mpr (by omega))
      exact absurd free missing
  next start search =>
    refine iff_of_false nofun fun full => ?_
    have free := List.find?_some search
    rw [full start] at free
    cases free

theorem le_of_mem_varSlots {varStoreSize : Nat} (member : pos ∈ varSlots border varStoreSize) : border ≤ pos :=
  (List.mem_range'_1.mp member).1

theorem memSetValue_frame {varStoreSize : Nat} {varIn valueIn : CString} (frame : other < border) :
    memSetValue border varStoreSize varIn valueIn memory other = memory other := by
  have above {i : Nat} {wanted : Nat → Bool} (found : (varSlots border varStoreSize).find? wanted = some i) : other ≠ i := by
    have low := le_of_mem_varSlots (List.mem_of_find?_eq_some found)
    omega
  rw [memSetValue]
  cases named : (varSlots border varStoreSize).find? fun i => (memory i).var == varIn with
  | some i => exact memPut_other (above named)
  | none =>
    cases free : (varSlots border varStoreSize).find? fun i => (memory i).var == noneText with
    | some i => exact memPut_other (above free)
    | none => rfl

/-- The variables, which are behind the frame store. -/
def varsOf (border : Nat) (memory : ShellMemory) : ShellMemory := fun i => memory (border + i)

theorem memSetValue_vars (border varStoreSize : Nat) (name value : CString) (memory : ShellMemory) :
    varsOf border (memSetValue border varStoreSize name value memory) = memSetValue 0 varStoreSize name value (varsOf border memory) := by
  have slots : varSlots border varStoreSize = (varSlots 0 varStoreSize).map (border + ·) := by
    rw [varSlots, varSlots, List.map_add_range', Nat.add_zero]
  have found (wanted : MemoryStruct → Bool) : (varSlots border varStoreSize).find? (fun i => wanted (memory i)) =
      ((varSlots 0 varStoreSize).find? fun i => wanted (varsOf border memory i)).map (border + ·) := by
    rw [slots, List.find?_map]
    rfl
  have stored (i : Nat) (slot : MemoryStruct) : varsOf border (memPut memory (border + i) slot) = memPut (varsOf border memory) i slot := by
    funext other
    simp only [varsOf, memPut, Nat.add_left_cancel_iff]
  rw [memSetValue, memSetValue, found fun slot => slot.var == name, found fun slot => slot.var == noneText]
  cases (varSlots 0 varStoreSize).find? fun i => (varsOf border memory i).var == name with
  | some i => exact stored i _
  | none =>
    cases (varSlots 0 varStoreSize).find? fun i => (varsOf border memory i).var == noneText with
    | some i => exact stored i _
    | none => rfl

theorem resetVarZone_frame {varStoreSize : Nat} (frame : other < border) :
    resetVarZone border varStoreSize memory other = memory other := by
  have outside (slots : List Nat) (above : ∀ i ∈ slots, other ≠ i) (memory : ShellMemory) :
      slots.foldl (fun memory i => memFreeAt i memory) memory other = memory other := by
    induction slots generalizing memory with
    | nil => rfl
    | cons i rest ih =>
      rw [List.foldl_cons, ih fun j later => above j (List.mem_cons_of_mem _ later)]
      exact memPut_other (above i List.mem_cons_self)
  apply outside
  intro i member
  have low := le_of_mem_varSlots member
  omega

theorem resetVarZone_var {varStoreSize : Nat} (place : pos ∈ varSlots border varStoreSize) :
    resetVarZone border varStoreSize memory pos = ⟨noneText, noneText⟩ := by
  have cleared (slots : List Nat) (memory : ShellMemory) (free : pos ∈ slots ∨ memory pos = ⟨noneText, noneText⟩) :
      slots.foldl (fun memory i => memFreeAt i memory) memory pos = ⟨noneText, noneText⟩ := by
    induction slots generalizing memory with
    | nil => exact free.resolve_left List.not_mem_nil
    | cons i rest ih =>
      apply ih
      by_cases here : pos = i
      · subst here
        exact .inr memPut_self
      · exact free.imp (fun member => (List.mem_cons.mp member).resolve_left here) fun blank => (memPut_other here).trans blank
  exact cleared _ memory (.inl place)

theorem decimal_digits : ∀ byte ∈ decimal n, 48 ≤ byte ∧ byte ≤ 57 := by
  have digit (k : Nat) (small : k < 10) : 48 ≤ 48 + UInt8.ofNat k ∧ 48 + UInt8.ofNat k ≤ 57 := by
    have all : ∀ k : Fin 10, 48 ≤ 48 + UInt8.ofNat k.val ∧ 48 + UInt8.ofNat k.val ≤ 57 := by decide
    exact all ⟨k, small⟩
  induction n using decimal.induct with
  | case1 n small =>
    rw [decimal, dif_pos small]
    exact List.forall_mem_singleton.mpr (digit n small)
  | case2 n large ih =>
    rw [decimal, dif_neg large, List.forall_mem_append]
    exact ⟨ih, List.forall_mem_singleton.mpr (digit _ (Nat.mod_lt n (by decide)))⟩

theorem decimal_ne_none : decimal n ≠ noneText := by
  intro same
  have member : 110 ∈ decimal n := by
    rw [same]
    decide
  exact absurd (decimal_digits 110 member).2 (by decide)

end Lemmas

end Comp310.Kernel
