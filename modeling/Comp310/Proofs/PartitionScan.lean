import Comp310.Fs.Partition

/-! Which partition tables are found. Tables are nested on the device by their extended entries, but the table in sector 0
is read in place of each of the others. -/

namespace Comp310.Proofs.PartitionScan
open Comp310.Fs Comp310.Lib

/-- The extended entries of the table in a sector of the device, if there is a table in it. -/
def extendedAt (device : Array Block) (sector : Sector) : List PartitionTableEntry :=
  match device[sector.toNat]? with
  | none => []
  | some block =>
    if (PartitionTable.ofBlock block).signature = 0xaa55 then
      (PartitionTable.ofBlock block).partitions.filter fun e => !e.empty && e.extended
    else []

/-- A table on the device is known by its sector and by that of the first extended table on the way to it. -/
def Leads (device : Array Block) (table next : Sector × Sector) : Prop :=
  ∃ e ∈ extendedAt device table.1, next = nextTable table.1 table.2 e

/-- No table is reached from itself. -/
def ProperlyNested (device : Array Block) : Prop :=
  ∀ table, Relation.ReflTransGen (Leads device) (0, 0) table → ∀ next, Relation.TransGen (Leads device) table next → next.1 ≠ table.1

/-- An extended partition table in this sector of the device. -/
def ExtendedTable (device : Array Block) (sector : Sector) : Prop :=
  sector.toNat < device.size ∧ ∃ primary, Relation.TransGen (Leads device) (0, 0) (sector, primary)

/-- The scan comes to its end, and every extended table was read once. -/
def Scanned (device : Array Block) : Prop :=
  ∃ fuel partNr events, readPartitionTable device fuel 0 0 0 = some (partNr, events) ∧
    ∀ sector, ExtendedTable device sector → events.count (.read sector) = 1

variable {device : Array Block} {sector primary : Sector} {partNr last fuel : Nat} {events : List PartitionEvent}
  {partitions : List PartitionTableEntry} {call : Sector → Sector → Nat → Option (Nat × List PartitionEvent)}
  {e f : PartitionTableEntry}

theorem mem_extendedAt : e ∈ extendedAt device sector ↔ ∃ block, device[sector.toNat]? = some block ∧
    (PartitionTable.ofBlock block).signature = 0xaa55 ∧ e ∈ (PartitionTable.ofBlock block).partitions ∧
      e.empty = false ∧ e.extended = true := by
  unfold extendedAt
  cases device[sector.toNat]? with
  | none => simp
  | some block =>
    by_cases valid : (PartitionTable.ofBlock block).signature = 0xaa55
    · simp [valid]
    · simp [valid]

theorem leads_inside {table next : Sector × Sector} (leads : Leads device table next) : table.1.toNat < device.size := by
  obtain ⟨e, member, _⟩ := leads
  obtain ⟨block, there, _⟩ := mem_extendedAt.mp member
  exact (Array.getElem?_eq_some_iff.mp there).1

theorem parsePartitions_reads (reads : ∀ next primary partNr last events, call next primary partNr = some (last, events) →
      ∀ sector, .read sector ∈ events → sector = 0)
    (ran : parsePartitions device call sector primary partitions partNr = some (last, events)) :
    ∀ other, .read other ∈ events → other = 0 := by
  induction partitions generalizing partNr events with
  | nil =>
    cases ran
    exact fun _ impossible => absurd impossible List.not_mem_nil
  | cons e rest ih =>
    rw [parsePartitions] at ran
    split at ran
    next => exact ih ran
    next =>
      split at ran
      next =>
        obtain ⟨⟨middle, inner⟩, called, ran⟩ := Option.bind_eq_some_iff.mp ran
        obtain ⟨⟨last', after⟩, later, ran⟩ := Option.bind_eq_some_iff.mp ran
        cases ran
        intro other member
        rcases List.mem_append.mp member with first | second
        · rcases List.mem_cons.mp first with impossible | first
          · cases impossible
          · exact reads _ _ _ _ _ called other first
        · exact ih later other second
      next =>
        obtain ⟨⟨last', after⟩, later, ran⟩ := Option.bind_eq_some_iff.mp ran
        cases ran
        intro other member
        rcases List.mem_cons.mp member with found | second
        · unfold foundPartition at found
          split at found
          next => cases found
          next => split at found <;> cases found
        · exact ih later other second

theorem readPartitionTable_reads (ran : readPartitionTable device fuel sector primary partNr = some (last, events)) :
    ∀ other, .read other ∈ events → other = 0 := by
  induction fuel generalizing sector primary partNr last events with
  | zero => cases ran
  | succ fuel ih =>
    rw [readPartitionTable] at ran
    split at ran
    next =>
      cases ran
      intro other member
      cases List.mem_singleton.mp member
    next =>
      obtain ⟨block, _, ran⟩ := Option.bind_eq_some_iff.mp ran
      dsimp only at ran
      split at ran
      next =>
        cases ran
        intro other member
        rcases List.mem_cons.mp member with same | rest
        · cases same
          rfl
        · cases List.mem_singleton.mp rest
      next =>
        obtain ⟨⟨middle, inner⟩, parsed, ran⟩ := Option.bind_eq_some_iff.mp ran
        cases ran
        intro other member
        rcases List.mem_cons.mp member with same | rest
        · cases same
          rfl
        · exact parsePartitions_reads (fun _ _ _ _ _ called => ih called) parsed other rest

/-- Entries that lead past the end of the device cost one message each. -/
theorem parsePartitions_past (past : ∀ e ∈ partitions, e.empty = false → e.extended = true → ∀ partNr,
      ∃ result, call (nextTable sector primary e).1 (nextTable sector primary e).2 partNr = some result) :
    ∃ result, parsePartitions device call sector primary partitions partNr = some result := by
  induction partitions generalizing partNr with
  | nil => exact ⟨_, rfl⟩
  | cons e rest ih =>
    have later (partNr : Nat) : ∃ result, parsePartitions device call sector primary rest partNr = some result :=
      ih fun e member => past e (List.mem_cons_of_mem _ member)
    rw [parsePartitions]
    split
    next => exact later partNr
    next filled =>
      split
      next extended =>
        obtain ⟨⟨middle, inner⟩, called⟩ := past e List.mem_cons_self (Bool.not_eq_true _ ▸ filled) extended partNr
        obtain ⟨⟨last, after⟩, ran⟩ := later middle
        refine ⟨(last, .extended sector :: inner ++ after), ?_⟩
        simp only [called, ran, Option.bind_eq_bind, Option.bind_some]
      next =>
        obtain ⟨⟨last, after⟩, ran⟩ := later (partNr + 1)
        refine ⟨(last, foundPartition device (e.offset + sector) e.size (partNr + 1) :: after), ?_⟩
        simp only [ran, Option.bind_eq_bind, Option.bind_some]

theorem parsePartitions_stuck (member : e ∈ partitions) (filled : e.empty = false) (extended : e.extended = true)
    (stuck : ∀ partNr, call (nextTable sector primary e).1 (nextTable sector primary e).2 partNr = none) :
    parsePartitions device call sector primary partitions partNr = none := by
  induction partitions generalizing partNr with
  | nil => cases member
  | cons first rest ih =>
    rw [parsePartitions]
    rcases List.mem_cons.mp member with rfl | later
    · simp only [filled, extended, stuck partNr, if_true, Bool.false_eq_true, if_false, Option.bind_eq_bind, Option.bind_none]
    · have skipped (partNr : Nat) : parsePartitions device call sector primary rest partNr = none := ih later
      simp only [skipped, Option.bind_eq_bind, Option.bind_none, Option.bind_fun_none, ite_self]

/-- Behind an extended entry that stays inside the device also from the table that it leads to, the scan goes round in
circles, with that table or with the first one. -/
theorem never_returns (first : e ∈ extendedAt device 0) (inside : e.offset.toNat < device.size) (second : f ∈ extendedAt device 0)
    (again : (f.offset + e.offset).toNat < device.size) (there : sector.toNat < device.size) (way : sector = 0 ∨ primary = e.offset) :
    readPartitionTable device fuel sector primary partNr = none := by
  induction fuel generalizing sector primary partNr with
  | zero => rfl
  | succ fuel ih =>
    obtain ⟨block, table, valid, member, filled, extended⟩ := mem_extendedAt.mp first
    obtain ⟨block', table', _, member', filled', extended'⟩ := mem_extendedAt.mp second
    obtain rfl := Option.some.inj (table.symm.trans table')
    have read : device[0]? = some block := table
    rw [readPartitionTable, if_neg (Nat.not_le.mpr there), read]
    simp only [Option.bind_eq_bind, Option.bind_some, valid, ne_eq, not_true_eq_false, if_false]
    have stuck : parsePartitions device (readPartitionTable device fuel) sector primary (PartitionTable.ofBlock block).partitions
        partNr = none := by
      by_cases zero : sector = 0
      · apply parsePartitions_stuck member filled extended
        intro partNr
        rw [nextTable, if_pos zero]
        exact ih inside (.inr rfl)
      · apply parsePartitions_stuck member' filled' extended'
        intro partNr
        obtain rfl := way.resolve_left zero
        rw [nextTable, if_neg zero]
        exact ih again (.inr rfl)
    rw [stuck, Option.bind_none]

/-- The scan of a device whose tables are properly nested finds all of them exactly where there are none but the first:
where no extended entry of the table in sector 0 stays inside the device. -/
theorem scanned_iff (nested : ProperlyNested device) :
    Scanned device ↔ ∀ e ∈ extendedAt device 0, device.size ≤ e.offset.toNat := by
  constructor
  · rintro ⟨fuel, partNr, events, ran, once⟩ e member
    refine Nat.le_of_not_lt fun inside => ?_
    have step : Relation.TransGen (Leads device) (0, 0) (e.offset, e.offset) := .single ⟨e, member, rfl⟩
    have visited := once e.offset ⟨inside, e.offset, step⟩
    have read : .read e.offset ∈ events := List.count_pos_iff.mp (by omega)
    exact nested (0, 0) .refl _ step (readPartitionTable_reads ran e.offset read)
  · intro past
    have call (e : PartitionTableEntry) (member : e ∈ extendedAt device 0) (partNr : Nat) :
        readPartitionTable device 1 e.offset e.offset partNr = some (partNr, [.pastEnd e.offset]) := by
      rw [readPartitionTable, if_pos (past e member)]
    have returns : ∃ result, readPartitionTable device 2 0 0 0 = some result := by
      rw [readPartitionTable]
      split
      next => exact ⟨_, rfl⟩
      next inside =>
        obtain ⟨block, there⟩ : ∃ block, device[0]? = some block := ⟨_, Array.getElem?_eq_getElem (Nat.lt_of_not_le inside)⟩
        simp only [there, Option.bind_eq_bind, Option.bind_some]
        split
        next => exact ⟨_, rfl⟩
        next valid =>
          obtain ⟨⟨last, events⟩, ran⟩ : ∃ result, parsePartitions device (readPartitionTable device 1) 0 0
              (PartitionTable.ofBlock block).partitions 0 = some result := by
            apply parsePartitions_past
            intro e member filled extended partNr
            have listed : e ∈ extendedAt device 0 := mem_extendedAt.mpr ⟨block, there, not_not.mp valid, member, filled, extended⟩
            exact ⟨_, call e listed partNr⟩
          rw [ran]
          exact ⟨_, rfl⟩
    obtain ⟨⟨last, events⟩, ran⟩ := returns
    refine ⟨2, last, events, ran, ?_⟩
    rintro sector ⟨inside, primary, reached⟩
    obtain ⟨table, leads, rest⟩ := Relation.TransGen.head'_iff.mp reached
    obtain ⟨e, member, rfl⟩ := leads
    have outside := past e member
    rcases Relation.ReflTransGen.cases_head rest with same | ⟨next, onwards, _⟩
    · cases same
      exact absurd inside (Nat.not_lt.mpr outside)
    · exact absurd (leads_inside onwards) (Nat.not_lt.mpr outside)

section Example

/-- A sector with a partition table of one entry. -/
private abbrev tableOf (type offset : UInt8) : Block :=
  ((((zeros.setIfInBounds 450 type).setIfInBounds 454 offset).setIfInBounds 458 1).setIfInBounds 510 0x55).setIfInBounds 511 0xaa

/-- An extended partition is said to start in sector 5 of a device of 2. -/
private abbrev truncated : Array Block := #[tableOf 0x05 5, zeros]

/-- A device of three sectors with an extended partition from sector 1 on, which has no table yet. -/
private abbrev unwritten : Array Block := #[tableOf 0x05 1, zeros, zeros]

private theorem extendedAt_table {offset : UInt8} (table : device[0]? = some (tableOf 0x05 offset)) :
    extendedAt device 0 = [⟨5, joinBytes offset 0 0 0, 1⟩] := by
  have one : joinBytes 1 0 0 0 = 1 := by decide
  have there : device[(0 : Sector).toNat]? = some (tableOf 0x05 offset) := table
  rw [extendedAt, there]
  simp [PartitionTable.ofBlock, partitionEntry, zeros, one, PartitionTableEntry.empty, PartitionTableEntry.extended]

private theorem leads_table {offset : UInt8} (table : device[0]? = some (tableOf 0x05 offset))
    (rest : ∀ k, 0 < k → ∀ block, device[k]? = some block → block = zeros) {from' target : Sector × Sector} (leads : Leads device from' target) :
    from'.1 = 0 ∧ target.1 = joinBytes offset 0 0 0 := by
  obtain ⟨e, member, rfl⟩ := leads
  by_cases first : from'.1 = 0
  · rw [first, extendedAt_table table] at member
    cases List.mem_singleton.mp member
    rw [nextTable, if_pos first]
    exact ⟨first, rfl⟩
  · obtain ⟨block, there, valid, _⟩ := mem_extendedAt.mp member
    have positive : 0 < from'.1.toNat := Nat.pos_of_ne_zero fun zero => first (UInt32.toNat_inj.mp zero)
    rw [rest _ positive block there] at valid
    simp [PartitionTable.ofBlock, zeros] at valid

private theorem nested_table {offset : UInt8} (table : device[0]? = some (tableOf 0x05 offset)) (elsewhere : joinBytes offset 0 0 0 ≠ 0)
    (rest : ∀ k, 0 < k → ∀ block, device[k]? = some block → block = zeros) : ProperlyNested device := by
  intro start _ next path
  obtain ⟨middle, first, _⟩ := Relation.TransGen.head'_iff.mp path
  obtain ⟨before, _, last⟩ := Relation.TransGen.tail'_iff.mp path
  rw [(leads_table table rest first).1, (leads_table table rest last).2]
  exact elsewhere

theorem scanned_truncated : Scanned truncated := by
  apply (scanned_iff (nested_table rfl (by decide) ?_)).mpr
  · intro e member
    rw [extendedAt_table rfl] at member
    cases List.mem_singleton.mp member
    decide
  · intro k positive block there
    match k, positive, there with
    | 1, _, there => exact (Option.some.inj there).symm

/-- The table in sector 0 is taken for the one in sector 1, and then for one in sector 2, again and again. -/
theorem scan_overflows : ProperlyNested unwritten ∧ ExtendedTable unwritten 1 ∧
    (∀ fuel, readPartitionTable unwritten fuel 0 0 0 = none) ∧ ¬ Scanned unwritten := by
  have rest (k : Nat) (positive : 0 < k) (block : Block) (there : unwritten[k]? = some block) : block = zeros := by
    match k, positive, there with
    | 1, _, there => exact (Option.some.inj there).symm
    | 2, _, there => exact (Option.some.inj there).symm
  have nested : ProperlyNested unwritten := nested_table rfl (by decide) rest
  have listed : (⟨5, 1, 1⟩ : PartitionTableEntry) ∈ extendedAt unwritten 0 := by
    rw [extendedAt_table rfl]
    exact List.mem_singleton_self _
  have stuck (fuel : Nat) : readPartitionTable unwritten fuel 0 0 0 = none :=
    never_returns listed (by decide) listed (by decide) (by decide) (.inl rfl)
  refine ⟨nested, ⟨by decide, 1, .single ⟨_, listed, rfl⟩⟩, stuck, ?_⟩
  rintro ⟨fuel, _, _, ran, _⟩
  rw [stuck fuel] at ran
  cases ran

end Example

end Comp310.Proofs.PartitionScan
