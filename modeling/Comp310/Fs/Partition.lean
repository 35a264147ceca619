import Mathlib.Logic.Relation
import Comp310.Fs.Cache
import Comp310.Lib.Words

/-! The search for partitions on a device (partition.c). What it prints and what it
reads and registers is its result, in order. -/

namespace Comp310.Fs
open Comp310.Lib

/-- `struct partition_table_entry`. -/
structure PartitionTableEntry where
  type : UInt8
  offset : UInt32
  size : UInt32
  deriving DecidableEq

/-- `struct partition_table`. -/
structure PartitionTable where
  partitions : List PartitionTableEntry
  signature : Nat

/-- The entry of 16 bytes from `start` on. -/
def partitionEntry (block : Block) (start : Nat) (inside : start + 16 ≤ 512) : PartitionTableEntry where
  type := block[start + 4]
  offset := joinBytes block[start + 8] block[start + 9] block[start + 10] block[start + 11]
  size := joinBytes block[start + 12] block[start + 13] block[start + 14] block[start + 15]

def PartitionTable.ofBlock (block : Block) : PartitionTable where
  partitions := [partitionEntry block 446 (by decide), partitionEntry block 462 (by decide), partitionEntry block 478 (by decide),
    partitionEntry block 494 (by decide)]
  signature := block[510].toNat + 256 * block[511].toNat

inductive PartitionEvent where
  | pastEnd (sector : Sector)
  | read (sector : Sector)
  | invalid (sector : Sector) (extended : Bool)
  | extended (sector : Sector)
  | startsPastEnd (partNr : Nat) (start : Sector)
  | endsPastEnd (partNr : Nat) (stop : Sector)
  | register (partNr : Nat) (start size : Sector)
  deriving DecidableEq

def foundPartition (device : Array Block) (start size : Sector) (partNr : Nat) : PartitionEvent :=
  if device.size ≤ start.toNat then .startsPastEnd partNr start
  else if start + size < start ∨ device.size < (start + size).toNat then .endsPastEnd partNr (start + size)
  else .register partNr start size

def PartitionTableEntry.empty (e : PartitionTableEntry) : Bool := e.size == 0 || e.type == 0

/-- The types of extended partitions, of which the offset leads to another table. -/
def PartitionTableEntry.extended (e : PartitionTableEntry) : Bool :=
  e.type == 0x05 || e.type == 0x0f || e.type == 0x85 || e.type == 0xc5

/-- The sector of the next table and that of the first extended one. -/
def nextTable (sector primaryExtendedSector : Sector) (e : PartitionTableEntry) : Sector × Sector :=
  if sector = 0 then (e.offset, e.offset) else (e.offset + primaryExtendedSector, primaryExtendedSector)

/-- The loop over the entries, with the call for the tables that they lead to. -/
def parsePartitions (device : Array Block) (call : Sector → Sector → Nat → Option (Nat × List PartitionEvent))
    (sector primaryExtendedSector : Sector) : List PartitionTableEntry → Nat → Option (Nat × List PartitionEvent)
  | [], partNr => some (partNr, [])
  | e :: rest, partNr =>
    if e.empty then parsePartitions device call sector primaryExtendedSector rest partNr
    else if e.extended then do
      let (next, primary) := nextTable sector primaryExtendedSector e
      let (partNr, inner) ← call next primary partNr
      let (partNr, after) ← parsePartitions device call sector primaryExtendedSector rest partNr
      some (partNr, .extended sector :: inner ++ after)
    else do
      let (last, after) ← parsePartitions device call sector primaryExtendedSector rest (partNr + 1)
      some (last, foundPartition device (e.offset + sector) e.size (partNr + 1) :: after)

/-- Calls nest no deeper than the fuel allows. -/
def readPartitionTable (device : Array Block) : Nat → Sector → Sector → Nat → Option (Nat × List PartitionEvent)
  | 0, _, _, _ => none
  | fuel + 1, sector, primaryExtendedSector, partNr =>
    if device.size ≤ sector.toNat then some (partNr, [.pastEnd sector])
    else do
      -- whatever the sector, the table that is read is the one in sector 0
      let block ← device[0]?
      let table := PartitionTable.ofBlock block
      if table.signature ≠ 0xaa55 then some (partNr, [.read 0, .invalid sector (primaryExtendedSector != 0)])
      else do
        let (partNr, events) ← parsePartitions device (readPartitionTable device fuel) sector primaryExtendedSector table.partitions partNr
        some (partNr, .read 0 :: events)

end Comp310.Fs
