import Mitosis.Descriptors.Basic

/-!
# The parent descriptor and its byte format

`ParentDescriptor` is written as

    registers | number of areas | area, table | … | area, table | machine info

and each table as

    number of entries | padding if the number is odd | offset, word | …

The writer, the reader and the length computation move their cursors
independently of each other.  Lengths are natural numbers here: a table entry
takes sixteen bytes in memory and twelve in the format, so the length of a
descriptor that exists in memory does not overflow.
-/

namespace Mitosis.Descriptors

open Support OsNetwork
open Support.Codec (u64 u32)

/-- The condensed page table of one area: pairs of an offset from the start of
the area and a page-table word. -/
structure CompactPageTable where
  innerPgTable : List (UInt32 × UInt64)
deriving DecidableEq

namespace CompactPageTable

def default : CompactPageTable := ⟨[]⟩

def addOne (t : CompactPageTable) (offset : UInt32) (val : UInt64) :
    CompactPageTable :=
  ⟨t.innerPgTable ++ [(offset, val)]⟩

def tableLen (t : CompactPageTable) : ℕ := t.innerPgTable.length

def serializationBufLen (t : CompactPageTable) : ℕ :=
  let base := u64.size + t.innerPgTable.length * (u32.size + u64.size)
  if t.tableLen % 2 = 1 then base + u32.size else base

def writeEntries :
    List (UInt32 × UInt64) → BytesMut → Memory → Outcome (Memory × BytesMut)
  | [], cur, m => .ok (m, cur)
  | (offset, paddr) :: es, cur, m => do
    let (m, sz) := cur.writeUnalignedAtHead u32 m offset
    let cur ← Outcome.unwrap (cur.truncateHeader sz)
    let (m, sz) := cur.writeUnalignedAtHead u64 m paddr
    let cur ← Outcome.unwrap (cur.truncateHeader sz)
    writeEntries es cur m

/-- The padding in front of an odd number of entries. -/
def writePad (count : ℕ) (cur : BytesMut) (m : Memory) :
    Outcome (Memory × BytesMut) :=
  if count % 2 = 1 then do
    let r := cur.memcpySerializeAt u32 m 0 0
    let sz ← Outcome.unwrap r.2
    let cur ← Outcome.unwrap (cur.truncateHeader sz)
    .ok (r.1, cur)
  else
    .ok (m, cur)

def serialize (t : CompactPageTable) (bytes : BytesMut) (m : Memory) :
    Outcome (Memory × Bool) :=
  if bytes.len < t.serializationBufLen then
    .ok (m, false)
  else do
    let cur ← Outcome.unwrap (bytes.truncateHeader 0)
    let r := cur.memcpySerializeAt u64 m 0 (.ofNat t.innerPgTable.length)
    let sz ← Outcome.unwrap r.2
    let cur ← Outcome.unwrap (cur.truncateHeader sz)
    let (m, cur) ← writePad t.tableLen cur r.1
    let (m, _) ← writeEntries t.innerPgTable cur m
    .ok (m, true)

/-- The loop that reads the entries.  Both reads are made before the length of
the window is checked. -/
def readEntries :
    ℕ → BytesMut → Memory → Outcome (List (UInt32 × UInt64) × BytesMut)
  | 0, cur, _ => .ok ([], cur)
  | n + 1, cur, m => do
    let virt := cur.readUnalignedAtHead u32 m
    let cur ← Outcome.orAbsent (cur.truncateHeader u32.size)
    let phy := cur.readUnalignedAtHead u64 m
    let cur ← Outcome.orAbsent (cur.truncateHeader u64.size)
    let (es, cur) ← readEntries n cur m
    .ok ((virt, phy) :: es, cur)

/-- Skip the padding in front of an odd number of entries. -/
def readPad (count : ℕ) (cur : BytesMut) (m : Memory) : Outcome BytesMut :=
  if count % 2 = 1 then do
    let (_, off) ← Outcome.orAbsent (cur.memcpyDeserialize u32 m)
    Outcome.orAbsent (cur.truncateHeader off)
  else
    .ok cur

def deserialize (bytes : BytesMut) (m : Memory) :
    Outcome CompactPageTable := do
  let cur ← Outcome.unwrap (bytes.truncateHeader 0)
  let (count, off) ← Outcome.orAbsent (cur.memcpyDeserialize u64 m)
  let cur ← Outcome.orAbsent (cur.truncateHeader off)
  let cur ← readPad count.toNat cur m
  let (es, _) ← readEntries count.toNat cur m
  .ok ⟨es⟩

end CompactPageTable

/-- The descriptor of a forked process at its parent: one table for each
area. -/
structure ParentDescriptor where
  regs : RegDescriptor
  pageTable : List CompactPageTable
  vma : List VMADescriptor
  machineInfo : RDMADescriptor
deriving DecidableEq

/-- What a serialisation leaves behind.  `dropped` collects the results of the
inner `serialize` calls, which the source does not look at. -/
structure Serialized where
  memory : Memory
  returned : Bool
  dropped : List Bool

namespace ParentDescriptor

variable (L : Layout)

def vmaPgTableSerializationBufLen (d : ParentDescriptor) : ℕ :=
  u64.size + (d.pageTable.map CompactPageTable.serializationBufLen).sum

def serializationBufLen (d : ParentDescriptor) : ℕ :=
  L.regs.size + d.vmaPgTableSerializationBufLen + u64.size +
    d.vma.length * L.vma.size + L.rdma.size

/-- The loop that writes areas and tables; `i` is the index of the next
table.  The area of a table is looked up by index. -/
def writeTables (vmas : List VMADescriptor) :
    ℕ → List CompactPageTable → BytesMut → Memory →
      Outcome (Memory × BytesMut × List Bool)
  | _, [], cur, m => .ok (m, cur, [])
  | i, t :: ts, cur, m => do
    let vma ← Outcome.unwrap vmas[i]?
    let (m, vmaDone) := cur.serialize L.vma m vma
    let cur ← Outcome.unwrap (cur.truncateHeader L.vma.size)
    let (m, tableDone) ← t.serialize cur m
    let cur ← Outcome.unwrap (cur.truncateHeader t.serializationBufLen)
    let (m, cur, dropped) ← writeTables vmas (i + 1) ts cur m
    .ok (m, cur, vmaDone :: tableDone :: dropped)

def serialize (d : ParentDescriptor) (bytes : BytesMut) (m : Memory) :
    Outcome Serialized :=
  if bytes.len < d.serializationBufLen L then
    .ok ⟨m, false, []⟩
  else do
    let cur ← Outcome.unwrap (bytes.truncateHeader 0)
    let (m, regsDone) := cur.serialize L.regs m d.regs
    let cur ← Outcome.unwrap (cur.truncateHeader L.regs.size)
    let r := cur.memcpySerializeAt u64 m 0 (.ofNat d.pageTable.length)
    let sz ← Outcome.unwrap r.2
    let cur ← Outcome.unwrap (cur.truncateHeader sz)
    Outcome.assert (d.vma.length = d.pageTable.length)
    let (m, cur, dropped) ← writeTables L d.vma 0 d.pageTable cur r.1
    let (m, infoDone) := cur.serialize L.rdma m d.machineInfo
    .ok ⟨m, true, regsDone :: (dropped ++ [infoDone])⟩

def readTables :
    ℕ → BytesMut → Memory →
      Outcome (List VMADescriptor × List CompactPageTable × BytesMut)
  | 0, cur, _ => .ok ([], [], cur)
  | n + 1, cur, m => do
    let vma ← Outcome.orAbsent (cur.deserialize L.vma m)
    let cur ← Outcome.orAbsent (cur.truncateHeader L.vma.size)
    let table ← CompactPageTable.deserialize cur m
    let cur ← Outcome.orAbsent
      (cur.truncateHeader table.serializationBufLen)
    let (vmas, tables, cur) ← readTables n cur m
    .ok (vma :: vmas, table :: tables, cur)

def deserialize (bytes : BytesMut) (m : Memory) :
    Outcome ParentDescriptor := do
  let cur ← Outcome.unwrap (bytes.truncateHeader 0)
  let regs ← Outcome.orAbsent (cur.deserialize L.regs m)
  let cur ← Outcome.orAbsent (cur.truncateHeader L.regs.size)
  let (count, off) ← Outcome.orAbsent (cur.memcpyDeserialize u64 m)
  let cur ← Outcome.orAbsent (cur.truncateHeader off)
  let (vmas, tables, cur) ← readTables L count.toNat cur m
  let machineInfo ← Outcome.orAbsent (cur.deserialize L.rdma m)
  .ok ⟨regs, tables, vmas, machineInfo⟩

end ParentDescriptor

end Mitosis.Descriptors
