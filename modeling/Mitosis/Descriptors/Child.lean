import Mitosis.Descriptors.Parent
import Mitosis.RemoteMapping.Mapping

/-!
# The child descriptor

The child reads the parent's buffer with a decoder of its own, which inserts
each entry into the page table as soon as it is read.  `toDescriptor` is the
other way to the same kind of descriptor: decode everything with the parent's
decoder and insert afterwards.
-/

namespace Mitosis.Descriptors

open Support OsNetwork RemoteMapping
open Support.Codec (u64 u32)

/-- The descriptor of a forked process at the child, without the prefetcher. -/
structure ChildDescriptor where
  regs : RegDescriptor
  pageTable : RemotePageTable
  vma : List VMADescriptor
  machineInfo : RDMADescriptor
deriving DecidableEq

/-- `pt.map(VirtAddr::new(virt as VirtAddrType + start), PhysAddr::new(phy))`:
a sum that overflows panics, and so does one that `VirtAddr::new` does not take. -/
def mapEntry (start : UInt64) (s : Heap × RemotePageTable)
    (e : UInt32 × UInt64) : Outcome (Heap × RemotePageTable) := do
  let sum ← Outcome.checked (e.1.toNat + start.toNat)
  let addr ← Outcome.unwrap (VirtAddr.new sum)
  .ok (s.2.map s.1 addr e.2.toNat).1

namespace ParentDescriptor

/-- The loop over the entries of one table. -/
def mapTable (start : UInt64) :
    List (UInt32 × UInt64) → Heap × RemotePageTable →
      Outcome (Heap × RemotePageTable)
  | [], s => .ok s
  | e :: es, s => do
    let s ← mapEntry start s e
    mapTable start es s

/-- The loop over the tables; the area of a table is looked up by index. -/
def mapTables (vmas : List VMADescriptor) :
    ℕ → List CompactPageTable → Heap × RemotePageTable →
      Outcome (Heap × RemotePageTable)
  | _, [], s => .ok s
  | i, t :: ts, s => do
    let vma ← Outcome.unwrap vmas[i]?
    let s ← mapTable vma.getStart t.innerPgTable s
    mapTables vmas (i + 1) ts s

/-- Transform the parent descriptor to a child descriptor. -/
def toDescriptor (d : ParentDescriptor) (h : Heap) :
    Outcome (Heap × ChildDescriptor) := do
  let s ← mapTables d.vma 0 d.pageTable (RemotePageTable.new h)
  .ok (s.1, ⟨d.regs, s.2, d.vma, d.machineInfo⟩)

end ParentDescriptor

namespace ChildDescriptor

def lookupPgTable (h : Heap) (c : ChildDescriptor) (virt : UInt64) :
    Outcome (Option PhysAddr) := do
  let addr ← Outcome.unwrap (VirtAddr.new virt.toNat)
  .ok (c.pageTable.translate h addr)

variable (L : Layout)

def readEntries (start : UInt64) :
    ℕ → BytesMut → Memory → Heap × RemotePageTable →
      Outcome ((Heap × RemotePageTable) × BytesMut)
  | 0, cur, _, s => .ok (s, cur)
  | n + 1, cur, m, s => do
    let virt := cur.readUnalignedAtHead u32 m
    let cur ← Outcome.orAbsent (cur.truncateHeader u32.size)
    let phy := cur.readUnalignedAtHead u64 m
    let cur ← Outcome.orAbsent (cur.truncateHeader u64.size)
    let s ← mapEntry start s (virt, phy)
    readEntries start n cur m s

/-- The padding rule, written out in the loop over the areas. -/
def readPad (pageNum : ℕ) (cur : BytesMut) (m : Memory) :
    Outcome BytesMut :=
  if pageNum % 2 = 1 then do
    let (_, off) ← Outcome.orAbsent (cur.memcpyDeserialize u32 m)
    Outcome.orAbsent (cur.truncateHeader off)
  else
    .ok cur

def readTables :
    ℕ → BytesMut → Memory → Heap × RemotePageTable →
      Outcome (List VMADescriptor × (Heap × RemotePageTable) × BytesMut)
  | 0, cur, _, s => .ok ([], s, cur)
  | n + 1, cur, m, s => do
    let vma ← Outcome.orAbsent (cur.deserialize L.vma m)
    let cur ← Outcome.orAbsent (cur.truncateHeader L.vma.size)
    let (pageNum, off) ← Outcome.orAbsent (cur.memcpyDeserialize u64 m)
    let cur ← Outcome.orAbsent (cur.truncateHeader off)
    let cur ← readPad pageNum.toNat cur m
    let (s, cur) ← readEntries vma.getStart pageNum.toNat cur m s
    let (vmas, s, cur) ← readTables n cur m s
    .ok (vma :: vmas, s, cur)

def deserialize (h : Heap) (bytes : BytesMut) (m : Memory) :
    Outcome (Heap × ChildDescriptor) := do
  let cur ← Outcome.unwrap (bytes.truncateHeader 0)
  let regs ← Outcome.orAbsent (cur.deserialize L.regs m)
  let cur ← Outcome.orAbsent (cur.truncateHeader L.regs.size)
  let (count, off) ← Outcome.orAbsent (cur.memcpyDeserialize u64 m)
  let cur ← Outcome.orAbsent (cur.truncateHeader off)
  let (vmas, s, cur) ←
    readTables L count.toNat cur m (RemotePageTable.new h)
  let machineInfo ← Outcome.orAbsent (cur.deserialize L.rdma m)
  .ok (s.1, ⟨regs, s.2, vmas, machineInfo⟩)

end ChildDescriptor

end Mitosis.Descriptors
