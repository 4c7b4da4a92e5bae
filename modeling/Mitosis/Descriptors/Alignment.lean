import Mitosis.Descriptors.Decoders
import Mitosis.Support.Logged

/-!
# Where the descriptors are accessed

The writer and the two readers once more, with the log of their accesses to the
buffer.  A typed copy of a count, a padding word or a struct needs an aligned
address; the entries of the tables are accessed without that.

An entry takes twelve bytes, and the padding in front of an odd number of
entries makes the size of a table a multiple of eight.  All cursors that a typed
copy uses are therefore as aligned as the start of the buffer.
-/

namespace Mitosis.Descriptors

open Support OsNetwork RemoteMapping
open Support.Codec (u64 u32)

/-- What is accessed: the structs, the counts, the padding, and the offsets and
words of the entries. -/
inductive Field where
  | regs
  | count
  | vma
  | pad
  | entry
  | info
deriving DecidableEq

/-- An access to the buffer. -/
structure Access where
  field : Field
  addr : ℕ
deriving DecidableEq

/-- Only entries may be accessed at any address. -/
def Access.Aligned (a : Access) : Prop := a.field ≠ .entry → 8 ∣ a.addr
deriving Decidable

variable {α : Type}

/-- A typed copy of `size` bytes at the head of a window, which is made only if
they fit. -/
def typed (field : Field) (cur : BytesMut) (size : ℕ) (o : Outcome α) : Logged Access α :=
  ⟨o, if size ≤ cur.len then [⟨field, cur.ptr⟩] else []⟩

/-- An unaligned access at the head of a window, which is made in any case. -/
def unaligned (cur : BytesMut) (a : α) : Logged Access α := ⟨.ok a, [⟨.entry, cur.ptr⟩]⟩

@[simp] theorem outcome_typed (field : Field) (cur : BytesMut) (size : ℕ) (o : Outcome α) :
    (typed field cur size o).outcome = o := rfl

@[simp] theorem outcome_unaligned (cur : BytesMut) (a : α) :
    (unaligned cur a).outcome = .ok a := rfl

/-! ## The accesses of the writer -/

namespace CompactPageTable

def writeEntriesLogged :
    List (UInt32 × UInt64) → BytesMut → Memory → Logged Access (Memory × BytesMut)
  | [], cur, m => .lift (.ok (m, cur))
  | (offset, paddr) :: es, cur, m => do
    let (m, sz) ← unaligned cur (cur.writeUnalignedAtHead u32 m offset)
    let cur ← .lift (Outcome.unwrap (cur.truncateHeader sz))
    let (m, sz) ← unaligned cur (cur.writeUnalignedAtHead u64 m paddr)
    let cur ← .lift (Outcome.unwrap (cur.truncateHeader sz))
    writeEntriesLogged es cur m

def writePadLogged (count : ℕ) (cur : BytesMut) (m : Memory) :
    Logged Access (Memory × BytesMut) :=
  if count % 2 = 1 then do
    let r ← typed .pad cur u32.size (.ok (cur.memcpySerializeAt u32 m 0 0))
    let sz ← .lift (Outcome.unwrap r.2)
    let cur ← .lift (Outcome.unwrap (cur.truncateHeader sz))
    .lift (.ok (r.1, cur))
  else
    .lift (.ok (m, cur))

def serializeLogged (t : CompactPageTable) (bytes : BytesMut) (m : Memory) :
    Logged Access (Memory × Bool) :=
  if bytes.len < t.serializationBufLen then
    .lift (.ok (m, false))
  else do
    let cur ← .lift (Outcome.unwrap (bytes.truncateHeader 0))
    let r ← typed .count cur u64.size
      (.ok (cur.memcpySerializeAt u64 m 0 (.ofNat t.innerPgTable.length)))
    let sz ← .lift (Outcome.unwrap r.2)
    let cur ← .lift (Outcome.unwrap (cur.truncateHeader sz))
    let (m, cur) ← writePadLogged t.tableLen cur r.1
    let (m, _) ← writeEntriesLogged t.innerPgTable cur m
    .lift (.ok (m, true))

end CompactPageTable

namespace ParentDescriptor

variable (L : Layout)

def writeTablesLogged (vmas : List VMADescriptor) :
    ℕ → List CompactPageTable → BytesMut → Memory →
      Logged Access (Memory × BytesMut × List Bool)
  | _, [], cur, m => .lift (.ok (m, cur, []))
  | i, t :: ts, cur, m => do
    let vma ← .lift (Outcome.unwrap vmas[i]?)
    let (m, vmaDone) ← typed .vma cur L.vma.size (.ok (cur.serialize L.vma m vma))
    let cur ← .lift (Outcome.unwrap (cur.truncateHeader L.vma.size))
    let (m, tableDone) ← t.serializeLogged cur m
    let cur ← .lift (Outcome.unwrap (cur.truncateHeader t.serializationBufLen))
    let (m, cur, dropped) ← writeTablesLogged vmas (i + 1) ts cur m
    .lift (.ok (m, cur, vmaDone :: tableDone :: dropped))

def serializeLogged (d : ParentDescriptor) (bytes : BytesMut) (m : Memory) :
    Logged Access Serialized :=
  if bytes.len < d.serializationBufLen L then
    .lift (.ok ⟨m, false, []⟩)
  else do
    let cur ← .lift (Outcome.unwrap (bytes.truncateHeader 0))
    let (m, regsDone) ← typed .regs cur L.regs.size (.ok (cur.serialize L.regs m d.regs))
    let cur ← .lift (Outcome.unwrap (cur.truncateHeader L.regs.size))
    let r ← typed .count cur u64.size
      (.ok (cur.memcpySerializeAt u64 m 0 (.ofNat d.pageTable.length)))
    let sz ← .lift (Outcome.unwrap r.2)
    let cur ← .lift (Outcome.unwrap (cur.truncateHeader sz))
    let _ ← .lift (Outcome.assert (d.vma.length = d.pageTable.length))
    let (m, cur, dropped) ← writeTablesLogged L d.vma 0 d.pageTable cur r.1
    let (m, infoDone) ← typed .info cur L.rdma.size (.ok (cur.serialize L.rdma m d.machineInfo))
    .lift (.ok ⟨m, true, regsDone :: (dropped ++ [infoDone])⟩)

end ParentDescriptor

/-! ## The accesses of the readers -/

namespace CompactPageTable

def readEntriesLogged :
    ℕ → BytesMut → Memory → Logged Access (List (UInt32 × UInt64) × BytesMut)
  | 0, cur, _ => .lift (.ok ([], cur))
  | n + 1, cur, m => do
    let virt ← unaligned cur (cur.readUnalignedAtHead u32 m)
    let cur ← .lift (Outcome.orAbsent (cur.truncateHeader u32.size))
    let phy ← unaligned cur (cur.readUnalignedAtHead u64 m)
    let cur ← .lift (Outcome.orAbsent (cur.truncateHeader u64.size))
    let (es, cur) ← readEntriesLogged n cur m
    .lift (.ok ((virt, phy) :: es, cur))

/-- Both readers skip the padding in this way. -/
def readPadLogged (count : ℕ) (cur : BytesMut) (m : Memory) : Logged Access BytesMut :=
  if count % 2 = 1 then do
    let (_, off) ← typed .pad cur u32.size (Outcome.orAbsent (cur.memcpyDeserialize u32 m))
    .lift (Outcome.orAbsent (cur.truncateHeader off))
  else
    .lift (.ok cur)

def deserializeLogged (bytes : BytesMut) (m : Memory) : Logged Access CompactPageTable := do
  let cur ← .lift (Outcome.unwrap (bytes.truncateHeader 0))
  let (count, off) ← typed .count cur u64.size (Outcome.orAbsent (cur.memcpyDeserialize u64 m))
  let cur ← .lift (Outcome.orAbsent (cur.truncateHeader off))
  let cur ← readPadLogged count.toNat cur m
  let (es, _) ← readEntriesLogged count.toNat cur m
  .lift (.ok ⟨es⟩)

end CompactPageTable

namespace ParentDescriptor

variable (L : Layout)

def readTablesLogged :
    ℕ → BytesMut → Memory →
      Logged Access (List VMADescriptor × List CompactPageTable × BytesMut)
  | 0, cur, _ => .lift (.ok ([], [], cur))
  | n + 1, cur, m => do
    let vma ← typed .vma cur L.vma.size (Outcome.orAbsent (cur.deserialize L.vma m))
    let cur ← .lift (Outcome.orAbsent (cur.truncateHeader L.vma.size))
    let table ← CompactPageTable.deserializeLogged cur m
    let cur ← .lift (Outcome.orAbsent (cur.truncateHeader table.serializationBufLen))
    let (vmas, tables, cur) ← readTablesLogged n cur m
    .lift (.ok (vma :: vmas, table :: tables, cur))

def deserializeLogged (bytes : BytesMut) (m : Memory) : Logged Access ParentDescriptor := do
  let cur ← .lift (Outcome.unwrap (bytes.truncateHeader 0))
  let regs ← typed .regs cur L.regs.size (Outcome.orAbsent (cur.deserialize L.regs m))
  let cur ← .lift (Outcome.orAbsent (cur.truncateHeader L.regs.size))
  let (count, off) ← typed .count cur u64.size (Outcome.orAbsent (cur.memcpyDeserialize u64 m))
  let cur ← .lift (Outcome.orAbsent (cur.truncateHeader off))
  let (vmas, tables, cur) ← readTablesLogged L count.toNat cur m
  let machineInfo ← typed .info cur L.rdma.size (Outcome.orAbsent (cur.deserialize L.rdma m))
  .lift (.ok ⟨regs, tables, vmas, machineInfo⟩)

end ParentDescriptor

namespace ChildDescriptor

variable (L : Layout)

def readEntriesLogged (start : UInt64) :
    ℕ → BytesMut → Memory → Heap × RemotePageTable →
      Logged Access ((Heap × RemotePageTable) × BytesMut)
  | 0, cur, _, s => .lift (.ok (s, cur))
  | n + 1, cur, m, s => do
    let virt ← unaligned cur (cur.readUnalignedAtHead u32 m)
    let cur ← .lift (Outcome.orAbsent (cur.truncateHeader u32.size))
    let phy ← unaligned cur (cur.readUnalignedAtHead u64 m)
    let cur ← .lift (Outcome.orAbsent (cur.truncateHeader u64.size))
    let s ← .lift (mapEntry start s (virt, phy))
    readEntriesLogged start n cur m s

def readTablesLogged :
    ℕ → BytesMut → Memory → Heap × RemotePageTable →
      Logged Access (List VMADescriptor × (Heap × RemotePageTable) × BytesMut)
  | 0, cur, _, s => .lift (.ok ([], s, cur))
  | n + 1, cur, m, s => do
    let vma ← typed .vma cur L.vma.size (Outcome.orAbsent (cur.deserialize L.vma m))
    let cur ← .lift (Outcome.orAbsent (cur.truncateHeader L.vma.size))
    let (pageNum, off) ← typed .count cur u64.size
      (Outcome.orAbsent (cur.memcpyDeserialize u64 m))
    let cur ← .lift (Outcome.orAbsent (cur.truncateHeader off))
    let cur ← CompactPageTable.readPadLogged pageNum.toNat cur m
    let (s, cur) ← readEntriesLogged vma.getStart pageNum.toNat cur m s
    let (vmas, s, cur) ← readTablesLogged n cur m s
    .lift (.ok (vma :: vmas, s, cur))

def deserializeLogged (h : Heap) (bytes : BytesMut) (m : Memory) :
    Logged Access (Heap × ChildDescriptor) := do
  let cur ← .lift (Outcome.unwrap (bytes.truncateHeader 0))
  let regs ← typed .regs cur L.regs.size (Outcome.orAbsent (cur.deserialize L.regs m))
  let cur ← .lift (Outcome.orAbsent (cur.truncateHeader L.regs.size))
  let (count, off) ← typed .count cur u64.size (Outcome.orAbsent (cur.memcpyDeserialize u64 m))
  let cur ← .lift (Outcome.orAbsent (cur.truncateHeader off))
  let (vmas, s, cur) ← readTablesLogged L count.toNat cur m (RemotePageTable.new h)
  let machineInfo ← typed .info cur L.rdma.size (Outcome.orAbsent (cur.deserialize L.rdma m))
  .lift (.ok (s.1, ⟨regs, s.2, vmas, machineInfo⟩))

end ChildDescriptor

/-! ## Without the log -/

namespace CompactPageTable
theorem outcome_writeEntriesLogged (es : List (UInt32 × UInt64)) (cur : BytesMut) (m : Memory) :
    (writeEntriesLogged es cur m).outcome = writeEntries es cur m := by
  induction es generalizing cur m with
  | nil => rfl
  | cons e es ih => simp [writeEntriesLogged, writeEntries, ih]

theorem outcome_writePadLogged (count : ℕ) (cur : BytesMut) (m : Memory) :
    (writePadLogged count cur m).outcome = writePad count cur m := by
  unfold writePadLogged writePad
  split <;> simp

theorem outcome_serializeLogged (t : CompactPageTable) (b : BytesMut) (m : Memory) :
    (t.serializeLogged b m).outcome = t.serialize b m := by
  unfold serializeLogged serialize
  split <;> simp [outcome_writePadLogged, outcome_writeEntriesLogged]

theorem outcome_readEntriesLogged (n : ℕ) (cur : BytesMut) (m : Memory) :
    (readEntriesLogged n cur m).outcome = readEntries n cur m := by
  induction n generalizing cur with
  | zero => rfl
  | succ n ih => simp [readEntriesLogged, readEntries, ih]

theorem outcome_readPadLogged (count : ℕ) (cur : BytesMut) (m : Memory) :
    (readPadLogged count cur m).outcome = readPad count cur m := by
  unfold readPadLogged readPad
  split <;> simp

theorem outcome_deserializeLogged (b : BytesMut) (m : Memory) :
    (deserializeLogged b m).outcome = deserialize b m := by
  simp [deserializeLogged, deserialize, outcome_readPadLogged, outcome_readEntriesLogged]
end CompactPageTable

namespace ParentDescriptor

variable (L : Layout)

theorem outcome_writeTablesLogged (vmas : List VMADescriptor) (i : ℕ) (ts : List CompactPageTable)
    (cur : BytesMut) (m : Memory) :
    (writeTablesLogged L vmas i ts cur m).outcome = writeTables L vmas i ts cur m := by
  induction ts generalizing i cur m with
  | nil => rfl
  | cons t ts ih =>
    simp [writeTablesLogged, writeTables, ih, CompactPageTable.outcome_serializeLogged]

theorem outcome_serializeLogged (d : ParentDescriptor) (b : BytesMut) (m : Memory) :
    (d.serializeLogged L b m).outcome = d.serialize L b m := by
  unfold serializeLogged serialize
  split <;> simp [outcome_writeTablesLogged]

theorem outcome_readTablesLogged (n : ℕ) (cur : BytesMut) (m : Memory) :
    (readTablesLogged L n cur m).outcome = readTables L n cur m := by
  induction n generalizing cur with
  | zero => rfl
  | succ n ih =>
    simp [readTablesLogged, readTables, ih, CompactPageTable.outcome_deserializeLogged]

theorem outcome_deserializeLogged (b : BytesMut) (m : Memory) :
    (deserializeLogged L b m).outcome = deserialize L b m := by
  simp [deserializeLogged, deserialize, outcome_readTablesLogged]
end ParentDescriptor

namespace ChildDescriptor

variable (L : Layout)

theorem outcome_readEntriesLogged (start : UInt64) (n : ℕ) (cur : BytesMut) (m : Memory)
    (s : Heap × RemotePageTable) :
    (readEntriesLogged start n cur m s).outcome = readEntries start n cur m s := by
  induction n generalizing cur s with
  | zero => rfl
  | succ n ih => simp [readEntriesLogged, readEntries, ih]

theorem outcome_readTablesLogged (n : ℕ) (cur : BytesMut) (m : Memory)
    (s : Heap × RemotePageTable) :
    (readTablesLogged L n cur m s).outcome = readTables L n cur m s := by
  induction n generalizing cur s with
  | zero => rfl
  | succ n ih =>
    simp [readTablesLogged, readTables, ih, outcome_readEntriesLogged, child_readPad_eq,
      CompactPageTable.outcome_readPadLogged]

theorem outcome_deserializeLogged (h : Heap) (b : BytesMut) (m : Memory) :
    (deserializeLogged L h b m).outcome = deserialize L h b m := by
  simp [deserializeLogged, deserialize, outcome_readTablesLogged]
end ChildDescriptor
/-! ## Aligned cursors -/

variable {c : Codec α}

theorem truncateHeader_ptr {cur cur' : BytesMut} {off : ℕ}
    (h : cur.truncateHeader off = some cur') : cur'.ptr = cur.ptr + off := by
  unfold BytesMut.truncateHeader at h
  split at h
  · cases h
    rfl
  · cases h

theorem memcpySerializeAt_size {cur : BytesMut} {m : Memory} {off sz : ℕ} {v : α}
    (h : (cur.memcpySerializeAt c m off v).2 = some sz) : sz = c.size := by
  unfold BytesMut.memcpySerializeAt at h
  cases htail : cur.truncateHeader off with
  | none =>
    rw [htail] at h
    cases h
  | some tail =>
    rw [htail] at h
    dsimp only [BytesMut.memcpySerialize] at h
    split at h
    · exact (Option.some.inj h).symm
    · cases h

theorem memcpyDeserialize_size {cur : BytesMut} {m : Memory} {r : α × ℕ}
    (h : cur.memcpyDeserialize c m = some r) : r.2 = c.size := by
  unfold BytesMut.memcpyDeserialize at h
  split at h
  · cases h
    rfl
  · cases h

variable {cur : BytesMut} {m : Memory}

variable {field : Field} {size : ℕ}

theorem meets_typed {o : Outcome α} {post : α → Prop}
    (hcur : 8 ∣ cur.ptr) (h : ∀ a, o = .ok a → post a) :
    (typed field cur size o).Meets Access.Aligned post := by
  refine ⟨?_, h⟩
  intro a ha
  unfold typed at ha
  split at ha
  · rw [List.mem_singleton.mp ha]
    exact fun _ => hcur
  · cases ha

theorem meets_struct (hcur : 8 ∣ cur.ptr) (o : Outcome α) :
    (typed field cur size o).Meets Access.Aligned fun _ => True :=
  meets_typed hcur fun _ _ => trivial

theorem meets_number (hcur : 8 ∣ cur.ptr) :
    (typed field cur size (Outcome.orAbsent (cur.memcpyDeserialize c m))).Meets Access.Aligned
      fun r => r.2 = c.size :=
  meets_typed hcur fun _ h => memcpyDeserialize_size (Outcome.orAbsent_eq_ok.mp h)

theorem meets_unaligned (cur : BytesMut) (a : α) :
    (unaligned cur a).Meets Access.Aligned fun b => b = a := by
  constructor
  · intro access haccess hentry
    rw [List.mem_singleton.mp haccess] at hentry
    exact absurd rfl hentry
  · intro b hb
    exact (Except.ok.inj hb).symm

theorem meets_unwrap_truncate (cur : BytesMut) (off : ℕ) :
    (Logged.lift (Outcome.unwrap (cur.truncateHeader off))).Meets Access.Aligned
      fun cur' => cur'.ptr = cur.ptr + off :=
  Logged.meets_lift fun _ h => truncateHeader_ptr (Outcome.unwrap_eq_ok.mp h)

theorem meets_truncate (cur : BytesMut) (off : ℕ) :
    (Logged.lift (Outcome.orAbsent (cur.truncateHeader off))).Meets Access.Aligned
      fun cur' => cur'.ptr = cur.ptr + off :=
  Logged.meets_lift fun _ h => truncateHeader_ptr (Outcome.orAbsent_eq_ok.mp h)

theorem meets_written {v : α} (hcur : 8 ∣ cur.ptr) :
    (typed field cur size (.ok (cur.memcpySerializeAt c m 0 v))).Meets Access.Aligned
      fun r => ∀ sz, Outcome.unwrap r.2 = .ok sz → sz = c.size := by
  apply meets_typed hcur
  rintro r ⟨⟩ sz hsz
  exact memcpySerializeAt_size (Outcome.unwrap_eq_ok.mp hsz)

/-! ## The writer -/

namespace CompactPageTable

theorem eight_dvd_serializationBufLen (t : CompactPageTable) : 8 ∣ t.serializationBufLen := by
  have hlen : t.tableLen = t.innerPgTable.length := rfl
  have hodd : u64.size + t.innerPgTable.length * (u32.size + u64.size) =
      8 + 12 * t.innerPgTable.length := by
    rw [Codec.u64_size, Codec.u32_size, Nat.mul_comm]
  unfold serializationBufLen
  dsimp only
  rw [hodd, Codec.u32_size]
  split <;> omega

theorem meets_writeEntries (es : List (UInt32 × UInt64)) (cur : BytesMut) (m : Memory) :
    (writeEntriesLogged es cur m).Meets Access.Aligned fun _ => True := by
  induction es generalizing cur m with
  | nil => exact Logged.meets_lift_true _
  | cons e es ih =>
    apply (meets_unaligned cur _).bind
    rintro ⟨m, sz⟩ _
    apply (meets_unwrap_truncate cur sz).bind
    intro cur _
    apply (meets_unaligned cur _).bind
    rintro ⟨m, sz⟩ _
    apply (meets_unwrap_truncate cur sz).bind
    intro cur _
    exact ih cur m

theorem meets_writePad (count : ℕ) (hcur : 8 ∣ cur.ptr) (m : Memory) :
    (writePadLogged count cur m).Meets Access.Aligned fun _ => True := by
  unfold writePadLogged
  split
  · apply (meets_struct hcur _).bind
    intro r _
    apply (Logged.meets_lift_true _).bind
    intro sz _
    apply (meets_unwrap_truncate cur sz).bind
    intro cur _
    exact Logged.meets_lift_true _
  · exact Logged.meets_lift_true _

theorem meets_serialize (t : CompactPageTable) (hcur : 8 ∣ cur.ptr) (m : Memory) :
    (t.serializeLogged cur m).Meets Access.Aligned fun _ => True := by
  unfold serializeLogged
  split
  · exact Logged.meets_lift_true _
  · apply (meets_unwrap_truncate cur 0).bind
    intro cur' hcur'
    rw [← hcur'.trans (Nat.add_zero _)] at hcur
    apply (meets_written hcur).bind
    intro r hr
    apply (Logged.meets_lift hr).bind
    rintro sz rfl
    apply (meets_unwrap_truncate cur' _).bind
    intro cur'' hcur''
    have haligned : 8 ∣ cur''.ptr := by
      rw [hcur'']
      exact Nat.dvd_add hcur (dvd_refl _)
    apply (meets_writePad t.tableLen haligned r.1).bind
    rintro ⟨m, cur⟩ _
    apply (meets_writeEntries t.innerPgTable cur m).bind
    rintro ⟨m, cur⟩ _
    exact Logged.meets_lift_true _

end CompactPageTable

/-- The sizes of the structs are multiples of eight. -/
structure Layout.Aligned (L : Layout) : Prop where
  regs : 8 ∣ L.regs.size
  vma : 8 ∣ L.vma.size
  rdma : 8 ∣ L.rdma.size

namespace ParentDescriptor

variable {L : Layout}

theorem meets_writeTables (hL : L.Aligned) (vmas : List VMADescriptor) (i : ℕ)
    (ts : List CompactPageTable) (hcur : 8 ∣ cur.ptr) (m : Memory) :
    (writeTablesLogged L vmas i ts cur m).Meets Access.Aligned fun r => 8 ∣ r.2.1.ptr := by
  induction ts generalizing i cur m with
  | nil =>
    apply Logged.meets_lift
    rintro r ⟨⟩
    exact hcur
  | cons t ts ih =>
    apply (Logged.meets_lift_true _).bind
    intro vma _
    apply (meets_struct hcur _).bind
    rintro ⟨m, vmaDone⟩ _
    apply (meets_unwrap_truncate cur _).bind
    intro cur' hcur'
    have haligned : 8 ∣ cur'.ptr := hcur' ▸ Nat.dvd_add hcur hL.vma
    apply (t.meets_serialize haligned m).bind
    rintro ⟨m, tableDone⟩ _
    apply (meets_unwrap_truncate cur' _).bind
    intro cur'' hcur''
    apply (ih (i + 1) (hcur'' ▸ Nat.dvd_add haligned t.eight_dvd_serializationBufLen) m).bind
    rintro ⟨m, last, dropped⟩ hlast
    apply Logged.meets_lift
    rintro r ⟨⟩
    exact hlast

theorem meets_serialize (hL : L.Aligned) (d : ParentDescriptor) {b : BytesMut}
    (hb : 8 ∣ b.ptr) (m : Memory) :
    (d.serializeLogged L b m).Meets Access.Aligned fun _ => True := by
  unfold serializeLogged
  split
  · exact Logged.meets_lift_true _
  · apply (meets_unwrap_truncate b 0).bind
    intro cur hcur
    rw [← hcur.trans (Nat.add_zero _)] at hb
    apply (meets_struct hb _).bind
    rintro ⟨m, regsDone⟩ _
    apply (meets_unwrap_truncate cur _).bind
    intro cur' hcur'
    have haligned : 8 ∣ cur'.ptr := hcur' ▸ Nat.dvd_add hb hL.regs
    apply (meets_written haligned).bind
    intro r hr
    apply (Logged.meets_lift hr).bind
    rintro sz rfl
    apply (meets_unwrap_truncate cur' _).bind
    intro cur'' hcur''
    apply (Logged.meets_lift_true _).bind
    intro _ _
    apply (meets_writeTables hL d.vma 0 d.pageTable
      (hcur'' ▸ Nat.dvd_add haligned (dvd_refl _)) r.1).bind
    rintro ⟨m, last, dropped⟩ hlast
    apply (meets_struct hlast _).bind
    rintro ⟨m, infoDone⟩ _
    exact Logged.meets_lift_true _

end ParentDescriptor

/-! ## The readers -/

namespace CompactPageTable

theorem meets_readEntries (n : ℕ) (cur : BytesMut) (m : Memory) :
    (readEntriesLogged n cur m).Meets Access.Aligned fun _ => True := by
  induction n generalizing cur with
  | zero => exact Logged.meets_lift_true _
  | succ n ih =>
    apply (meets_unaligned cur _).bind
    intro virt _
    apply (meets_truncate cur _).bind
    intro cur _
    apply (meets_unaligned cur _).bind
    intro phy _
    apply (meets_truncate cur _).bind
    intro cur _
    apply (ih cur).bind
    rintro ⟨es, cur⟩ _
    exact Logged.meets_lift_true _

/-- The padding lets the entries end at an aligned address. -/
theorem meets_readPad (count : ℕ) (hcur : 8 ∣ cur.ptr) (m : Memory) :
    (readPadLogged count cur m).Meets Access.Aligned
      fun cur' => 8 ∣ cur'.ptr + 12 * count := by
  unfold readPadLogged
  split
  · apply (meets_number hcur).bind
    rintro ⟨pad, off⟩ hoff
    apply (meets_truncate cur off).mono
    intro cur' hcur'
    have hsize : off = 4 := hoff
    omega
  · apply Logged.meets_lift
    rintro cur' ⟨⟩
    omega

theorem meets_deserialize (hcur : 8 ∣ cur.ptr) (m : Memory) :
    (deserializeLogged cur m).Meets Access.Aligned fun _ => True := by
  apply (meets_unwrap_truncate cur 0).bind
  intro cur' hcur'
  rw [← hcur'.trans (Nat.add_zero _)] at hcur
  apply (meets_number hcur).bind
  rintro ⟨count, off⟩ rfl
  apply (meets_truncate cur' _).bind
  intro cur'' hcur''
  have haligned : 8 ∣ cur''.ptr := by
    rw [hcur'']
    exact Nat.dvd_add hcur (dvd_refl _)
  apply (meets_readPad count.toNat haligned m).bind
  intro cur _
  apply (meets_readEntries count.toNat cur m).bind
  rintro ⟨es, cur⟩ _
  exact Logged.meets_lift_true _

end CompactPageTable

namespace ParentDescriptor

variable {L : Layout}

theorem meets_readTables (hL : L.Aligned) (n : ℕ) (hcur : 8 ∣ cur.ptr) (m : Memory) :
    (readTablesLogged L n cur m).Meets Access.Aligned fun r => 8 ∣ r.2.2.ptr := by
  induction n generalizing cur with
  | zero =>
    apply Logged.meets_lift
    rintro r ⟨⟩
    exact hcur
  | succ n ih =>
    apply (meets_struct hcur _).bind
    intro vma _
    apply (meets_truncate cur _).bind
    intro cur' hcur'
    have haligned : 8 ∣ cur'.ptr := hcur' ▸ Nat.dvd_add hcur hL.vma
    apply (CompactPageTable.meets_deserialize haligned m).bind
    intro table _
    apply (meets_truncate cur' _).bind
    intro cur'' hcur''
    apply (ih (hcur'' ▸ Nat.dvd_add haligned table.eight_dvd_serializationBufLen)).bind
    rintro ⟨vmas, tables, last⟩ hlast
    apply Logged.meets_lift
    rintro r ⟨⟩
    exact hlast

theorem meets_deserialize (hL : L.Aligned) {b : BytesMut} (hb : 8 ∣ b.ptr) (m : Memory) :
    (deserializeLogged L b m).Meets Access.Aligned fun _ => True := by
  apply (meets_unwrap_truncate b 0).bind
  intro cur hcur
  rw [← hcur.trans (Nat.add_zero _)] at hb
  apply (meets_struct hb _).bind
  intro regs _
  apply (meets_truncate cur _).bind
  intro cur' hcur'
  have haligned : 8 ∣ cur'.ptr := hcur' ▸ Nat.dvd_add hb hL.regs
  apply (meets_number haligned).bind
  rintro ⟨count, off⟩ rfl
  apply (meets_truncate cur' _).bind
  intro cur'' hcur''
  apply (meets_readTables hL count.toNat
    (hcur'' ▸ Nat.dvd_add haligned (dvd_refl _)) m).bind
  rintro ⟨vmas, tables, last⟩ hlast
  apply (meets_struct hlast _).bind
  intro machineInfo _
  exact Logged.meets_lift_true _

end ParentDescriptor

namespace ChildDescriptor

variable {L : Layout}

theorem meets_readEntries (start : UInt64) (n : ℕ) (cur : BytesMut) (m : Memory)
    (s : Heap × RemotePageTable) :
    (readEntriesLogged start n cur m s).Meets Access.Aligned
      fun r => r.2.ptr = cur.ptr + 12 * n := by
  induction n generalizing cur s with
  | zero =>
    apply Logged.meets_lift
    rintro r ⟨⟩
    rfl
  | succ n ih =>
    apply (meets_unaligned cur _).bind
    intro virt _
    apply (meets_truncate cur _).bind
    intro cur' hcur'
    apply (meets_unaligned cur' _).bind
    intro phy _
    apply (meets_truncate cur' _).bind
    intro cur'' hcur''
    apply (Logged.meets_lift_true _).bind
    intro s _
    apply (ih cur'' s).mono
    intro r hr
    rw [hr, hcur'', hcur', Codec.u32_size, Codec.u64_size]
    ring

theorem meets_readTables (hL : L.Aligned) (n : ℕ) (hcur : 8 ∣ cur.ptr) (m : Memory)
    (s : Heap × RemotePageTable) :
    (readTablesLogged L n cur m s).Meets Access.Aligned fun r => 8 ∣ r.2.2.ptr := by
  induction n generalizing cur s with
  | zero =>
    apply Logged.meets_lift
    rintro r ⟨⟩
    exact hcur
  | succ n ih =>
    apply (meets_struct hcur _).bind
    intro vma _
    apply (meets_truncate cur _).bind
    intro cur' hcur'
    have haligned : 8 ∣ cur'.ptr := hcur' ▸ Nat.dvd_add hcur hL.vma
    apply (meets_number haligned).bind
    rintro ⟨pageNum, off⟩ rfl
    apply (meets_truncate cur' _).bind
    intro cur'' hcur''
    apply (CompactPageTable.meets_readPad pageNum.toNat
      (hcur'' ▸ Nat.dvd_add haligned (dvd_refl _)) m).bind
    intro cur hend
    apply (meets_readEntries vma.getStart pageNum.toNat cur m s).bind
    rintro ⟨s, after⟩ hafter
    apply (ih (hafter ▸ hend) s).bind
    rintro ⟨vmas, s, last⟩ hlast
    apply Logged.meets_lift
    rintro r ⟨⟩
    exact hlast

theorem meets_deserialize (hL : L.Aligned) (h : Heap) {b : BytesMut} (hb : 8 ∣ b.ptr)
    (m : Memory) :
    (deserializeLogged L h b m).Meets Access.Aligned fun _ => True := by
  apply (meets_unwrap_truncate b 0).bind
  intro cur hcur
  rw [← hcur.trans (Nat.add_zero _)] at hb
  apply (meets_struct hb _).bind
  intro regs _
  apply (meets_truncate cur _).bind
  intro cur' hcur'
  have haligned : 8 ∣ cur'.ptr := hcur' ▸ Nat.dvd_add hb hL.regs
  apply (meets_number haligned).bind
  rintro ⟨count, off⟩ rfl
  apply (meets_truncate cur' _).bind
  intro cur'' hcur''
  apply (meets_readTables hL count.toNat
    (hcur'' ▸ Nat.dvd_add haligned (dvd_refl _)) m _).bind
  rintro ⟨vmas, s, last⟩ hlast
  apply (meets_struct hlast _).bind
  intro machineInfo _
  exact Logged.meets_lift_true _

end ChildDescriptor

/-- In an aligned buffer of any length and content, every count, struct and padding word is
written by `serialize` and read by both decoders at an aligned address; only entries are
accessed at other ones. -/
theorem typed_accesses_aligned (L : Layout) (hL : L.Aligned) (b : BytesMut) (hb : 8 ∣ b.ptr)
    (m : Memory) :
    (∀ d : ParentDescriptor,
      (d.serializeLogged L b m).outcome = d.serialize L b m ∧
        ∀ a ∈ (d.serializeLogged L b m).log, a.Aligned) ∧
    ((ParentDescriptor.deserializeLogged L b m).outcome = ParentDescriptor.deserialize L b m ∧
      ∀ a ∈ (ParentDescriptor.deserializeLogged L b m).log, a.Aligned) ∧
    ∀ h : Heap,
      (ChildDescriptor.deserializeLogged L h b m).outcome = ChildDescriptor.deserialize L h b m ∧
        ∀ a ∈ (ChildDescriptor.deserializeLogged L h b m).log, a.Aligned := by
  refine ⟨fun d => ⟨?_, ?_⟩, ⟨?_, ?_⟩, fun h => ⟨?_, ?_⟩⟩
  · exact ParentDescriptor.outcome_serializeLogged L d b m
  · exact (ParentDescriptor.meets_serialize hL d hb m).log
  · exact ParentDescriptor.outcome_deserializeLogged L b m
  · exact (ParentDescriptor.meets_deserialize hL hb m).log
  · exact ChildDescriptor.outcome_deserializeLogged L h b m
  · exact (ChildDescriptor.meets_deserialize hL h hb m).log

/-- An area with one page.  The padding comes first, so the offset of the page is written at an
address that is not aligned. -/
theorem typed_accesses_aligned_one_page :
    let d : ParentDescriptor := ⟨default, [⟨[(4096, 8196)]⟩],
      [⟨(4194304, 4202496), 3, 37, true⟩], default⟩
    let b : BytesMut := ⟨4096, 320, by decide⟩
    let log := (d.serializeLogged Layout.packed b fun _ => 0).log
    log = [⟨.regs, 4096⟩, ⟨.count, 4280⟩, ⟨.vma, 4288⟩, ⟨.count, 4328⟩, ⟨.pad, 4336⟩,
        ⟨.entry, 4340⟩, ⟨.entry, 4344⟩, ⟨.info, 4352⟩] ∧
      ∀ a ∈ log, a.Aligned := by
  intro d b log
  have hL : Layout.packed.Aligned := ⟨by decide, by decide, by decide⟩
  exact ⟨by decide +kernel, ((typed_accesses_aligned Layout.packed hL b (by decide) _).1 d).2⟩

end Mitosis.Descriptors
