import Mitosis.Descriptors.Child
import Mitosis.Descriptors.RoundTrip

/-!
# The two decoders agree

What a buffer says is given in closed form: the entries, the tables and the
areas that lie at an address, whether or not the window is long enough for
them.  Both decoders are then described by the same closed forms: they accept
exactly when everything fits into the window.
-/

namespace Mitosis.Descriptors

open Support OsNetwork RemoteMapping
open Support.Codec (u64 u32)

/-! ## What lies at an address -/

def entriesAt (m : Memory) (p : ℕ) : ℕ → List (UInt32 × UInt64)
  | 0 => []
  | n + 1 =>
    (u32.decode (readBytes m p u32.size),
      u64.decode (readBytes m (p + u32.size) u64.size)) ::
    entriesAt m (p + 12) n

def countAt (m : Memory) (p : ℕ) : ℕ :=
  (u64.decode (readBytes m p u64.size)).toNat

def padSize (count : ℕ) : ℕ := if count % 2 = 1 then u32.size else 0

/-- The size of a table with the given number of entries. -/
def tableSize (count : ℕ) : ℕ := u64.size + padSize count + 12 * count

def tableAt (m : Memory) (p : ℕ) : List (UInt32 × UInt64) :=
  entriesAt m (p + (u64.size + padSize (countAt m p))) (countAt m p)

def vmaAt (L : Layout) (m : Memory) (p : ℕ) : VMADescriptor :=
  L.vma.decode (readBytes m p L.vma.size)

@[simp] theorem length_entriesAt (m : Memory) (p n : ℕ) :
    (entriesAt m p n).length = n := by
  induction n generalizing p with
  | zero => rfl
  | succ n ih => simp [entriesAt, ih]

/-! ## The decoder of the parent -/

section Parent

variable {cur : BytesMut} {m : Memory}

variable {β : Type}

theorem readPad_eq (count : ℕ) :
    CompactPageTable.readPad count cur m =
      if padSize count ≤ cur.len then .ok (cur.after (padSize count))
      else .error .absent := by
  by_cases hodd : count % 2 = 1
  · by_cases hlen : u32.size ≤ cur.len
    · simp only [CompactPageTable.readPad, padSize, if_pos hodd,
        BytesMut.memcpyDeserialize, if_pos hlen, Outcome.orAbsent_some,
        Outcome.ok_bind, BytesMut.truncateHeader_of_le hlen]
    · simp only [CompactPageTable.readPad, padSize, if_pos hodd,
        BytesMut.memcpyDeserialize, if_neg hlen, Outcome.orAbsent_none,
        Outcome.error_bind]
  · simp [CompactPageTable.readPad, padSize, hodd]

theorem readEntry_bind (f : UInt32 × UInt64 → BytesMut → Outcome β) :
    (do
      let virt := cur.readUnalignedAtHead u32 m
      let cur ← Outcome.orAbsent (cur.truncateHeader u32.size)
      let phy := cur.readUnalignedAtHead u64 m
      let cur ← Outcome.orAbsent (cur.truncateHeader u64.size)
      f (virt, phy) cur) =
      if 12 ≤ cur.len then
        f (u32.decode (readBytes m cur.ptr u32.size),
          u64.decode (readBytes m (cur.ptr + u32.size) u64.size))
          (cur.after 12)
      else .error .absent := by
  by_cases hfour : u32.size ≤ cur.len
  · by_cases height : u64.size ≤ (cur.after u32.size).len
    · have hle : 12 ≤ cur.len := by
        simp only [BytesMut.after_len, Codec.u32_size, Codec.u64_size] at *
        omega
      simp only [BytesMut.truncateHeader_of_le hfour, Outcome.orAbsent_some,
        Outcome.ok_bind, BytesMut.truncateHeader_of_le height,
        BytesMut.after_after, if_pos hle, BytesMut.readUnalignedAtHead,
        BytesMut.after_ptr hfour]
      rfl
    · have hlt : ¬ 12 ≤ cur.len := by
        simp only [BytesMut.after_len, Codec.u32_size, Codec.u64_size] at *
        omega
      simp only [BytesMut.truncateHeader_of_le hfour, Outcome.orAbsent_some,
        Outcome.ok_bind, if_neg hlt, Outcome.orAbsent_none,
        BytesMut.truncateHeader_of_lt (Nat.lt_of_not_le height),
        Outcome.error_bind]
  · have hlt : ¬ 12 ≤ cur.len := by
      simp only [Codec.u32_size] at hfour
      omega
    simp only [BytesMut.truncateHeader_of_lt (Nat.lt_of_not_le hfour),
      Outcome.orAbsent_none, Outcome.error_bind, if_neg hlt]

theorem readEntries_eq (n : ℕ) :
    CompactPageTable.readEntries n cur m =
      if 12 * n ≤ cur.len then
        .ok (entriesAt m cur.ptr n, cur.after (12 * n))
      else .error .absent := by
  induction n generalizing cur with
  | zero => simp [CompactPageTable.readEntries, entriesAt]
  | succ n ih =>
    rw [CompactPageTable.readEntries]
    refine (readEntry_bind fun e cur =>
      CompactPageTable.readEntries n cur m >>= fun r => .ok (e :: r.1, r.2)).trans ?_
    by_cases htwelve : 12 ≤ cur.len
    · rw [if_pos htwelve, ih, BytesMut.after_len]
      by_cases hrest : 12 * n ≤ cur.len - 12
      · rw [if_pos hrest, if_pos (by omega)]
        simp only [Outcome.ok_bind, entriesAt, BytesMut.after_after,
          BytesMut.after_ptr htwelve, Nat.mul_succ, Nat.add_comm]
      · rw [if_neg hrest, if_neg (by omega)]
        rfl
    · rw [if_neg htwelve, if_neg (by omega)]

theorem table_deserialize_eq :
    CompactPageTable.deserialize cur m =
      if tableSize (countAt m cur.ptr) ≤ cur.len then
        .ok ⟨tableAt m cur.ptr⟩
      else .error .absent := by
  have hsize : tableSize (countAt m cur.ptr) = u64.size +
      padSize (countAt m cur.ptr) + 12 * countAt m cur.ptr := rfl
  simp only [CompactPageTable.deserialize, BytesMut.truncateHeader_zero,
    Outcome.unwrap_some, Outcome.ok_bind, BytesMut.memcpyDeserialize]
  by_cases hcount : u64.size ≤ cur.len
  · rw [if_pos hcount]
    simp only [Outcome.orAbsent_some, Outcome.ok_bind,
      BytesMut.truncateHeader_of_le hcount]
    rw [← countAt, readPad_eq, BytesMut.after_len]
    by_cases hpad : padSize (countAt m cur.ptr) ≤ cur.len - u64.size
    · rw [if_pos hpad]
      simp only [Outcome.ok_bind, BytesMut.after_after]
      rw [readEntries_eq, BytesMut.after_len]
      by_cases hentries : 12 * countAt m cur.ptr ≤
          cur.len - (u64.size + padSize (countAt m cur.ptr))
      · rw [if_pos hentries, if_pos (by omega)]
        simp only [Outcome.ok_bind, tableAt]
        rw [BytesMut.after_ptr (by omega)]
      · rw [if_neg hentries, if_neg (by omega)]
        rfl
    · rw [if_neg hpad, if_neg (by omega)]
      rfl
  · rw [if_neg hcount, if_neg (by omega)]
    rfl

theorem serializationBufLen_tableAt (p : ℕ) :
    (⟨tableAt m p⟩ : CompactPageTable).serializationBufLen =
      tableSize (countAt m p) := by
  simp only [CompactPageTable.serializationBufLen, tableSize, padSize,
    CompactPageTable.tableLen, tableAt, length_entriesAt, Codec.u64_size,
    Codec.u32_size]
  split <;> ring

/-- The size of the area and the table at an address. -/
def frameSize (L : Layout) (m : Memory) (p : ℕ) : ℕ :=
  L.vma.size + tableSize (countAt m (p + L.vma.size))

theorem readTables_succ (L : Layout) (n : ℕ) :
    ParentDescriptor.readTables L (n + 1) cur m =
      if frameSize L m cur.ptr ≤ cur.len then do
        let (vmas, tables, cur') ← ParentDescriptor.readTables L n
          (cur.after (frameSize L m cur.ptr)) m
        .ok (vmaAt L m cur.ptr :: vmas,
          ⟨tableAt m (cur.ptr + L.vma.size)⟩ :: tables, cur')
      else .error .absent := by
  rw [ParentDescriptor.readTables, BytesMut.deserialize,
    BytesMut.memcpyDeserialize, frameSize]
  by_cases hvma : L.vma.size ≤ cur.len
  · rw [if_pos hvma, BytesMut.truncateHeader_of_le hvma]
    simp only [Option.map_some, Outcome.orAbsent_some, Outcome.ok_bind]
    rw [table_deserialize_eq, BytesMut.after_len, BytesMut.after_ptr hvma]
    by_cases htable : tableSize (countAt m (cur.ptr + L.vma.size)) ≤
        cur.len - L.vma.size
    · rw [if_pos htable, if_pos (by omega)]
      simp only [Outcome.ok_bind]
      rw [serializationBufLen_tableAt, BytesMut.truncateHeader_of_le
        (by rwa [BytesMut.after_len])]
      simp only [Outcome.orAbsent_some, Outcome.ok_bind,
        BytesMut.after_after]
      rfl
    · rw [if_neg htable, if_neg (by omega)]
      rfl
  · rw [if_neg hvma, if_neg (by omega)]
    rfl

theorem readHeader_bind (L : Layout) (b : BytesMut)
    (f : RegDescriptor → ℕ → BytesMut → Outcome β) :
    (do
      let cur ← Outcome.unwrap (b.truncateHeader 0)
      let regs ← Outcome.orAbsent (cur.deserialize L.regs m)
      let cur ← Outcome.orAbsent (cur.truncateHeader L.regs.size)
      let (count, off) ← Outcome.orAbsent (cur.memcpyDeserialize u64 m)
      let cur ← Outcome.orAbsent (cur.truncateHeader off)
      f regs count.toNat cur) =
      if L.regs.size + u64.size ≤ b.len then
        f (L.regs.decode (readBytes m b.ptr L.regs.size)) (countAt m (b.ptr + L.regs.size))
          (b.after (L.regs.size + u64.size))
      else .error .absent := by
  simp only [BytesMut.truncateHeader_zero, Outcome.unwrap_some, Outcome.ok_bind,
    BytesMut.deserialize, BytesMut.memcpyDeserialize]
  by_cases hregs : L.regs.size ≤ b.len
  · rw [if_pos hregs, BytesMut.truncateHeader_of_le hregs]
    simp only [Option.map_some, Outcome.orAbsent_some, Outcome.ok_bind]
    by_cases hcount : u64.size ≤ (b.after L.regs.size).len
    · rw [if_pos hcount]
      simp only [Outcome.orAbsent_some, Outcome.ok_bind]
      rw [BytesMut.truncateHeader_of_le hcount, BytesMut.after_ptr hregs]
      rw [BytesMut.after_len] at hcount
      rw [if_pos (by omega)]
      simp only [Outcome.orAbsent_some, Outcome.ok_bind, BytesMut.after_after]
      rfl
    · rw [if_neg hcount]
      rw [BytesMut.after_len] at hcount
      rw [if_neg (by omega)]
      rfl
  · rw [if_neg hregs, if_neg (by omega)]
    rfl

theorem readInfo_bind (L : Layout)
    (f : RDMADescriptor → Outcome β) :
    (do
      let machineInfo ← Outcome.orAbsent (cur.deserialize L.rdma m)
      f machineInfo) =
      if L.rdma.size ≤ cur.len then f (L.rdma.decode (readBytes m cur.ptr L.rdma.size))
      else .error .absent := by
  rw [BytesMut.deserialize, BytesMut.memcpyDeserialize]
  by_cases hinfo : L.rdma.size ≤ cur.len
  · rw [if_pos hinfo, if_pos hinfo]
    rfl
  · rw [if_neg hinfo, if_neg hinfo]
    rfl

theorem parent_deserialize_eq (L : Layout) (b : BytesMut) :
    ParentDescriptor.deserialize L b m =
      if L.regs.size + u64.size ≤ b.len then do
        let (vmas, tables, cur) ← ParentDescriptor.readTables L (countAt m (b.ptr + L.regs.size))
          (b.after (L.regs.size + u64.size)) m
        if L.rdma.size ≤ cur.len then
          .ok ⟨L.regs.decode (readBytes m b.ptr L.regs.size), tables, vmas,
            L.rdma.decode (readBytes m cur.ptr L.rdma.size)⟩
        else .error .absent
      else .error .absent := by
  rw [ParentDescriptor.deserialize, readHeader_bind L b fun regs count cur => do
    let (vmas, tables, cur) ← ParentDescriptor.readTables L count cur m
    let machineInfo ← Outcome.orAbsent (cur.deserialize L.rdma m)
    .ok (⟨regs, tables, vmas, machineInfo⟩ : ParentDescriptor)]
  simp only [readInfo_bind]

end Parent

/-! ## Sums -/

/-- The address of an entry neither overflows nor leaves the canonical
range. -/
def SumCanonical (start : UInt64) (offset : UInt32) : Prop :=
  start.toNat + offset.toNat < 2 ^ 64 ∧
    Canonical (start.toNat + offset.toNat)

instance (start : UInt64) (offset : UInt32) :
    Decidable (SumCanonical start offset) :=
  inferInstanceAs (Decidable (_ ∧ _))

/-- The address of an entry neither overflows nor is one that `VirtAddr::new` refuses. -/
def SumAccepted (start : UInt64) (offset : UInt32) : Prop :=
  offset.toNat + start.toNat < 2 ^ 64 ∧ VirtAddr.Accepted (offset.toNat + start.toNat)

instance (start : UInt64) (offset : UInt32) : Decidable (SumAccepted start offset) :=
  inferInstanceAs (Decidable (_ ∧ _))

variable {start : UInt64} {e : UInt32 × UInt64}

theorem SumCanonical.accepted {offset : UInt32} (h : SumCanonical start offset) :
    SumAccepted start offset := by
  rw [SumAccepted, Nat.add_comm]
  exact ⟨h.1, VirtAddr.accepted_of_canonical h.2⟩

theorem mapEntry_of_sumAccepted (h : SumAccepted start e.1) (s : Heap × RemotePageTable) :
    ∃ addr, mapEntry start s e = .ok (s.2.map s.1 addr e.2.toNat).1 := by
  obtain ⟨addr, haddr⟩ := Option.isSome_iff_exists.mp (VirtAddr.isSome_new_iff.mpr h.2)
  refine ⟨addr, ?_⟩
  rw [mapEntry, Outcome.checked_of_lt h.1, Outcome.ok_bind, haddr]
  rfl

theorem mapEntry_of_sumCanonical (h : SumCanonical start e.1) (s : Heap × RemotePageTable) :
    mapEntry start s e =
      .ok (s.2.map s.1 ⟨start.toNat + e.1.toNat, h.2⟩ e.2.toNat).1 := by
  rw [mapEntry, Nat.add_comm, Outcome.checked_of_lt h.1, Outcome.ok_bind,
    VirtAddr.new_of_canonical h.2]
  rfl

theorem exists_mapTable {es : List (UInt32 × UInt64)}
    (h : ∀ e ∈ es, SumAccepted start e.1) (s : Heap × RemotePageTable) :
    ∃ s', ParentDescriptor.mapTable start es s = .ok s' := by
  induction es generalizing s with
  | nil => exact ⟨s, rfl⟩
  | cons e es ih =>
    obtain ⟨addr, hentry⟩ := mapEntry_of_sumAccepted (h e (by simp)) s
    rw [ParentDescriptor.mapTable, hentry]
    exact ih (fun e' he' => h e' (by simp [he'])) _

/-- The entries of the table at a cursor that lie in the window. -/
def scannedTable (m : Memory) (cur : BytesMut) : List (UInt32 × UInt64) :=
  let header := u64.size + padSize (countAt m cur.ptr)
  entriesAt m (cur.ptr + header)
    (min (countAt m cur.ptr) ((cur.len - header) / 12))

/-- The pairs of an area start and an offset that a decoder adds up before it
stops. -/
def scannedTables (L : Layout) (m : Memory) :
    ℕ → BytesMut → List (UInt64 × UInt32)
  | 0, _ => []
  | n + 1, cur =>
    if L.vma.size ≤ cur.len then
      (scannedTable m (cur.after L.vma.size)).map
          (fun e => ((vmaAt L m cur.ptr).getStart, e.1)) ++
        (if frameSize L m cur.ptr ≤ cur.len then
          scannedTables L m n (cur.after (frameSize L m cur.ptr))
        else [])
    else []

/-- The same for a whole buffer. -/
def scannedSums (L : Layout) (bytes : BytesMut) (m : Memory) :
    List (UInt64 × UInt32) :=
  if L.regs.size + u64.size ≤ bytes.len then
    scannedTables L m (countAt m (bytes.ptr + L.regs.size))
      (bytes.after (L.regs.size + u64.size))
  else []

/-! ## The decoder of the child -/

section Child

variable {cur : BytesMut} {m : Memory}

theorem child_readEntries_eq (n : ℕ)
    (s : Heap × RemotePageTable)
    (hsums : ∀ e ∈ entriesAt m cur.ptr (min n (cur.len / 12)),
      SumAccepted start e.1) :
    ChildDescriptor.readEntries start n cur m s =
      if 12 * n ≤ cur.len then do
        let s' ← ParentDescriptor.mapTable start (entriesAt m cur.ptr n) s
        .ok (s', cur.after (12 * n))
      else .error .absent := by
  induction n generalizing cur s with
  | zero =>
    simp [ChildDescriptor.readEntries, entriesAt, ParentDescriptor.mapTable]
  | succ n ih =>
    rw [ChildDescriptor.readEntries, readEntry_bind fun e cur => do
      let s ← mapEntry start s e
      ChildDescriptor.readEntries start n cur m s]
    by_cases htwelve : 12 ≤ cur.len
    · have hmin : min (n + 1) (cur.len / 12) =
          min n ((cur.len - 12) / 12) + 1 := by omega
      rw [hmin, entriesAt] at hsums
      have hptr := BytesMut.after_ptr htwelve
      obtain ⟨addr, hentry⟩ := mapEntry_of_sumAccepted (hsums _ List.mem_cons_self) s
      rw [if_pos htwelve, hentry, Outcome.ok_bind, ih]
      · rw [BytesMut.after_len]
        by_cases hrest : 12 * n ≤ cur.len - 12
        · rw [if_pos hrest, if_pos (by omega), entriesAt,
            ParentDescriptor.mapTable, hentry, hptr, BytesMut.after_after]
          simp only [Outcome.ok_bind, Nat.mul_succ, Nat.add_comm]
        · rw [if_neg hrest, if_neg (by omega)]
      · rw [hptr, BytesMut.after_len]
        exact fun e he => hsums e (List.mem_cons_of_mem _ he)
    · rw [if_neg htwelve, if_neg (by omega)]

theorem child_readPad_eq (count : ℕ) :
    ChildDescriptor.readPad count cur m =
      CompactPageTable.readPad count cur m := rfl

/-- The size of the area, the count and the padding at an address. -/
def headerSize (L : Layout) (m : Memory) (p : ℕ) : ℕ :=
  L.vma.size + (u64.size + padSize (countAt m (p + L.vma.size)))

variable {s s' : Heap × RemotePageTable} {cur' : BytesMut}

theorem frameSize_eq (L : Layout) (p : ℕ) :
    frameSize L m p = headerSize L m p + 12 * countAt m (p + L.vma.size) := by
  rw [frameSize, tableSize, headerSize]
  omega

/-- One round of the child's loop: the entries are reached exactly when what
stands before them fits. -/
theorem child_readTables_step (L : Layout) (n : ℕ) (s : Heap × RemotePageTable) :
    ChildDescriptor.readTables L (n + 1) cur m s =
      if headerSize L m cur.ptr ≤ cur.len then do
        let (s', cur') ← ChildDescriptor.readEntries (vmaAt L m cur.ptr).getStart
          (countAt m (cur.ptr + L.vma.size)) (cur.after (headerSize L m cur.ptr)) m s
        let (vmas, s'', cur') ← ChildDescriptor.readTables L n cur' m s'
        .ok (vmaAt L m cur.ptr :: vmas, s'', cur')
      else .error .absent := by
  rw [ChildDescriptor.readTables, BytesMut.deserialize, headerSize]
  simp only [BytesMut.memcpyDeserialize, child_readPad_eq]
  by_cases hvma : L.vma.size ≤ cur.len
  · rw [if_pos hvma, BytesMut.truncateHeader_of_le hvma]
    simp only [Option.map_some, Outcome.orAbsent_some, Outcome.ok_bind]
    by_cases hcount : u64.size ≤ (cur.after L.vma.size).len
    · rw [if_pos hcount]
      simp only [Outcome.orAbsent_some, Outcome.ok_bind,
        BytesMut.truncateHeader_of_le hcount]
      rw [← countAt, BytesMut.after_ptr hvma, readPad_eq]
      simp only [BytesMut.after_after, BytesMut.after_len] at hcount ⊢
      by_cases hpad : padSize (countAt m (cur.ptr + L.vma.size)) ≤
          cur.len - (L.vma.size + u64.size)
      · rw [if_pos hpad, if_pos (by omega)]
        simp only [Outcome.ok_bind, Nat.add_assoc]
        rfl
      · rw [if_neg hpad, if_neg (by omega)]
        rfl
    · rw [if_neg hcount]
      rw [BytesMut.after_len] at hcount
      rw [if_neg (by omega)]
      rfl
  · rw [if_neg hvma, if_neg (by omega)]
    rfl

theorem scannedTable_of_header {L : Layout} (hheader : headerSize L m cur.ptr ≤ cur.len) :
    scannedTable m (cur.after L.vma.size) =
      entriesAt m (cur.after (headerSize L m cur.ptr)).ptr
        (min (countAt m (cur.ptr + L.vma.size))
          ((cur.after (headerSize L m cur.ptr)).len / 12)) := by
  have hvma : L.vma.size ≤ cur.len := (Nat.le_add_right _ _).trans hheader
  rw [scannedTable, BytesMut.after_ptr hvma, BytesMut.after_ptr hheader, BytesMut.after_len,
    BytesMut.after_len, headerSize]
  simp only [Nat.add_assoc, Nat.sub_sub]

theorem child_readTables_succ (L : Layout) (n : ℕ)
    (s : Heap × RemotePageTable)
    (hsums : L.vma.size ≤ cur.len →
      ∀ e ∈ scannedTable m (cur.after L.vma.size),
        SumAccepted (vmaAt L m cur.ptr).getStart e.1) :
    ChildDescriptor.readTables L (n + 1) cur m s =
      if frameSize L m cur.ptr ≤ cur.len then do
        let s' ← ParentDescriptor.mapTable (vmaAt L m cur.ptr).getStart
          (tableAt m (cur.ptr + L.vma.size)) s
        let (vmas, s'', cur') ← ChildDescriptor.readTables L n
          (cur.after (frameSize L m cur.ptr)) m s'
        .ok (vmaAt L m cur.ptr :: vmas, s'', cur')
      else .error .absent := by
  rw [child_readTables_step, frameSize_eq]
  by_cases hheader : headerSize L m cur.ptr ≤ cur.len
  · have hvma : L.vma.size ≤ cur.len := (Nat.le_add_right _ _).trans hheader
    rw [if_pos hheader, child_readEntries_eq]
    · rw [BytesMut.after_len, BytesMut.after_ptr hheader, BytesMut.after_after]
      by_cases hentries : 12 * countAt m (cur.ptr + L.vma.size) ≤
          cur.len - headerSize L m cur.ptr
      · rw [if_pos hentries, if_pos (by omega), bind_assoc, tableAt, headerSize]
        simp only [Nat.add_assoc]
        rfl
      · rw [if_neg hentries, if_neg (by omega)]
        rfl
    · rw [← scannedTable_of_header hheader]
      exact hsums hvma
  · rw [if_neg hheader, if_neg (by omega)]

theorem child_readEntries_ok {n : ℕ}
    (hread : ChildDescriptor.readEntries start n cur m s = .ok (s', cur')) :
    12 * n ≤ cur.len ∧ cur' = cur.after (12 * n) := by
  induction n generalizing cur s with
  | zero =>
    cases hread
    simp
  | succ n ih =>
    rw [ChildDescriptor.readEntries, readEntry_bind fun e cur => do
      let s ← mapEntry start s e
      ChildDescriptor.readEntries start n cur m s] at hread
    by_cases htwelve : 12 ≤ cur.len
    · rw [if_pos htwelve, Outcome.bind_eq_ok] at hread
      obtain ⟨s₁, -, hrest⟩ := hread
      obtain ⟨hle, rfl⟩ := ih hrest
      rw [BytesMut.after_len] at hle
      rw [BytesMut.after_after, Nat.mul_succ, Nat.add_comm]
      exact ⟨by omega, rfl⟩
    · rw [if_neg htwelve] at hread
      cases hread

theorem child_readTables_ok (L : Layout) {n : ℕ}
    {vmas : List VMADescriptor}
    (hread : ChildDescriptor.readTables L n cur m s = .ok (vmas, s', cur')) :
    ∃ tables, ParentDescriptor.readTables L n cur m = .ok (vmas, tables, cur') := by
  induction n generalizing cur s vmas with
  | zero =>
    cases hread
    exact ⟨[], rfl⟩
  | succ n ih =>
    rw [child_readTables_step] at hread
    by_cases hheader : headerSize L m cur.ptr ≤ cur.len
    · rw [if_pos hheader, Outcome.bind_eq_ok] at hread
      obtain ⟨⟨s₁, cur₁⟩, hentries, hrest⟩ := hread
      obtain ⟨hle, rfl⟩ := child_readEntries_ok hentries
      rw [Outcome.bind_eq_ok] at hrest
      obtain ⟨⟨vmas', s₂, cur₂⟩, htables, heq⟩ := hrest
      cases heq
      rw [BytesMut.after_len] at hle
      rw [BytesMut.after_after, ← frameSize_eq] at htables
      obtain ⟨tables, hparent⟩ := ih htables
      refine ⟨⟨tableAt m (cur.ptr + L.vma.size)⟩ :: tables, ?_⟩
      rw [readTables_succ, if_pos (by rw [frameSize_eq]; omega), hparent]
      rfl
    · rw [if_neg hheader] at hread
      cases hread

theorem child_deserialize_eq (L : Layout) (h : Heap) (b : BytesMut) :
    ChildDescriptor.deserialize L h b m =
      if L.regs.size + u64.size ≤ b.len then do
        let (vmas, s, cur) ← ChildDescriptor.readTables L (countAt m (b.ptr + L.regs.size))
          (b.after (L.regs.size + u64.size)) m (RemotePageTable.new h)
        if L.rdma.size ≤ cur.len then
          .ok (s.1, ⟨L.regs.decode (readBytes m b.ptr L.regs.size), s.2, vmas,
            L.rdma.decode (readBytes m cur.ptr L.rdma.size)⟩)
        else .error .absent
      else .error .absent := by
  rw [ChildDescriptor.deserialize, readHeader_bind L b fun regs count cur => do
    let (vmas, s, cur) ← ChildDescriptor.readTables L count cur m (RemotePageTable.new h)
    let machineInfo ← Outcome.orAbsent (cur.deserialize L.rdma m)
    .ok (s.1, (⟨regs, s.2, vmas, machineInfo⟩ : ChildDescriptor))]
  simp only [readInfo_bind]
theorem parent_ok_of_child_ok (L : Layout) {h : Heap} {b : BytesMut}
    {r : Heap × ChildDescriptor} (hread : ChildDescriptor.deserialize L h b m = .ok r) :
    ∃ d, ParentDescriptor.deserialize L b m = .ok d := by
  rw [child_deserialize_eq] at hread
  rw [parent_deserialize_eq]
  by_cases hlen : L.regs.size + u64.size ≤ b.len
  · rw [if_pos hlen, Outcome.bind_eq_ok] at hread
    obtain ⟨⟨vmas, s, cur⟩, htables, hinfo⟩ := hread
    obtain ⟨tables, hparent⟩ := child_readTables_ok L htables
    dsimp only at hinfo
    rw [if_pos hlen, hparent, Outcome.ok_bind]
    by_cases hlast : L.rdma.size ≤ cur.len
    · exact ⟨_, if_pos hlast⟩
    · rw [if_neg hlast] at hinfo
      cases hinfo
  · rw [if_neg hlen] at hread
    cases hread

end Child

/-! ## Agreement -/

/-- Map the tables of a list of areas. -/
def mapFrames :
    List (VMADescriptor × CompactPageTable) → Heap × RemotePageTable →
      Outcome (Heap × RemotePageTable)
  | [], s => .ok s
  | f :: fs, s => do
    let s ← ParentDescriptor.mapTable f.1.getStart f.2.innerPgTable s
    mapFrames fs s

variable {n : ℕ} {m : Memory} {p : UInt64 × UInt32}

variable {L : Layout} {vmas : List VMADescriptor} {b : BytesMut} {tables : List CompactPageTable}
  {cur : BytesMut} {d : ParentDescriptor}

theorem mapTables_eq_mapFrames {i : ℕ}
    (h : (vmas.drop i).length = tables.length)
    (s : Heap × RemotePageTable) :
    ParentDescriptor.mapTables vmas i tables s =
      mapFrames ((vmas.drop i).zip tables) s := by
  induction tables generalizing i s with
  | nil => simp [ParentDescriptor.mapTables, mapFrames]
  | cons t tables ih =>
    rw [List.length_drop, List.length_cons] at h
    have hi : i < vmas.length := by omega
    rw [ParentDescriptor.mapTables, List.getElem?_eq_getElem hi,
      List.drop_eq_getElem_cons hi, List.zip_cons_cons, mapFrames]
    simp only [Outcome.unwrap_some, Outcome.ok_bind]
    congr 1
    funext s'
    exact ih (by rw [List.length_drop]; omega) s'

theorem scannedTable_of_frame (hframe : frameSize L m cur.ptr ≤ cur.len) :
    scannedTable m (cur.after L.vma.size) =
      tableAt m (cur.ptr + L.vma.size) := by
  have hvma : L.vma.size ≤ cur.len := (Nat.le_add_right _ _).trans hframe
  rw [scannedTable, tableAt, BytesMut.after_ptr hvma, BytesMut.after_len,
    Nat.min_eq_left]
  rw [frameSize, tableSize] at hframe
  omega

/-- Both loops stop at the same place, or the child has mapped what the parent
has read. -/
theorem readTables_agree (L : Layout) (n : ℕ)
    (s : Heap × RemotePageTable)
    (hsums : ∀ p ∈ scannedTables L m n cur, SumAccepted p.1 p.2) :
    (ParentDescriptor.readTables L n cur m = .error .absent ∧
      ChildDescriptor.readTables L n cur m s = .error .absent) ∨
    ∃ vmas tables cur' s',
      ParentDescriptor.readTables L n cur m = .ok (vmas, tables, cur') ∧
      vmas.length = tables.length ∧
      mapFrames (vmas.zip tables) s = .ok s' ∧
      ChildDescriptor.readTables L n cur m s = .ok (vmas, s', cur') := by
  induction n generalizing cur s with
  | zero => exact Or.inr ⟨[], [], cur, s, rfl, rfl, rfl, rfl⟩
  | succ n ih =>
    have hfirst : L.vma.size ≤ cur.len →
        ∀ e ∈ scannedTable m (cur.after L.vma.size),
          SumAccepted (vmaAt L m cur.ptr).getStart e.1 := by
      intro hvma e he
      refine hsums (_, e.1) ?_
      rw [scannedTables, if_pos hvma]
      exact List.mem_append_left _ (List.mem_map_of_mem he)
    rw [readTables_succ, child_readTables_succ L n s hfirst]
    by_cases hframe : frameSize L m cur.ptr ≤ cur.len
    · have hvma : L.vma.size ≤ cur.len :=
        (Nat.le_add_right _ _).trans hframe
      obtain ⟨s₁, hs₁⟩ := exists_mapTable (fun e he => hfirst hvma e
        (by rwa [scannedTable_of_frame hframe])) s
      have hrest : ∀ p ∈ scannedTables L m n
          (cur.after (frameSize L m cur.ptr)), SumAccepted p.1 p.2 := by
        intro p hp
        refine hsums p ?_
        rw [scannedTables, if_pos hvma, if_pos hframe]
        exact List.mem_append_right _ hp
      rw [if_pos hframe, if_pos hframe, hs₁, Outcome.ok_bind]
      rcases ih s₁ hrest with ⟨hparent, hchild⟩ |
          ⟨vmas, tables, cur', s', hparent, hlength, hmap, hchild⟩
      · rw [hparent, hchild]
        exact Or.inl ⟨rfl, rfl⟩
      · rw [hparent, hchild]
        refine Or.inr ⟨_, _, cur', s', rfl, by simp [hlength], ?_, rfl⟩
        rw [List.zip_cons_cons, mapFrames, hs₁]
        exact hmap
    · rw [if_neg hframe, if_neg hframe]
      exact Or.inl ⟨rfl, rfl⟩

theorem mem_scannedTables_of_ok (L : Layout)
    {cur cur' : BytesMut}
    (hread : ParentDescriptor.readTables L n cur m = .ok (vmas, tables, cur'))
    (hp : p ∈ scannedTables L m n cur) :
    ∃ f ∈ vmas.zip tables, ∃ e ∈ f.2.innerPgTable,
      p = (f.1.getStart, e.1) := by
  induction n generalizing cur vmas tables with
  | zero => simp [scannedTables] at hp
  | succ n ih =>
    rw [readTables_succ] at hread
    by_cases hframe : frameSize L m cur.ptr ≤ cur.len
    · have hvma : L.vma.size ≤ cur.len :=
        (Nat.le_add_right _ _).trans hframe
      rw [if_pos hframe, Outcome.bind_eq_ok] at hread
      obtain ⟨⟨vmas', tables', cur''⟩, hrest, heq⟩ := hread
      cases heq
      rw [scannedTables, if_pos hvma, if_pos hframe, List.mem_append,
        scannedTable_of_frame hframe] at hp
      rw [List.zip_cons_cons]
      rcases hp with hp | hp
      · obtain ⟨e, he, rfl⟩ := List.mem_map.mp hp
        refine ⟨(vmaAt L m cur.ptr, ⟨tableAt m (cur.ptr + L.vma.size)⟩),
          List.mem_cons_self, e, ?_, rfl⟩
        dsimp only
        exact he
      · obtain ⟨f, hf, hsum⟩ := ih hrest hp
        exact ⟨f, List.mem_cons_of_mem _ hf, hsum⟩
    · rw [if_neg hframe] at hread
      cases hread

theorem mem_scannedSums_of_ok (L : Layout) (hread : ParentDescriptor.deserialize L b m = .ok d)
    (hp : p ∈ scannedSums L b m) :
    ∃ f ∈ d.vma.zip d.pageTable, ∃ e ∈ f.2.innerPgTable,
      p = (f.1.getStart, e.1) := by
  rw [parent_deserialize_eq] at hread
  by_cases hlen : L.regs.size + u64.size ≤ b.len
  · rw [scannedSums, if_pos hlen] at hp
    rw [if_pos hlen, Outcome.bind_eq_ok] at hread
    obtain ⟨⟨vmas, tables, cur'⟩, htables, hinfo⟩ := hread
    dsimp only at hinfo
    by_cases hlast : L.rdma.size ≤ cur'.len
    · rw [if_pos hlast] at hinfo
      cases hinfo
      exact mem_scannedTables_of_ok L htables hp
    · rw [if_neg hlast] at hinfo
      cases hinfo
  · rw [if_neg hlen] at hread
    cases hread

/-- The child's decoder stops where the parent's does, or gives what
`toDescriptor` makes of the parent's result. -/
theorem deserialize_agree (L : Layout) (h : Heap) (b : BytesMut) (m : Memory)
    (hsums : ∀ p ∈ scannedSums L b m, SumAccepted p.1 p.2) :
    (ParentDescriptor.deserialize L b m = .error .absent ∧
      ChildDescriptor.deserialize L h b m = .error .absent) ∨
    ∃ d r, ParentDescriptor.deserialize L b m = .ok d ∧
      ChildDescriptor.deserialize L h b m = .ok r ∧
      d.toDescriptor h = .ok r := by
  rw [parent_deserialize_eq, child_deserialize_eq]
  by_cases hlen : L.regs.size + u64.size ≤ b.len
  · rw [scannedSums, if_pos hlen] at hsums
    rw [if_pos hlen, if_pos hlen]
    rcases readTables_agree L _ (RemotePageTable.new h) hsums with
      ⟨hparent, hchild⟩ |
        ⟨vmas, tables, cur', s', hparent, hlength, hmap, hchild⟩
    · rw [hparent, hchild]
      exact Or.inl ⟨rfl, rfl⟩
    · rw [hparent, hchild]
      simp only [Outcome.ok_bind]
      by_cases hinfo : L.rdma.size ≤ cur'.len
      · rw [if_pos hinfo, if_pos hinfo]
        refine Or.inr ⟨_, _, rfl, rfl, ?_⟩
        rw [ParentDescriptor.toDescriptor,
          mapTables_eq_mapFrames (by simpa using hlength), List.drop_zero,
          hmap]
        rfl
      · rw [if_neg hinfo, if_neg hinfo]
        exact Or.inl ⟨rfl, rfl⟩
  · rw [if_neg hlen, if_neg hlen]
    exact Or.inl ⟨rfl, rfl⟩

/-! ## Where the child's decoder panics -/

section Panics

variable {cur : BytesMut} {m : Memory}

theorem mapEntry_of_not_sumAccepted (h : ¬ SumAccepted start e.1) (s : Heap × RemotePageTable) :
    mapEntry start s e = .error .panicked := by
  rw [mapEntry]
  by_cases hlt : e.1.toNat + start.toNat < 2 ^ 64
  · have hnew : VirtAddr.new (e.1.toNat + start.toNat) = none := by
      rw [← Option.not_isSome_iff_eq_none, VirtAddr.isSome_new_iff]
      exact fun hacc => h ⟨hlt, hacc⟩
    rw [Outcome.checked_of_lt hlt, Outcome.ok_bind, hnew]
    rfl
  · rw [Outcome.checked_of_le (Nat.le_of_not_lt hlt)]
    rfl

theorem child_readEntries_panics
    (he : e ∈ entriesAt m cur.ptr (min n (cur.len / 12))) (hbad : ¬ SumAccepted start e.1)
    (s : Heap × RemotePageTable) :
    ChildDescriptor.readEntries start n cur m s = .error .panicked := by
  induction n generalizing cur s with
  | zero =>
    rw [Nat.zero_min] at he
    cases he
  | succ n ih =>
    rw [ChildDescriptor.readEntries, readEntry_bind fun e cur => do
      let s ← mapEntry start s e
      ChildDescriptor.readEntries start n cur m s]
    by_cases htwelve : 12 ≤ cur.len
    · have hmin : min (n + 1) (cur.len / 12) = min n ((cur.len - 12) / 12) + 1 := by omega
      rw [hmin, entriesAt, List.mem_cons] at he
      rw [if_pos htwelve]
      generalize (u32.decode (readBytes m cur.ptr u32.size),
        u64.decode (readBytes m (cur.ptr + u32.size) u64.size)) = first at he ⊢
      by_cases hfirst : SumAccepted start first.1
      · obtain ⟨addr, hentry⟩ := mapEntry_of_sumAccepted hfirst s
        rw [hentry, Outcome.ok_bind]
        rcases he with rfl | he
        · exact absurd hfirst hbad
        · apply ih
          rw [BytesMut.after_ptr htwelve, BytesMut.after_len]
          exact he
      · rw [mapEntry_of_not_sumAccepted hfirst, Outcome.error_bind]
    · rw [Nat.div_eq_of_lt (Nat.lt_of_not_le htwelve), Nat.min_zero] at he
      cases he

theorem child_readTables_panics (L : Layout)
    (hp : p ∈ scannedTables L m n cur) (hbad : ¬ SumAccepted p.1 p.2)
    (s : Heap × RemotePageTable) :
    ChildDescriptor.readTables L n cur m s = .error .panicked := by
  induction n generalizing cur s with
  | zero => cases hp
  | succ n ih =>
    by_cases hfirst : L.vma.size ≤ cur.len → ∀ e ∈ scannedTable m (cur.after L.vma.size),
        SumAccepted (vmaAt L m cur.ptr).getStart e.1
    · rw [scannedTables] at hp
      split at hp
      · next hvma =>
          rcases List.mem_append.mp hp with hp | hp
          · obtain ⟨e, he, rfl⟩ := List.mem_map.mp hp
            exact absurd (hfirst hvma e he) hbad
          · split at hp
            · next hframe =>
                have hentries := hfirst hvma
                rw [scannedTable_of_frame hframe] at hentries
                obtain ⟨s', hs'⟩ := exists_mapTable hentries s
                rw [child_readTables_succ L n s hfirst, if_pos hframe, hs', Outcome.ok_bind,
                  ih hp]
                rfl
            · cases hp
      · cases hp
    · push Not at hfirst
      obtain ⟨hvma, e, he, hbad'⟩ := hfirst
      have hheader : headerSize L m cur.ptr ≤ cur.len := by
        by_contra hlong
        have hnone : (cur.len - L.vma.size -
            (u64.size + padSize (countAt m (cur.ptr + L.vma.size)))) / 12 = 0 := by
          rw [headerSize] at hlong
          omega
        rw [scannedTable, BytesMut.after_ptr hvma, BytesMut.after_len, hnone,
          Nat.min_zero] at he
        cases he
      rw [scannedTable_of_header hheader] at he
      rw [child_readTables_step, if_pos hheader, child_readEntries_panics he hbad']
      rfl

/-- The child's decoder panics exactly if an address that it adds up before it
stops overflows, or is not taken by `VirtAddr::new`. -/
theorem child_deserialize_panicked_iff (L : Layout) (h : Heap) (b : BytesMut) :
    ChildDescriptor.deserialize L h b m = .error .panicked ↔
      ∃ p ∈ scannedSums L b m, ¬ SumAccepted p.1 p.2 := by
  constructor
  · intro hpanics
    by_contra hall
    push Not at hall
    rcases deserialize_agree L h b m hall with ⟨-, hchild⟩ | ⟨d, r, -, hchild, -⟩ <;>
      simp [hchild] at hpanics
  · rintro ⟨p, hp, hbad⟩
    rw [child_deserialize_eq]
    rw [scannedSums] at hp
    split at hp
    · next hlen =>
        rw [if_pos hlen, child_readTables_panics L hp hbad]
        rfl
    · cases hp

end Panics

/-- No address of an entry overflows or leaves the canonical range. -/
def EntriesCanonical (vmas : List VMADescriptor) (tables : List CompactPageTable) : Prop :=
  ∀ f ∈ vmas.zip tables, ∀ e ∈ f.2.innerPgTable, SumCanonical f.1.getStart e.1

instance (vmas : List VMADescriptor) (tables : List CompactPageTable) :
    Decidable (EntriesCanonical vmas tables) :=
  -- Given as a term: the pairs of words are a finite type, over which a search would range.
  @List.decidableBAll (VMADescriptor × CompactPageTable) _ (fun f => List.decidableBAll
    (fun e : UInt32 × UInt64 => SumCanonical f.1.getStart e.1) f.2.innerPgTable)
    (vmas.zip tables)

/-- The child's decoder makes of the image of a descriptor what `toDescriptor` makes of the
descriptor. -/
theorem child_deserialize_of_holds
    (hlength : d.vma.length = d.pageTable.length) (hlen : (d.image L).length ≤ b.len)
    (hm : Holds m b.ptr (d.image L))
    (hsums : EntriesCanonical d.vma d.pageTable) (h : Heap) :
    ChildDescriptor.deserialize L h b m = d.toDescriptor h := by
  have hread := ParentDescriptor.deserialize_of_holds hlength hlen hm
  have hscanned : ∀ p ∈ scannedSums L b m, SumAccepted p.1 p.2 := by
    intro p hp
    obtain ⟨f, hf, e, he, rfl⟩ := mem_scannedSums_of_ok L hread hp
    exact (hsums f hf e he).accepted
  rcases deserialize_agree L h b m hscanned with ⟨habsent, -⟩ | ⟨d', r, hparent, hchild, hto⟩
  · rw [hread] at habsent
    cases habsent
  · cases hread.symm.trans hparent
    rw [hchild, hto]

/-- On every buffer the child's decoder accepts exactly what the parent's
decoder accepts, and then both hold the same registers, areas and machine
info, and the child's page table translates every address as the table that
`toDescriptor` builds. -/
theorem child_deserialize_refines_parent (L : Layout) (h : Heap) (b : BytesMut) (m : Memory)
    (hsums : ∀ p ∈ scannedSums L b m, SumCanonical p.1 p.2) :
    ((∃ r, ChildDescriptor.deserialize L h b m = .ok r) ↔
      ∃ d, ParentDescriptor.deserialize L b m = .ok d) ∧
    ChildDescriptor.deserialize L h b m ≠ .error .panicked ∧
    ParentDescriptor.deserialize L b m ≠ .error .panicked ∧
    ∀ d h' c, ParentDescriptor.deserialize L b m = .ok d →
      ChildDescriptor.deserialize L h b m = .ok (h', c) →
      c.regs = d.regs ∧ c.vma = d.vma ∧ c.machineInfo = d.machineInfo ∧
      ∃ hd cd, d.toDescriptor h = .ok (hd, cd) ∧
        ∀ a : VirtAddr,
          c.pageTable.translate h' a = cd.pageTable.translate hd a := by
  rcases deserialize_agree L h b m fun p hp => (hsums p hp).accepted with
    ⟨hparent, hchild⟩ | ⟨d, r, hparent, hchild, hto⟩
  · rw [hparent, hchild]
    simp
  · rw [hparent, hchild]
    refine ⟨by simp, by simp, by simp, ?_⟩
    rintro d' h' c ⟨⟩ ⟨⟩
    rw [ParentDescriptor.toDescriptor, Outcome.bind_eq_ok] at hto
    obtain ⟨s, hs, heq⟩ := hto
    cases heq
    refine ⟨rfl, rfl, rfl, s.1, _, ?_, fun a => rfl⟩
    rw [ParentDescriptor.toDescriptor, hs]
    rfl

/-- Two entries for one page, of which the first wins. -/
theorem child_deserialize_refines_parent_duplicate :
    let regs : RegDescriptor := ⟨⟨1, 2, 3, 4, 5, 6, 7, 8, 9, 10, 11, 12, 13, 14,
      15, 16, 17, 18, 19, 20, 21⟩, 22, 23⟩
    let d : ParentDescriptor := ⟨regs, [⟨[(4096, 8192), (4100, 12288)]⟩],
      [⟨(4194304, 4202496), 3, 37, true⟩], ⟨0, 1, (2, 3), 4, 5, 6, 7, 8⟩⟩
    let b : BytesMut := ⟨4096, 320, by decide⟩
    let m := writeBytes (fun _ => 0) 4096 (d.image Layout.packed)
    scannedSums Layout.packed b m = [(4194304, 4096), (4194304, 4100)] ∧
      (∀ p ∈ scannedSums Layout.packed b m, SumCanonical p.1 p.2) ∧
      ∃ r, ChildDescriptor.deserialize Layout.packed Heap.empty b m =
        .ok r := by
  intro regs d b m
  have hscanned : scannedSums Layout.packed b m =
      [(4194304, 4096), (4194304, 4100)] := by decide +kernel
  have hsums : ∀ p ∈ scannedSums Layout.packed b m,
      SumCanonical p.1 p.2 := by
    rw [hscanned, List.forall_mem_cons, List.forall_mem_singleton]
    exact ⟨by decide, by decide⟩
  refine ⟨hscanned, hsums,
    (child_deserialize_refines_parent Layout.packed Heap.empty b m
      hsums).1.mpr ⟨d, ?_⟩⟩
  exact ParentDescriptor.deserialize_of_holds rfl (by decide +kernel)
    (holds_writeBytes _ _ _)

end Mitosis.Descriptors
