import Mitosis.Descriptors.Parent

/-!
# The byte image of a parent descriptor

The image is what the format says a descriptor looks like in memory, without
cursors.  The writer writes the image and nothing else, and the reader gives
back the descriptor whose image memory holds.
-/

namespace Mitosis.Descriptors

open Support OsNetwork
open Support.Codec (u64 u32)

theorem toNat_ofNat_of_le {n bound : ℕ} (h : n * 8 ≤ bound)
    (hbound : bound ≤ 2 ^ 64) : (UInt64.ofNat n).toNat = n := by
  rw [UInt64.toNat_ofNat']
  exact Nat.mod_eq_of_lt (by omega)

namespace CompactPageTable

def entriesImage (es : List (UInt32 × UInt64)) : List UInt8 :=
  es.flatMap fun e => u32.encode e.1 ++ u64.encode e.2

def padImage (count : ℕ) : List UInt8 :=
  if count % 2 = 1 then u32.encode 0 else []

def image (t : CompactPageTable) : List UInt8 :=
  u64.encode (.ofNat t.innerPgTable.length) ++
    (padImage t.tableLen ++ entriesImage t.innerPgTable)

@[simp] theorem entriesImage_nil : entriesImage [] = [] := rfl

@[simp] theorem entriesImage_cons (e : UInt32 × UInt64)
    (es : List (UInt32 × UInt64)) :
    entriesImage (e :: es) =
      u32.encode e.1 ++ (u64.encode e.2 ++ entriesImage es) := by
  simp [entriesImage]

@[simp] theorem length_entriesImage (es : List (UInt32 × UInt64)) :
    (entriesImage es).length = 12 * es.length := by
  induction es with
  | nil => rfl
  | cons e es ih =>
    simp only [entriesImage_cons, List.length_append, Codec.length_encode,
      Codec.u32_size, Codec.u64_size, List.length_cons, ih]
    ring

theorem length_image (t : CompactPageTable) :
    t.image.length = t.serializationBufLen := by
  simp only [image, padImage, serializationBufLen, List.length_append,
    Codec.length_encode, Codec.u32_size, Codec.u64_size, length_entriesImage,
    tableLen]
  by_cases hodd : t.innerPgTable.length % 2 = 1
  · simp only [hodd, if_true, Codec.length_encode, Codec.u32_size]
    ring
  · simp only [hodd, if_false, List.length_nil]
    ring

/-! ## Writing -/

variable {cur : BytesMut}

theorem writeEntries_eq (es : List (UInt32 × UInt64))
    (hlen : 12 * es.length ≤ cur.len) (m : Memory) :
    writeEntries es cur m =
      .ok (writeBytes m cur.ptr (entriesImage es),
        cur.after (12 * es.length)) := by
  induction es generalizing cur m with
  | nil => simp [writeEntries]
  | cons e es ih =>
    rw [List.length_cons] at hlen
    have h₁ : u32.size ≤ cur.len := by simp; omega
    have h₂ : u64.size ≤ (cur.after u32.size).len := by simp; omega
    have h₃ : 12 * es.length ≤ (cur.after (u32.size + u64.size)).len := by
      simp; omega
    have hptr₁ : (cur.after u32.size).ptr =
        cur.ptr + (u32.encode e.1).length := by
      rw [BytesMut.after_ptr h₁, Codec.length_encode]
    have hptr₂ : (cur.after (u32.size + u64.size)).ptr =
        cur.ptr + (u32.encode e.1 ++ u64.encode e.2).length := by
      rw [BytesMut.after_ptr (by simp; omega), List.length_append,
        Codec.length_encode, Codec.length_encode]
    have hsize : u32.size + u64.size + 12 * es.length =
        12 * (es.length + 1) := by
      simp only [Codec.u32_size, Codec.u64_size]
      ring
    simp only [writeEntries, BytesMut.writeUnalignedAtHead,
      BytesMut.truncateHeader_of_le h₁, BytesMut.truncateHeader_of_le h₂,
      Outcome.unwrap_some, Outcome.ok_bind, BytesMut.after_after]
    rw [ih h₃, hptr₁, hptr₂, writeBytes_append, writeBytes_append,
      BytesMut.after_after, hsize, entriesImage_cons, List.append_assoc,
      List.length_cons]

theorem writePad_eq (count : ℕ)
    (hlen : (padImage count).length ≤ cur.len) (m : Memory) :
    writePad count cur m =
      .ok (writeBytes m cur.ptr (padImage count),
        cur.after (padImage count).length) := by
  by_cases hodd : count % 2 = 1
  · rw [padImage, if_pos hodd, Codec.length_encode] at hlen
    simp only [writePad, padImage, if_pos hodd, Outcome.unwrap_some,
      BytesMut.memcpySerializeAt_zero hlen, Outcome.ok_bind,
      BytesMut.truncateHeader_of_le hlen, Codec.length_encode]
  · simp [writePad, padImage, hodd]

theorem serialize_eq (t : CompactPageTable) {b : BytesMut}
    (hlen : t.serializationBufLen ≤ b.len) (m : Memory) :
    t.serialize b m = .ok (writeBytes m b.ptr t.image, true) := by
  have himage := t.length_image
  rw [image, List.length_append, List.length_append, Codec.length_encode,
    length_entriesImage] at himage
  have h₁ : u64.size ≤ b.len := by omega
  have h₂ : (padImage t.tableLen).length ≤ (b.after u64.size).len := by
    rw [BytesMut.after_len]
    omega
  have h₃ : 12 * t.innerPgTable.length ≤
      (b.after (u64.size + (padImage t.tableLen).length)).len := by
    rw [BytesMut.after_len]
    omega
  have hptr₁ : (b.after u64.size).ptr =
      b.ptr + (u64.encode (.ofNat t.innerPgTable.length)).length := by
    rw [BytesMut.after_ptr h₁, Codec.length_encode]
  have hptr₂ : (b.after (u64.size + (padImage t.tableLen).length)).ptr =
      b.ptr + (u64.encode (.ofNat t.innerPgTable.length) ++
        padImage t.tableLen).length := by
    rw [BytesMut.after_ptr (by omega), List.length_append,
      Codec.length_encode]
  rw [serialize, if_neg (Nat.not_lt.mpr hlen)]
  simp only [BytesMut.truncateHeader_zero, Outcome.unwrap_some,
    Outcome.ok_bind, BytesMut.memcpySerializeAt_zero h₁,
    BytesMut.truncateHeader_of_le h₁]
  rw [writePad_eq t.tableLen h₂]
  simp only [Outcome.ok_bind, BytesMut.after_after]
  rw [writeEntries_eq t.innerPgTable h₃, hptr₁, hptr₂]
  simp only [Outcome.ok_bind]
  rw [writeBytes_append, writeBytes_append, image, List.append_assoc]

/-! ## Reading -/

theorem readEntries_of_holds {es : List (UInt32 × UInt64)}
    {m : Memory} (hlen : 12 * es.length ≤ cur.len)
    (hm : Holds m cur.ptr (entriesImage es)) :
    readEntries es.length cur m = .ok (es, cur.after (12 * es.length)) := by
  induction es generalizing cur with
  | nil => simp [readEntries]
  | cons e es ih =>
    rw [List.length_cons] at hlen
    have h₁ : u32.size ≤ cur.len := by simp; omega
    have h₂ : u64.size ≤ (cur.after u32.size).len := by simp; omega
    have h₃ : 12 * es.length ≤ (cur.after (u32.size + u64.size)).len := by
      simp; omega
    rw [entriesImage_cons, holds_append, holds_append,
      Codec.length_encode, Codec.length_encode] at hm
    obtain ⟨hoffset, hword, hrest⟩ := hm
    rw [← BytesMut.after_ptr h₁] at hword
    rw [Nat.add_assoc, ← BytesMut.after_ptr (by simp; omega)] at hrest
    have hsize : u32.size + u64.size + 12 * es.length =
        12 * (es.length + 1) := by
      simp only [Codec.u32_size, Codec.u64_size]
      ring
    simp only [List.length_cons, readEntries,
      BytesMut.readUnalignedAtHead_of_holds hoffset,
      BytesMut.truncateHeader_of_le h₁, Outcome.orAbsent_some,
      Outcome.ok_bind, BytesMut.readUnalignedAtHead_of_holds hword,
      BytesMut.truncateHeader_of_le h₂, BytesMut.after_after,
      ih h₃ hrest, hsize]

theorem readPad_of_le {count : ℕ}
    (hlen : (padImage count).length ≤ cur.len) (m : Memory) :
    readPad count cur m = .ok (cur.after (padImage count).length) := by
  by_cases hodd : count % 2 = 1
  · rw [padImage, if_pos hodd, Codec.length_encode] at hlen
    simp only [readPad, padImage, if_pos hodd, BytesMut.memcpyDeserialize,
      if_pos hlen, Outcome.orAbsent_some, Outcome.ok_bind,
      BytesMut.truncateHeader_of_le hlen, Codec.length_encode]
  · simp [readPad, padImage, hodd]

theorem deserialize_of_holds {t : CompactPageTable} {b : BytesMut}
    {m : Memory} (hlen : t.serializationBufLen ≤ b.len)
    (hm : Holds m b.ptr t.image) : deserialize b m = .ok t := by
  have himage := t.length_image
  rw [image, List.length_append, List.length_append, Codec.length_encode,
    length_entriesImage] at himage
  have h₁ : u64.size ≤ b.len := by omega
  have h₂ : (padImage t.tableLen).length ≤ (b.after u64.size).len := by
    rw [BytesMut.after_len]
    omega
  have h₃ : 12 * t.innerPgTable.length ≤
      (b.after (u64.size + (padImage t.tableLen).length)).len := by
    rw [BytesMut.after_len]
    omega
  have hcount : (UInt64.ofNat t.innerPgTable.length).toNat =
      t.innerPgTable.length :=
    toNat_ofNat_of_le (by omega)
      ((Nat.le_add_left _ _).trans b.inAddressSpace)
  rw [image, holds_append, holds_append, Codec.length_encode] at hm
  obtain ⟨hn, -, hentries⟩ := hm
  rw [Nat.add_assoc, ← BytesMut.after_ptr (by omega)] at hentries
  simp only [deserialize, BytesMut.truncateHeader_zero, Outcome.unwrap_some,
    Outcome.ok_bind, BytesMut.memcpyDeserialize_of_holds h₁ hn,
    Outcome.orAbsent_some, BytesMut.truncateHeader_of_le h₁, hcount]
  rw [tableLen] at h₂ h₃ hentries
  rw [readPad_of_le h₂ m]
  simp only [Outcome.ok_bind, BytesMut.after_after]
  rw [readEntries_of_holds h₃ hentries]
  rfl

end CompactPageTable

namespace ParentDescriptor

variable (L : Layout)

def tablesImage (vmas : List VMADescriptor) (tables : List CompactPageTable) :
    List UInt8 :=
  (vmas.zip tables).flatMap fun e => L.vma.encode e.1 ++ e.2.image

def image (d : ParentDescriptor) : List UInt8 :=
  L.regs.encode d.regs ++ (u64.encode (.ofNat d.pageTable.length) ++
    (tablesImage L d.vma d.pageTable ++ L.rdma.encode d.machineInfo))

variable {L}

variable {vmas : List VMADescriptor} {tables : List CompactPageTable} {d : ParentDescriptor}

theorem tablesImage_cons (v : VMADescriptor) (vmas : List VMADescriptor)
    (t : CompactPageTable) (tables : List CompactPageTable) :
    tablesImage L (v :: vmas) (t :: tables) =
      L.vma.encode v ++ (t.image ++ tablesImage L vmas tables) := by
  simp [tablesImage]

theorem length_tablesImage (h : vmas.length = tables.length) :
    (tablesImage L vmas tables).length = vmas.length * L.vma.size +
      (tables.map CompactPageTable.serializationBufLen).sum := by
  induction tables generalizing vmas with
  | nil =>
    have hnil : vmas = [] := List.eq_nil_of_length_eq_zero h
    simp [tablesImage, hnil]
  | cons t tables ih =>
    obtain ⟨v, vmas, rfl⟩ := List.exists_cons_of_length_eq_add_one h
    have hrest : vmas.length = tables.length := by simpa using h
    simp only [tablesImage_cons, List.length_append, Codec.length_encode,
      CompactPageTable.length_image, ih hrest, List.length_cons,
      List.map_cons, List.sum_cons]
    ring

/-- The length that `serialize` asks for is eight bytes more than it
writes. -/
theorem length_image (h : d.vma.length = d.pageTable.length) :
    (d.image L).length + 8 = d.serializationBufLen L := by
  simp only [image, serializationBufLen, vmaPgTableSerializationBufLen,
    List.length_append, Codec.length_encode, length_tablesImage h,
    Codec.u64_size]
  ring

theorem length_le_length_tablesImage (h : vmas.length = tables.length) :
    tables.length * 8 ≤ (tablesImage L vmas tables).length := by
  rw [length_tablesImage h]
  refine le_add_left ?_
  induction tables generalizing vmas with
  | nil => simp
  | cons t tables ih =>
    obtain ⟨v, vmas, rfl⟩ := List.exists_cons_of_length_eq_add_one h
    have hrest : vmas.length = tables.length := by simpa using h
    have hone : 8 ≤ t.serializationBufLen := by
      simp only [CompactPageTable.serializationBufLen, Codec.u64_size]
      split <;> omega
    have := ih hrest
    simp only [List.length_cons, List.map_cons, List.sum_cons]
    omega

/-! ## Writing -/

theorem writeTables_eq {i : ℕ} {cur : BytesMut}
    (hlength : (vmas.drop i).length = tables.length)
    (hlen : (tablesImage L (vmas.drop i) tables).length ≤ cur.len)
    (m : Memory) :
    writeTables L vmas i tables cur m =
      .ok (writeBytes m cur.ptr (tablesImage L (vmas.drop i) tables),
        cur.after (tablesImage L (vmas.drop i) tables).length,
        List.replicate (2 * tables.length) true) := by
  induction tables generalizing i cur m with
  | nil => simp [writeTables, tablesImage]
  | cons t tables ih =>
    rw [List.length_drop, List.length_cons] at hlength
    have hi : i < vmas.length := by omega
    have hrest : (vmas.drop (i + 1)).length = tables.length := by
      rw [List.length_drop]
      omega
    rw [List.drop_eq_getElem_cons hi] at hlen ⊢
    rw [tablesImage_cons, List.length_append, List.length_append,
      Codec.length_encode, CompactPageTable.length_image] at hlen
    have h₁ : L.vma.size ≤ cur.len := by omega
    have h₂ : t.serializationBufLen ≤ (cur.after L.vma.size).len := by
      rw [BytesMut.after_len]
      omega
    have h₃ : (tablesImage L (vmas.drop (i + 1)) tables).length ≤
        (cur.after (L.vma.size + t.serializationBufLen)).len := by
      rw [BytesMut.after_len]
      omega
    have hptr₁ : (cur.after L.vma.size).ptr =
        cur.ptr + (L.vma.encode vmas[i]).length := by
      rw [BytesMut.after_ptr h₁, Codec.length_encode]
    have hptr₂ : (cur.after (L.vma.size + t.serializationBufLen)).ptr =
        cur.ptr + (L.vma.encode vmas[i] ++ t.image).length := by
      rw [BytesMut.after_ptr (by omega), List.length_append,
        Codec.length_encode, CompactPageTable.length_image]
    simp only [writeTables, List.getElem?_eq_getElem hi,
      Outcome.unwrap_some, Outcome.ok_bind, BytesMut.serialize_of_le h₁,
      BytesMut.truncateHeader_of_le h₁, t.serialize_eq h₂,
      BytesMut.truncateHeader_of_le h₂, BytesMut.after_after]
    rw [ih hrest h₃, hptr₁, hptr₂, writeBytes_append]
    simp only [Outcome.ok_bind, BytesMut.after_after]
    rw [writeBytes_append, tablesImage_cons, List.append_assoc,
      List.length_append, List.length_append, Codec.length_encode,
      CompactPageTable.length_image, Nat.add_assoc, List.length_cons,
      Nat.mul_succ, List.replicate_succ, List.replicate_succ]

theorem serialize_eq {b : BytesMut}
    (h : d.vma.length = d.pageTable.length)
    (hlen : d.serializationBufLen L ≤ b.len) (m : Memory) :
    d.serialize L b m =
      .ok ⟨writeBytes m b.ptr (d.image L), true,
        List.replicate (2 * d.pageTable.length + 2) true⟩ := by
  have himage := length_image (L := L) h
  simp only [image, List.length_append, Codec.length_encode] at himage
  have h₁ : L.regs.size ≤ b.len := by omega
  have h₂ : u64.size ≤ (b.after L.regs.size).len := by
    rw [BytesMut.after_len]
    omega
  have h₃ : (tablesImage L (d.vma.drop 0) d.pageTable).length ≤
      (b.after (L.regs.size + u64.size)).len := by
    rw [BytesMut.after_len, List.drop_zero]
    omega
  have h₄ : L.rdma.size ≤ (b.after (L.regs.size + u64.size +
      (tablesImage L d.vma d.pageTable).length)).len := by
    rw [BytesMut.after_len]
    omega
  have hptr₁ : (b.after L.regs.size).ptr =
      b.ptr + (L.regs.encode d.regs).length := by
    rw [BytesMut.after_ptr h₁, Codec.length_encode]
  have hptr₂ : (b.after (L.regs.size + u64.size)).ptr =
      b.ptr + (L.regs.encode d.regs ++
        u64.encode (.ofNat d.pageTable.length)).length := by
    rw [BytesMut.after_ptr (by omega), List.length_append,
      Codec.length_encode, Codec.length_encode]
  have hptr₃ : (b.after (L.regs.size + u64.size +
      (tablesImage L d.vma d.pageTable).length)).ptr =
      b.ptr + (L.regs.encode d.regs ++
        u64.encode (.ofNat d.pageTable.length) ++
        tablesImage L d.vma d.pageTable).length := by
    rw [BytesMut.after_ptr (by omega), List.length_append,
      List.length_append, Codec.length_encode, Codec.length_encode]
  rw [serialize, if_neg (Nat.not_lt.mpr hlen)]
  simp only [BytesMut.truncateHeader_zero, Outcome.unwrap_some,
    Outcome.ok_bind, BytesMut.serialize_of_le h₁,
    BytesMut.truncateHeader_of_le h₁, BytesMut.memcpySerializeAt_zero h₂,
    BytesMut.truncateHeader_of_le h₂, BytesMut.after_after,
    Outcome.assert_true h]
  rw [writeTables_eq (by simpa using h) h₃]
  simp only [List.drop_zero, Outcome.ok_bind, BytesMut.after_after,
    BytesMut.serialize_of_le h₄]
  rw [hptr₁, hptr₂, hptr₃, writeBytes_append, writeBytes_append,
    writeBytes_append, image]
  simp only [List.append_assoc]
  congr 2
  rw [← List.replicate_succ', ← List.replicate_succ]

/-! ## Reading -/

theorem readTables_of_holds {cur : BytesMut} {m : Memory}
    (hlength : vmas.length = tables.length)
    (hlen : (tablesImage L vmas tables).length ≤ cur.len)
    (hm : Holds m cur.ptr (tablesImage L vmas tables)) :
    readTables L tables.length cur m =
      .ok (vmas, tables,
        cur.after (tablesImage L vmas tables).length) := by
  induction tables generalizing vmas cur with
  | nil =>
    have hnil : vmas = [] := List.eq_nil_of_length_eq_zero hlength
    simp [readTables, tablesImage, hnil]
  | cons t tables ih =>
    obtain ⟨v, vmas, rfl⟩ := List.exists_cons_of_length_eq_add_one hlength
    have hrest : vmas.length = tables.length := by simpa using hlength
    rw [tablesImage_cons] at hlen hm ⊢
    rw [List.length_append, List.length_append, Codec.length_encode,
      CompactPageTable.length_image] at hlen
    rw [holds_append, holds_append, Codec.length_encode,
      CompactPageTable.length_image] at hm
    obtain ⟨hvma, htable, htables⟩ := hm
    have h₁ : L.vma.size ≤ cur.len := by omega
    have h₂ : t.serializationBufLen ≤ (cur.after L.vma.size).len := by
      rw [BytesMut.after_len]
      omega
    have h₃ : (tablesImage L vmas tables).length ≤
        (cur.after (L.vma.size + t.serializationBufLen)).len := by
      rw [BytesMut.after_len]
      omega
    rw [← BytesMut.after_ptr h₁] at htable
    rw [Nat.add_assoc, ← BytesMut.after_ptr (by omega)] at htables
    simp only [List.length_cons, readTables,
      BytesMut.deserialize_of_holds h₁ hvma, Outcome.orAbsent_some,
      Outcome.ok_bind, BytesMut.truncateHeader_of_le h₁,
      CompactPageTable.deserialize_of_holds h₂ htable,
      BytesMut.truncateHeader_of_le h₂, BytesMut.after_after,
      ih hrest h₃ htables]
    rw [List.length_append, List.length_append, Codec.length_encode,
      CompactPageTable.length_image, Nat.add_assoc]

theorem deserialize_of_holds {b : BytesMut}
    {m : Memory} (h : d.vma.length = d.pageTable.length)
    (hlen : (d.image L).length ≤ b.len)
    (hm : Holds m b.ptr (d.image L)) : deserialize L b m = .ok d := by
  simp only [image, List.length_append, Codec.length_encode] at hlen
  have htables := length_le_length_tablesImage (L := L) h
  have h₁ : L.regs.size ≤ b.len := by omega
  have h₂ : u64.size ≤ (b.after L.regs.size).len := by
    rw [BytesMut.after_len]
    omega
  have h₃ : (tablesImage L d.vma d.pageTable).length ≤
      (b.after (L.regs.size + u64.size)).len := by
    rw [BytesMut.after_len]
    omega
  have h₄ : L.rdma.size ≤ (b.after (L.regs.size + u64.size +
      (tablesImage L d.vma d.pageTable).length)).len := by
    rw [BytesMut.after_len]
    omega
  have hcount : (UInt64.ofNat d.pageTable.length).toNat =
      d.pageTable.length :=
    toNat_ofNat_of_le (htables.trans (by omega))
      ((Nat.le_add_left _ _).trans b.inAddressSpace)
  simp only [image, holds_append, Codec.length_encode] at hm
  obtain ⟨hregs, hn, htables, hinfo⟩ := hm
  rw [← BytesMut.after_ptr h₁] at hn
  rw [Nat.add_assoc, ← BytesMut.after_ptr (by omega)] at htables
  rw [Nat.add_assoc, Nat.add_assoc, ← BytesMut.after_ptr (by omega),
    ← Nat.add_assoc] at hinfo
  simp only [deserialize, BytesMut.truncateHeader_zero, Outcome.unwrap_some,
    Outcome.ok_bind, BytesMut.deserialize_of_holds h₁ hregs,
    Outcome.orAbsent_some, BytesMut.truncateHeader_of_le h₁,
    BytesMut.memcpyDeserialize_of_holds h₂ hn,
    BytesMut.truncateHeader_of_le h₂, BytesMut.after_after, hcount]
  rw [readTables_of_holds h h₃ htables]
  simp only [Outcome.ok_bind, BytesMut.after_after,
    BytesMut.deserialize_of_holds h₄ hinfo, Outcome.orAbsent_some]

/-! ## The round trip -/

/-- `serialize` succeeds exactly in a window of the required length.  Then no
inner call fails, exactly the image is written, which is eight bytes shorter
than the required length, and `deserialize` gives the descriptor back;
otherwise memory is unchanged. -/
theorem serialize_round_trip (L : Layout) (d : ParentDescriptor)
    (h : d.vma.length = d.pageTable.length) (b : BytesMut) (m : Memory) :
    ∃ r, d.serialize L b m = .ok r ∧
      (r.returned = true ↔ d.serializationBufLen L ≤ b.len) ∧
      (r.returned = true →
        (∀ done ∈ r.dropped, done = true) ∧
        r.memory = writeBytes m b.ptr (d.image L) ∧
        (d.image L).length = d.serializationBufLen L - 8 ∧
        (∀ a, a < b.ptr ∨ b.ptr + (d.serializationBufLen L - 8) ≤ a →
          r.memory a = m a) ∧
        deserialize L b r.memory = .ok d) ∧
      (r.returned = false → r.memory = m) := by
  have himage := length_image (L := L) h
  by_cases hlen : d.serializationBufLen L ≤ b.len
  · refine ⟨_, serialize_eq h hlen m, by simp [hlen], ?_, by simp⟩
    intro _
    have hlength : (d.image L).length = d.serializationBufLen L - 8 := by
      omega
    refine ⟨?_, rfl, hlength, ?_, ?_⟩
    · intro done hdone
      exact List.eq_of_mem_replicate hdone
    · intro a ha
      rw [← hlength] at ha
      exact writeBytes_outside m ha
    · exact deserialize_of_holds h (by omega) (holds_writeBytes m b.ptr _)
  · refine ⟨⟨m, false, []⟩, ?_, by simp [hlen], by simp, by simp⟩
    rw [serialize, if_pos (Nat.lt_of_not_le hlen)]

/-- One area with one page, into a window of 320 bytes. -/
theorem serialize_round_trip_one_page :
    let regs : RegDescriptor := ⟨⟨1, 2, 3, 4, 5, 6, 7, 8, 9, 10, 11, 12, 13, 14,
      15, 16, 17, 18, 19, 20, 21⟩, 22, 23⟩
    let d : ParentDescriptor := ⟨regs, [⟨[(4096, 8196)]⟩],
      [⟨(4194304, 4202496), 3, 37, true⟩], ⟨0, 1, (2, 3), 4, 5, 6, 7, 8⟩⟩
    let b : BytesMut := ⟨4096, 320, by decide⟩
    d.vma.length = d.pageTable.length ∧
      ∃ r, d.serialize Layout.packed b (fun _ => 0) = .ok r ∧
        deserialize Layout.packed b r.memory = .ok d := by
  intro regs d b
  obtain ⟨r, hr, hiff, hdone, -⟩ :=
    serialize_round_trip Layout.packed d rfl b (fun _ => 0)
  exact ⟨rfl, r, hr, (hdone (hiff.mpr (by decide))).2.2.2.2⟩

end ParentDescriptor

end Mitosis.Descriptors
