import Mitosis.Descriptors.Decoders

/-!
# Truncated descriptors

A window shows the first bytes of a serialised descriptor and nothing else.
As long as a count lies in the window it is the count that was written, so the
place where a decoder wants to go next is known, and it lies behind the cut as
soon as the next part does.
-/

namespace Mitosis.Descriptors

open Support OsNetwork RemoteMapping
open Support.Codec (u64 u32)

variable {L : Layout} {m : Memory}

/-! ## What lies before the cut -/

theorem length_padImage (count : ℕ) :
    (CompactPageTable.padImage count).length = padSize count := by
  rw [CompactPageTable.padImage, padSize]
  split
  · rw [Codec.length_encode]
  · rfl

theorem length_table_image (t : CompactPageTable) :
    t.image.length = tableSize t.tableLen := by
  rw [CompactPageTable.image, tableSize, List.length_append, List.length_append,
    Codec.length_encode, length_padImage, CompactPageTable.length_entriesImage,
    CompactPageTable.tableLen]
  omega

theorem countAt_of_begins {t : CompactPageTable} {rest : List UInt8} {p n : ℕ}
    (hm : Begins m p n (t.image ++ rest)) (hn : u64.size ≤ n)
    (hbound : t.image.length ≤ 2 ^ 64) : countAt m p = t.tableLen := by
  have hfits : t.tableLen * 8 ≤ t.image.length := by
    rw [length_table_image, tableSize]
    omega
  rw [CompactPageTable.image, List.append_assoc] at hm
  rw [countAt, Codec.decode_of_holds (hm.append (by rwa [Codec.length_encode])).1]
  exact toNat_ofNat_of_le hfits hbound

theorem entriesAt_of_begins {es : List (UInt32 × UInt64)} {rest : List UInt8} {p n k : ℕ}
    (hm : Begins m p n (CompactPageTable.entriesImage es ++ rest)) (hk : k ≤ es.length)
    (hn : 12 * k ≤ n) : entriesAt m p k = es.take k := by
  induction k generalizing es p n with
  | zero => rfl
  | succ k ih =>
    obtain ⟨e, es, rfl⟩ := List.exists_cons_of_length_pos (Nat.lt_of_lt_of_le k.succ_pos hk)
    rw [CompactPageTable.entriesImage_cons, List.append_assoc, List.append_assoc] at hm
    obtain ⟨hvirt, hm⟩ := hm.append (by rw [Codec.length_encode, Codec.u32_size]; omega)
    rw [Codec.length_encode] at hm
    obtain ⟨hphy, hm⟩ := hm.append
      (by rw [Codec.length_encode, Codec.u64_size, Codec.u32_size]; omega)
    rw [Codec.length_encode, Nat.add_assoc, Nat.sub_sub] at hm
    rw [entriesAt, Codec.decode_of_holds hvirt, Codec.decode_of_holds hphy, List.take_succ_cons,
      ← ih hm (Nat.le_of_succ_le_succ hk) (by simp only [Codec.u32_size, Codec.u64_size]; omega)]
    rfl

theorem scannedTable_of_begins {t : CompactPageTable} {rest : List UInt8} {cur : BytesMut}
    (hm : Begins m cur.ptr cur.len (t.image ++ rest)) (hbound : t.image.length ≤ 2 ^ 64) :
    ∀ e ∈ scannedTable m cur, e ∈ t.innerPgTable := by
  intro e he
  rw [scannedTable] at he
  by_cases hheader : u64.size + padSize (countAt m cur.ptr) ≤ cur.len
  · have hcount := countAt_of_begins hm (by omega) hbound
    rw [hcount] at hheader he
    rw [CompactPageTable.image, List.append_assoc, List.append_assoc] at hm
    obtain ⟨-, hm⟩ := hm.append (by rw [Codec.length_encode]; omega)
    rw [Codec.length_encode] at hm
    obtain ⟨-, hm⟩ := hm.append (by rw [length_padImage]; omega)
    rw [length_padImage, Nat.add_assoc, Nat.sub_sub] at hm
    have hmin := Nat.min_le_right t.tableLen
      ((cur.len - (u64.size + padSize t.tableLen)) / 12)
    rw [entriesAt_of_begins hm (Nat.min_le_left t.tableLen _) (by omega)] at he
    exact List.mem_of_mem_take he
  · -- a cut in front of the entries leaves none to be scanned
    rw [Nat.sub_eq_zero_of_le (by omega), Nat.zero_div, Nat.min_zero] at he
    cases he

/-! ## The loop over the areas -/

section Tables

variable {v : VMADescriptor} {vmas : List VMADescriptor} {t : CompactPageTable}
  {tables : List CompactPageTable} {cur : BytesMut}

/-- Where the frame at the cursor ends, as far as it can be known. -/
theorem frameSize_of_begins
    (hm : Begins m cur.ptr cur.len (ParentDescriptor.tablesImage L (v :: vmas) (t :: tables)))
    (hbound : t.image.length ≤ 2 ^ 64) (hframe : frameSize L m cur.ptr ≤ cur.len) :
    frameSize L m cur.ptr = (L.vma.encode v ++ t.image).length ∧
      vmaAt L m cur.ptr = v ∧
      Begins m (cur.after (frameSize L m cur.ptr)).ptr (cur.after (frameSize L m cur.ptr)).len
        (ParentDescriptor.tablesImage L vmas tables) := by
  have hle : L.vma.size + u64.size ≤ cur.len := by
    rw [frameSize, tableSize] at hframe
    omega
  rw [ParentDescriptor.tablesImage_cons] at hm
  obtain ⟨hvma, hrest⟩ := hm.append (by rw [Codec.length_encode]; omega)
  have hcount := countAt_of_begins hrest (by rw [Codec.length_encode]; omega) hbound
  rw [Codec.length_encode] at hcount
  have hsize : frameSize L m cur.ptr = (L.vma.encode v ++ t.image).length := by
    rw [frameSize, hcount, List.length_append, Codec.length_encode, length_table_image]
  refine ⟨hsize, Codec.decode_of_holds hvma, ?_⟩
  rw [← List.append_assoc] at hm
  rw [BytesMut.after_ptr hframe, BytesMut.after_len, hsize]
  exact (hm.append (by omega)).2

variable (hbound : (ParentDescriptor.tablesImage L vmas tables).length ≤ 2 ^ 64)

include hbound

theorem readTables_truncated (hlength : vmas.length = tables.length)
    (hm : Begins m cur.ptr cur.len (ParentDescriptor.tablesImage L vmas tables))
    (hcut : cur.len < (ParentDescriptor.tablesImage L vmas tables).length) :
    ParentDescriptor.readTables L tables.length cur m = .error .absent := by
  induction tables generalizing vmas cur with
  | nil => simp [ParentDescriptor.tablesImage] at hcut
  | cons t tables ih =>
    obtain ⟨v, vmas, rfl⟩ := List.exists_cons_of_length_eq_add_one hlength
    rw [List.length_cons, readTables_succ]
    by_cases hframe : frameSize L m cur.ptr ≤ cur.len
    · have hparts := ParentDescriptor.tablesImage_cons (L := L) v vmas t tables
      rw [← List.append_assoc] at hparts
      rw [hparts, List.length_append] at hbound hcut
      rw [List.length_append] at hbound hcut
      obtain ⟨hsize, -, hrest⟩ := frameSize_of_begins hm (by omega) hframe
      rw [List.length_append] at hsize
      rw [if_pos hframe, ih (by omega) (by simpa using hlength) hrest
        (by rw [BytesMut.after_len]; omega)]
      rfl
    · rw [if_neg hframe]

theorem scannedTables_of_begins (hlength : vmas.length = tables.length)
    (hm : Begins m cur.ptr cur.len (ParentDescriptor.tablesImage L vmas tables))
    (hsums : EntriesCanonical vmas tables) :
    ∀ p ∈ scannedTables L m tables.length cur, SumAccepted p.1 p.2 := by
  induction tables generalizing vmas cur with
  | nil => simp [scannedTables]
  | cons t tables ih =>
    obtain ⟨v, vmas, rfl⟩ := List.exists_cons_of_length_eq_add_one hlength
    have hparts := ParentDescriptor.tablesImage_cons (L := L) v vmas t tables
    rw [hparts, List.length_append, List.length_append] at hbound
    rw [EntriesCanonical, List.zip_cons_cons, List.forall_mem_cons] at hsums
    intro p hp
    rw [List.length_cons, scannedTables] at hp
    by_cases hvma : L.vma.size ≤ cur.len
    · rw [if_pos hvma, List.mem_append] at hp
      rcases hp with hp | hp
      · have hfirst := hm
        rw [hparts] at hfirst
        obtain ⟨hv, htable⟩ := hfirst.append (by rwa [Codec.length_encode])
        rw [Codec.length_encode, ← BytesMut.after_ptr hvma, ← BytesMut.after_len] at htable
        obtain ⟨e, he, rfl⟩ := List.mem_map.mp hp
        rw [vmaAt, Codec.decode_of_holds hv]
        exact (hsums.1 e (scannedTable_of_begins htable (by omega) e he)).accepted
      · by_cases hframe : frameSize L m cur.ptr ≤ cur.len
        · obtain ⟨-, -, hrest⟩ := frameSize_of_begins hm (by omega) hframe
          rw [if_pos hframe] at hp
          exact ih (by omega) (by simpa using hlength) hrest hsums.2 p hp
        · rw [if_neg hframe] at hp
          cases hp
    · rw [if_neg hvma] at hp
      cases hp

end Tables

/-! ## The whole descriptor -/

section Descriptor

variable {d : ParentDescriptor} {b : BytesMut} (hlength : d.vma.length = d.pageTable.length)
  (hbound : (d.image L).length ≤ 2 ^ 64) (hm : Begins m b.ptr b.len (d.image L))

include hlength hbound hm

theorem countAt_descriptor (hhead : L.regs.size + u64.size ≤ b.len) :
    countAt m (b.ptr + L.regs.size) = d.pageTable.length ∧
      Begins m (b.after (L.regs.size + u64.size)).ptr (b.after (L.regs.size + u64.size)).len
        (ParentDescriptor.tablesImage L d.vma d.pageTable ++ L.rdma.encode d.machineInfo) := by
  have hfits := ParentDescriptor.length_le_length_tablesImage (L := L) hlength
  rw [ParentDescriptor.image] at hm hbound
  simp only [List.length_append, Codec.length_encode] at hbound
  obtain ⟨-, hm⟩ := hm.append (by rw [Codec.length_encode]; omega)
  rw [Codec.length_encode] at hm
  obtain ⟨hcount, hm⟩ := hm.append (by rw [Codec.length_encode]; omega)
  rw [Codec.length_encode, Nat.add_assoc, Nat.sub_sub] at hm
  rw [countAt, Codec.decode_of_holds hcount, BytesMut.after_ptr hhead, BytesMut.after_len]
  exact ⟨toNat_ofNat_of_le hfits (by omega), hm⟩

/-- A descriptor that is cut anywhere is refused. -/
theorem parent_deserialize_truncated (hcut : b.len < (d.image L).length) :
    ParentDescriptor.deserialize L b m = .error .absent := by
  rw [parent_deserialize_eq]
  by_cases hhead : L.regs.size + u64.size ≤ b.len
  · obtain ⟨hcount, htables⟩ := countAt_descriptor hlength hbound hm hhead
    rw [if_pos hhead, hcount]
    simp only [ParentDescriptor.image, List.length_append, Codec.length_encode] at hcut hbound
    have hafter : (b.after (L.regs.size + u64.size)).len = b.len - (L.regs.size + u64.size) :=
      BytesMut.after_len _ _
    by_cases hall : (ParentDescriptor.tablesImage L d.vma d.pageTable).length ≤
        (b.after (L.regs.size + u64.size)).len
    · -- the tables are whole, and the machine info is not
      rw [ParentDescriptor.readTables_of_holds hlength hall (htables.append hall).1,
        Outcome.ok_bind]
      dsimp only
      rw [if_neg (by rw [BytesMut.after_len]; omega)]
    · rw [readTables_truncated (by omega) hlength (htables.left) (by omega)]
      rfl
  · rw [if_neg hhead]

/-- Both decoders only add up what the descriptor holds. -/
theorem scannedSums_of_begins (hsums : EntriesCanonical d.vma d.pageTable) :
    ∀ p ∈ scannedSums L b m, SumAccepted p.1 p.2 := by
  intro p hp
  rw [scannedSums] at hp
  by_cases hhead : L.regs.size + u64.size ≤ b.len
  · obtain ⟨hcount, htables⟩ := countAt_descriptor hlength hbound hm hhead
    rw [if_pos hhead, hcount] at hp
    simp only [ParentDescriptor.image, List.length_append] at hbound
    exact scannedTables_of_begins (by omega) hlength htables.left hsums p hp
  · rw [if_neg hhead] at hp
    cases hp

end Descriptor

theorem memory_of_serialize {d : ParentDescriptor} (hlength : d.vma.length = d.pageTable.length)
    {bytes : BytesMut} {m : Memory} {r : Serialized} (h : d.serialize L bytes m = .ok r)
    (hreturned : r.returned = true) :
    d.serializationBufLen L ≤ bytes.len ∧ r.memory = writeBytes m bytes.ptr (d.image L) := by
  by_cases hlen : d.serializationBufLen L ≤ bytes.len
  · cases (ParentDescriptor.serialize_eq hlength hlen m).symm.trans h
    exact ⟨hlen, rfl⟩
  · rw [ParentDescriptor.serialize, if_pos (Nat.lt_of_not_le hlen)] at h
    cases h
    cases hreturned

/-- The first bytes of a serialised descriptor, read through a window.  Both
decoders refuse a window that is too short for what was written, and on any
other one the parent's gives the descriptor back.  Where an address overflows or
is not canonical the child's decoder may panic instead; it still accepts nothing
that was cut. -/
theorem deserialize_of_cut (L : Layout) (d : ParentDescriptor)
    (hlength : d.vma.length = d.pageTable.length) (bytes : BytesMut) (m : Memory)
    (r : Serialized) (hserialize : d.serialize L bytes m = .ok r)
    (hreturned : r.returned = true) (h : Heap) (b : BytesMut) (m' : Memory)
    (hcopy : ∀ i < min b.len (d.serializationBufLen L - 8),
      m' (b.ptr + i) = r.memory (bytes.ptr + i)) :
    (d.serializationBufLen L - 8 ≤ b.len →
      ParentDescriptor.deserialize L b m' = .ok d ∧
      (EntriesCanonical d.vma d.pageTable →
        ∃ c, ChildDescriptor.deserialize L h b m' = .ok c)) ∧
    (b.len < d.serializationBufLen L - 8 →
      ParentDescriptor.deserialize L b m' = .error .absent ∧
      (∀ c, ChildDescriptor.deserialize L h b m' ≠ .ok c) ∧
      (EntriesCanonical d.vma d.pageTable →
        ChildDescriptor.deserialize L h b m' = .error .absent)) := by
  obtain ⟨hlen, hmemory⟩ := memory_of_serialize hlength hserialize hreturned
  have himage : (d.image L).length = d.serializationBufLen L - 8 := by
    have := ParentDescriptor.length_image (L := L) hlength
    omega
  have hholds : Holds r.memory bytes.ptr (d.image L) := by
    rw [hmemory]
    exact holds_writeBytes m bytes.ptr _
  have hbound : (d.image L).length ≤ 2 ^ 64 := by
    have hspace := bytes.inAddressSpace
    omega
  rw [← himage] at hcopy ⊢
  have hbegins : Begins m' b.ptr b.len (d.image L) := hholds.begins_of_copy hcopy
  have hagree := fun hsums => deserialize_agree L h b m'
    (scannedSums_of_begins hlength hbound hbegins hsums)
  constructor
  · intro hle
    have hparent := ParentDescriptor.deserialize_of_holds hlength hle (hbegins.holds hle)
    refine ⟨hparent, fun hsums => ?_⟩
    rcases hagree hsums with ⟨habsent, -⟩ | ⟨_, c, -, hchild, -⟩
    · rw [hparent] at habsent
      cases habsent
    · exact ⟨c, hchild⟩
  · intro hcut
    have hparent := parent_deserialize_truncated hlength hbound hbegins hcut
    refine ⟨hparent, fun c hchild => ?_, fun hsums => ?_⟩
    · obtain ⟨d', hd'⟩ := parent_ok_of_child_ok L hchild
      rw [hparent] at hd'
      cases hd'
    · rcases hagree hsums with ⟨-, hchild⟩ | ⟨d', _, hd', -, -⟩
      · exact hchild
      · rw [hparent] at hd'
        cases hd'

/-- One page of an area: what was written is accepted, and a window that ends
inside the entry is not. -/
theorem deserialize_of_cut_one_page :
    let regs : RegDescriptor := ⟨⟨1, 2, 3, 4, 5, 6, 7, 8, 9, 10, 11, 12, 13, 14,
      15, 16, 17, 18, 19, 20, 21⟩, 22, 23⟩
    let d : ParentDescriptor := ⟨regs, [⟨[(4096, 8196)]⟩],
      [⟨(4194304, 4202496), 3, 37, true⟩], ⟨0, 1, (2, 3), 4, 5, 6, 7, 8⟩⟩
    let bytes : BytesMut := ⟨4096, 320, by decide⟩
    let cut : BytesMut := ⟨4096, 250, by decide⟩
    ∃ r, d.serialize Layout.packed bytes (fun _ => 0) = .ok r ∧
      ParentDescriptor.deserialize Layout.packed bytes r.memory = .ok d ∧
      (∃ c, ChildDescriptor.deserialize Layout.packed Heap.empty bytes r.memory = .ok c) ∧
      ParentDescriptor.deserialize Layout.packed cut r.memory = .error .absent ∧
      ChildDescriptor.deserialize Layout.packed Heap.empty cut r.memory = .error .absent := by
  intro regs d bytes cut
  have hr := ParentDescriptor.serialize_eq (L := Layout.packed) (d := d) (b := bytes) rfl
    (by decide) fun _ => 0
  have hsums : EntriesCanonical d.vma d.pageTable := by decide
  have hread := fun b : BytesMut => deserialize_of_cut Layout.packed d rfl bytes _ _ hr rfl
    Heap.empty b (writeBytes (fun _ => 0) bytes.ptr (d.image Layout.packed))
  obtain ⟨hparent, hchild⟩ := (hread bytes fun _ _ => rfl).1 (by decide)
  obtain ⟨hcut, -, hcutChild⟩ := (hread cut fun _ _ => rfl).2 (by decide)
  exact ⟨_, hr, hparent, hchild hsums, hcut, hcutChild hsums⟩

/-- The one page of an area that starts outside the canonical range: the whole
serialisation makes the child's decoder panic. -/
theorem child_deserialize_panics :
    let regs : RegDescriptor := ⟨⟨1, 2, 3, 4, 5, 6, 7, 8, 9, 10, 11, 12, 13, 14,
      15, 16, 17, 18, 19, 20, 21⟩, 22, 23⟩
    let d : ParentDescriptor := ⟨regs, [⟨[(4096, 8196)]⟩],
      [⟨(4611686018427387904, 4611686018427396096), 3, 37, true⟩],
      ⟨0, 1, (2, 3), 4, 5, 6, 7, 8⟩⟩
    let bytes : BytesMut := ⟨4096, 320, by decide⟩
    ∃ r, d.serialize Layout.packed bytes (fun _ => 0) = .ok r ∧ r.returned = true ∧
      d.serializationBufLen Layout.packed - 8 ≤ bytes.len ∧
      ParentDescriptor.deserialize Layout.packed bytes r.memory = .ok d ∧
      ChildDescriptor.deserialize Layout.packed Heap.empty bytes r.memory =
        .error .panicked := by
  intro regs d bytes
  have hr := ParentDescriptor.serialize_eq (L := Layout.packed) (d := d) (b := bytes) rfl
    (by decide) fun _ => 0
  refine ⟨_, hr, rfl, by decide, ?_, by decide +kernel⟩
  exact ParentDescriptor.deserialize_of_holds rfl (by decide +kernel) (holds_writeBytes _ _ _)

end Mitosis.Descriptors
