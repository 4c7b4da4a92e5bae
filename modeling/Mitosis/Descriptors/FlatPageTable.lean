import Mitosis.Descriptors.RoundTrip
import Mitosis.Support.KeyedMap

/-!
# The flat page table

`FlatPageTable` keeps the pages of a process in a hash map.  It is written as

    number of entries | address, page | … | address, page

in the order in which the hash map enumerates its entries.  That order is not
determined by the contents of the map, so it is an argument of the writer; the reader
inserts the entries one by one into an empty map.

Lengths are natural numbers, as for the other tables: a map whose length in this
format overflows does not fit in memory.
-/

namespace Mitosis.Descriptors

open Support OsNetwork
open Support.Codec (u64)

/-- The mapping from the virtual addresses of a process to remote pages. -/
structure FlatPageTable where
  pageMap : Finmap fun _ : UInt64 => UInt64

namespace FlatPageTable

def new : FlatPageTable := ⟨∅⟩

def addOne (t : FlatPageTable) (v p : UInt64) : FlatPageTable := ⟨t.pageMap.insert v p⟩

def len (t : FlatPageTable) : ℕ := t.pageMap.entries.card

/-- `FlatPageTable::iter`: an order in which the hash map may enumerate its entries. -/
abbrev Iter (t : FlatPageTable) :=
  {order : AList fun _ : UInt64 => UInt64 // order.toFinmap = t.pageMap}

def calculateSerializationBufLen (len : ℕ) : ℕ := (u64.size + u64.size) * len + u64.size

def serializationBufLen (t : FlatPageTable) : ℕ := calculateSerializationBufLen t.len

def writeEntries : List (Σ _ : UInt64, UInt64) → BytesMut → Memory → Outcome Memory
  | [], _, m => .ok m
  | ⟨vaddr, paddr⟩ :: es, cur, m => do
    let r₀ := cur.memcpySerializeAt u64 m 0 vaddr
    let sz₀ ← Outcome.unwrap r₀.2
    let r₁ := cur.memcpySerializeAt u64 r₀.1 sz₀ paddr
    let sz₁ ← Outcome.unwrap r₁.2
    let cur ← Outcome.unwrap (cur.truncateHeader (sz₀ + sz₁))
    writeEntries es cur r₁.1

def serialize (t : FlatPageTable) (order : t.Iter) (bytes : BytesMut) (m : Memory) :
    Outcome (Memory × Bool) :=
  if bytes.len < t.serializationBufLen then
    .ok (m, false)
  else do
    let cur ← Outcome.unwrap (bytes.truncateHeader 0)
    let r := cur.memcpySerializeAt u64 m 0 (.ofNat t.len)
    let sz ← Outcome.unwrap r.2
    let cur ← Outcome.unwrap (cur.truncateHeader sz)
    let m ← writeEntries order.1.entries cur r.1
    .ok (m, true)

/-- The loop that reads the entries and inserts them. -/
def readEntries :
    ℕ → BytesMut → Memory → (Finmap fun _ : UInt64 => UInt64) →
      Option (Finmap fun _ : UInt64 => UInt64)
  | 0, _, _, res => some res
  | n + 1, cur, m, res => do
    let (virt, sz₀) ← cur.memcpyDeserializeAt u64 m 0
    let (phy, sz₁) ← cur.memcpyDeserializeAt u64 m sz₀
    let res := res.insert virt phy
    let cur ← cur.truncateHeader (sz₀ + sz₁)
    readEntries n cur m res

def deserialize (bytes : BytesMut) (m : Memory) : Option FlatPageTable := do
  let (count, off) ← bytes.memcpyDeserialize u64 m
  let cur ← bytes.truncateHeader off
  let res ← readEntries count.toNat cur m ∅
  some ⟨res⟩

variable {t : FlatPageTable}

theorem Iter.length_entries (order : t.Iter) :
    order.1.entries.length = t.len := by
  have h : order.1.toFinmap.entries.card = t.len := congrArg (fun m => m.entries.card) order.2
  rw [← h, AList.toFinmap_entries, Multiset.coe_card]

theorem serializationBufLen_eq (t : FlatPageTable) : t.serializationBufLen = 8 + 16 * t.len := by
  rw [serializationBufLen, calculateSerializationBufLen, Codec.u64_size, Nat.add_comm]

/-! ## The image -/

def entriesImage (es : List (Σ _ : UInt64, UInt64)) : List UInt8 :=
  es.flatMap fun e => u64.encode e.1 ++ u64.encode e.2

/-- The bytes of a table whose entries are enumerated in the given order. -/
def image (t : FlatPageTable) (order : t.Iter) : List UInt8 :=
  u64.encode (.ofNat t.len) ++ entriesImage order.1.entries

@[simp] theorem entriesImage_nil : entriesImage [] = [] := rfl

theorem entriesImage_cons (e : Σ _ : UInt64, UInt64) (es : List (Σ _ : UInt64, UInt64)) :
    entriesImage (e :: es) = u64.encode e.1 ++ (u64.encode e.2 ++ entriesImage es) := by
  simp [entriesImage]

@[simp] theorem length_entriesImage (es : List (Σ _ : UInt64, UInt64)) :
    (entriesImage es).length = 16 * es.length := by
  induction es with
  | nil => rfl
  | cons e es ih =>
    simp only [entriesImage_cons, List.length_append, Codec.length_encode, Codec.u64_size, ih,
      List.length_cons]
    ring

theorem length_image (order : t.Iter) :
    (t.image order).length = t.serializationBufLen := by
  rw [image, List.length_append, Codec.length_encode, length_entriesImage, order.length_entries,
    serializationBufLen_eq, Codec.u64_size]

/-! ## Writing -/

variable {cur b : BytesMut}

theorem writeEntries_eq (es : List (Σ _ : UInt64, UInt64))
    (hlen : 16 * es.length ≤ cur.len) (m : Memory) :
    writeEntries es cur m = .ok (writeBytes m cur.ptr (entriesImage es)) := by
  induction es generalizing cur m with
  | nil => simp [writeEntries]
  | cons e es ih =>
    obtain ⟨v, p⟩ := e
    rw [List.length_cons] at hlen
    have hv : u64.size ≤ cur.len := by rw [Codec.u64_size]; omega
    have hp : u64.size + u64.size ≤ cur.len := by rw [Codec.u64_size]; omega
    have hrest : 16 * es.length ≤ (cur.after (u64.size + u64.size)).len := by
      rw [BytesMut.after_len, Codec.u64_size]
      omega
    have hvlen : cur.ptr + u64.size = cur.ptr + (u64.encode v).length := by
      rw [Codec.length_encode]
    have hplen : cur.ptr + (u64.size + u64.size) =
        cur.ptr + (u64.encode v ++ u64.encode p).length := by
      rw [List.length_append, Codec.length_encode, Codec.length_encode]
    simp only [writeEntries, BytesMut.memcpySerializeAt_zero hv,
      BytesMut.memcpySerializeAt_of_le hp, BytesMut.truncateHeader_of_le hp,
      Outcome.unwrap_some, Outcome.ok_bind]
    rw [ih hrest, BytesMut.after_ptr hp, hvlen, writeBytes_append, hplen, writeBytes_append,
      entriesImage_cons, List.append_assoc]

theorem serialize_eq (order : t.Iter)
    (hlen : t.serializationBufLen ≤ b.len) (m : Memory) :
    t.serialize order b m = .ok (writeBytes m b.ptr (t.image order), true) := by
  rw [serializationBufLen_eq] at hlen
  have hcount : u64.size ≤ b.len := by rw [Codec.u64_size]; omega
  have hrest : 16 * order.1.entries.length ≤ (b.after u64.size).len := by
    rw [order.length_entries, BytesMut.after_len, Codec.u64_size]
    omega
  have hptr : b.ptr + u64.size = b.ptr + (u64.encode (.ofNat t.len)).length := by
    rw [Codec.length_encode]
  rw [serialize, if_neg (by rw [serializationBufLen_eq]; omega)]
  simp only [BytesMut.truncateHeader_zero, BytesMut.memcpySerializeAt_zero hcount,
    BytesMut.truncateHeader_of_le hcount, Outcome.unwrap_some, Outcome.ok_bind,
    writeEntries_eq _ hrest]
  rw [BytesMut.after_ptr hcount, hptr, writeBytes_append, image]

/-! ## Reading -/

variable {m : Memory}

theorem readEntries_of_holds {es : List (Σ _ : UInt64, UInt64)}
    (hlen : 16 * es.length ≤ cur.len) (h : Holds m cur.ptr (entriesImage es))
    (res : Finmap fun _ : UInt64 => UInt64) :
    readEntries es.length cur m res =
      some (es.foldl (fun res e => res.insert e.1 e.2) res) := by
  induction es generalizing cur res with
  | nil => rfl
  | cons e es ih =>
    obtain ⟨v, p⟩ := e
    rw [List.length_cons] at hlen
    rw [entriesImage_cons, holds_append, holds_append, Codec.length_encode,
      Codec.length_encode] at h
    obtain ⟨hv, hp, hes⟩ := h
    have hle₁ : 0 + u64.size ≤ cur.len := by rw [Codec.u64_size]; omega
    have hle₂ : u64.size + u64.size ≤ cur.len := by rw [Codec.u64_size]; omega
    have hrest : 16 * es.length ≤ (cur.after (u64.size + u64.size)).len := by
      rw [BytesMut.after_len, Codec.u64_size]
      omega
    rw [Nat.add_assoc, ← BytesMut.after_ptr hle₂] at hes
    simp only [List.length_cons, readEntries, BytesMut.memcpyDeserializeAt_of_le hle₁,
      BytesMut.memcpyDeserializeAt_of_le hle₂, BytesMut.truncateHeader_of_le hle₂,
      Option.bind_eq_bind, Option.bind_some, Nat.add_zero, Codec.decode_of_holds hv,
      Codec.decode_of_holds hp]
    exact ih hrest hes _

theorem readEntries_of_lt {n : ℕ} (hlen : cur.len < 16 * n) (m : Memory)
    (res : Finmap fun _ : UInt64 => UInt64) : readEntries n cur m res = none := by
  induction n generalizing cur res with
  | zero => simp at hlen
  | succ n ih =>
    rcases Nat.lt_or_ge cur.len (u64.size + u64.size) with hshort | hle
    · -- Either the address or the page is cut off.
      have hp := BytesMut.memcpyDeserializeAt_of_lt hshort m
      rcases Nat.lt_or_ge cur.len (0 + u64.size) with hv | hv
      · rw [readEntries, BytesMut.memcpyDeserializeAt_of_lt hv]
        rfl
      · simp only [readEntries, BytesMut.memcpyDeserializeAt_of_le hv, hp, Option.bind_eq_bind,
          Option.bind_some, Option.bind_none]
    · have hlong : 16 ≤ cur.len := hle
      have hv : 0 + u64.size ≤ cur.len := by rw [Codec.u64_size]; omega
      have hrest : (cur.after (u64.size + u64.size)).len < 16 * n := by
        rw [BytesMut.after_len, Codec.u64_size]
        omega
      simp only [readEntries, BytesMut.memcpyDeserializeAt_of_le hv,
        BytesMut.memcpyDeserializeAt_of_le hle, BytesMut.truncateHeader_of_le hle,
        Option.bind_eq_bind, Option.bind_some]
      exact ih hrest _

theorem toNat_len (hlen : t.serializationBufLen ≤ b.len) :
    (UInt64.ofNat t.len).toNat = t.len := by
  rw [serializationBufLen_eq] at hlen
  have hspace := b.inAddressSpace
  exact toNat_ofNat_of_le (show t.len * 8 ≤ b.len by omega) (by omega)

theorem deserialize_of_holds (order : t.Iter)
    (hlen : t.serializationBufLen ≤ b.len) (h : Holds m b.ptr (t.image order)) :
    deserialize b m = some t := by
  have hnat := toNat_len hlen
  rw [serializationBufLen_eq] at hlen
  rw [image, holds_append, Codec.length_encode] at h
  have hcount : u64.size ≤ b.len := by rw [Codec.u64_size]; omega
  have hrest : 16 * order.1.entries.length ≤ (b.after u64.size).len := by
    rw [order.length_entries, BytesMut.after_len, Codec.u64_size]
    omega
  have hread := readEntries_of_holds hrest (by rw [BytesMut.after_ptr hcount]; exact h.2) ∅
  rw [foldl_insert_entries, order.2, order.length_entries] at hread
  simp only [deserialize, BytesMut.memcpyDeserialize_of_holds hcount h.1,
    BytesMut.truncateHeader_of_le hcount, Option.bind_eq_bind, Option.bind_some, hnat, hread]

/-- The count is read from a cut image, or is cut itself; the entries it announces are
not all there. -/
theorem deserialize_of_begins (order : t.Iter)
    (hcount : (UInt64.ofNat t.len).toNat = t.len) (hshort : b.len < t.serializationBufLen)
    (h : Begins m b.ptr b.len (t.image order)) : deserialize b m = none := by
  rw [serializationBufLen_eq] at hshort
  rcases Nat.lt_or_ge b.len u64.size with hlt | hle
  · rw [deserialize, BytesMut.memcpyDeserialize_of_lt hlt]
    rfl
  · have hheld : Holds m b.ptr (u64.encode (.ofNat t.len)) :=
      (h.append (by rwa [Codec.length_encode])).1
    have hrest : (b.after u64.size).len < 16 * t.len := by
      rw [Codec.u64_size] at hle
      rw [BytesMut.after_len, Codec.u64_size]
      omega
    simp only [deserialize, BytesMut.memcpyDeserialize_of_holds hle hheld,
      BytesMut.truncateHeader_of_le hle, Option.bind_eq_bind, Option.bind_some, hcount,
      readEntries_of_lt hrest, Option.bind_none]

/-- In whatever order its entries are enumerated, a table is written into a buffer that
is long enough and read back from it as the same map, and no strict prefix of what was
written is accepted.  A buffer that is too short is left alone. -/
theorem flat_table_round_trip (t : FlatPageTable) (order : t.Iter) (b : BytesMut) (m : Memory) :
    (t.serializationBufLen ≤ b.len →
      ∃ m', t.serialize order b m = .ok (m', true) ∧ deserialize b m' = some t ∧
        ∀ (b₂ : BytesMut) (m₂ : Memory), b₂.len < t.serializationBufLen →
          Begins m₂ b₂.ptr b₂.len (readBytes m' b.ptr t.serializationBufLen) →
          deserialize b₂ m₂ = none) ∧
    (b.len < t.serializationBufLen → t.serialize order b m = .ok (m, false)) := by
  refine ⟨fun hlen => ?_, fun hshort => if_pos hshort⟩
  refine ⟨_, serialize_eq order hlen m, ?_, fun b₂ m₂ hshort h => ?_⟩
  · exact deserialize_of_holds order hlen (holds_writeBytes m b.ptr _)
  · rw [← length_image order, readBytes_writeBytes] at h
    exact deserialize_of_begins order (toNat_len hlen) hshort h

/-- Two entries in a buffer of 40 bytes at 64. -/
theorem flat_table_round_trip_two_entries :
    let t := (new.addOne 0xdeadbeaf 73).addOne 0xffff 64
    let order : t.Iter :=
      ⟨((∅ : AList fun _ : UInt64 => UInt64).insert 0xffff 64).insert 0xdeadbeaf 73, by decide⟩
    let b : BytesMut := ⟨64, 40, by decide⟩
    t.serializationBufLen = 40 ∧
      ∃ m', t.serialize order b (fun _ => 0) = .ok (m', true) ∧ deserialize b m' = some t := by
  intro t order b
  have hlen : t.serializationBufLen = 40 := by decide
  obtain ⟨m', hwrite, hread, -⟩ := (flat_table_round_trip t order b fun _ => 0).1 hlen.le
  exact ⟨hlen, m', hwrite, hread⟩

end FlatPageTable

end Mitosis.Descriptors
