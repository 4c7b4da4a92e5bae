import Mitosis.Support.ByteMemory
import Mitosis.Support.Outcome

/-!
# `BytesMut` and the memory-copy serialisation

`BytesMut` is a window into memory: a raw pointer and a length.  Its methods
work on the memory behind the window; the unaligned accessors do not look at
the length at all, so they reach past the end of a short window exactly as the
source does.
-/

namespace Mitosis.OsNetwork

open Mitosis.Support

/-- A byte window.  It is built from a slice, so it lies inside the 64-bit
address space. -/
structure BytesMut where
  ptr : ℕ
  len : ℕ
  inAddressSpace : ptr + len ≤ 2 ^ 64

namespace BytesMut

variable {α : Type*}

/-- The window without its first `off` bytes. -/
def truncateHeader (b : BytesMut) (off : ℕ) : Option BytesMut :=
  if h : off ≤ b.len then
    some ⟨b.ptr + off, b.len - off, by have := b.inAddressSpace; omega⟩
  else
    none

/-- The first `sz` bytes of the window. -/
def cloneAndResize (b : BytesMut) (sz : ℕ) : Option BytesMut :=
  if h : sz ≤ b.len then
    some ⟨b.ptr, sz, (Nat.add_le_add_left h _).trans b.inAddressSpace⟩
  else
    none

/-- Copy a value to the head of the window, if it fits. -/
def memcpySerialize (b : BytesMut) (c : Codec α) (m : Memory) (v : α) :
    Memory × Option ℕ :=
  if c.size ≤ b.len then
    (writeBytes m b.ptr (c.encode v), some c.size)
  else
    (m, none)

/-- Copy a value to the window at an offset, if it fits. -/
def memcpySerializeAt (b : BytesMut) (c : Codec α) (m : Memory)
    (off : ℕ) (v : α) : Memory × Option ℕ :=
  match b.truncateHeader off with
  | some b' => b'.memcpySerialize c m v
  | none => (m, none)

/-- Copy a value from the head of the window, if it is long enough. -/
def memcpyDeserialize (b : BytesMut) (c : Codec α) (m : Memory) :
    Option (α × ℕ) :=
  if c.size ≤ b.len then
    some (c.decode (readBytes m b.ptr c.size), c.size)
  else
    none

/-- Copy a value from the window at an offset, if it is long enough. -/
def memcpyDeserializeAt (b : BytesMut) (c : Codec α) (m : Memory) (off : ℕ) :
    Option (α × ℕ) :=
  match b.truncateHeader off with
  | some b' => b'.memcpyDeserialize c m
  | none => none

/-- Write a value at the pointer, whatever the length of the window. -/
def writeUnalignedAtHead (b : BytesMut) (c : Codec α) (m : Memory) (v : α) :
    Memory × ℕ :=
  (writeBytes m b.ptr (c.encode v), c.size)

/-- Read a value at the pointer, whatever the length of the window. -/
def readUnalignedAtHead (b : BytesMut) (c : Codec α) (m : Memory) : α :=
  c.decode (readBytes m b.ptr c.size)

/-- The default `Serialize::serialize`: one memory copy. -/
def serialize (b : BytesMut) (c : Codec α) (m : Memory) (v : α) :
    Memory × Bool :=
  let r := b.memcpySerialize c m v
  (r.1, r.2.isSome)

/-- The default `Serialize::deserialize`: one memory copy back. -/
def deserialize (b : BytesMut) (c : Codec α) (m : Memory) : Option α :=
  (b.memcpyDeserialize c m).map Prod.fst

/-! ## What the cursor steps do -/

/-- The window behind its first `off` bytes. -/
def after (b : BytesMut) (off : ℕ) : BytesMut :=
  ⟨b.ptr + min off b.len, b.len - off, by have := b.inAddressSpace; omega⟩

variable {b : BytesMut} {off : ℕ} {c : Codec α} {m : Memory} {v : α}

theorem after_ptr (h : off ≤ b.len) :
    (b.after off).ptr = b.ptr + off := by
  simp [after, h]

@[simp] theorem after_len (b : BytesMut) (off : ℕ) :
    (b.after off).len = b.len - off := rfl

@[simp] theorem after_zero (b : BytesMut) : b.after 0 = b := by
  simp [after]

@[simp] theorem after_after (b : BytesMut) (x y : ℕ) :
    (b.after x).after y = b.after (x + y) := by
  simp only [after, mk.injEq]
  omega

@[simp] theorem truncateHeader_zero (b : BytesMut) :
    b.truncateHeader 0 = some b := by
  simp [truncateHeader]

theorem truncateHeader_of_le (h : off ≤ b.len) :
    b.truncateHeader off = some (b.after off) := by
  simp [truncateHeader, after, h]

theorem truncateHeader_of_lt (h : b.len < off) :
    b.truncateHeader off = none :=
  dif_neg (Nat.not_le.mpr h)

theorem cloneAndResize_eq_some {b b' : BytesMut} {sz : ℕ} :
    b.cloneAndResize sz = some b' ↔ sz ≤ b.len ∧ b'.ptr = b.ptr ∧ b'.len = sz := by
  obtain ⟨ptr, len, hspace⟩ := b'
  simp only [cloneAndResize, Option.dite_none_right_eq_some, Option.some.injEq, mk.injEq]
  constructor
  · rintro ⟨hle, hptr, hlen⟩
    exact ⟨hle, hptr.symm, hlen.symm⟩
  · rintro ⟨hle, rfl, rfl⟩
    exact ⟨hle, rfl, rfl⟩

theorem cloneAndResize_eq_none {sz : ℕ} :
    b.cloneAndResize sz = none ↔ b.len < sz := by
  rw [cloneAndResize, dite_eq_right_iff, ← Nat.not_le]
  exact ⟨fun h hle => Option.some_ne_none _ (h hle), fun h hle => absurd hle h⟩

theorem memcpySerializeAt_of_le (h : off + c.size ≤ b.len) (m : Memory) (v : α) :
    b.memcpySerializeAt c m off v =
      (writeBytes m (b.ptr + off) (c.encode v), some c.size) := by
  have hoff : off ≤ b.len := (Nat.le_add_right _ _).trans h
  have hsize : c.size ≤ (b.after off).len := Nat.le_sub_of_add_le' h
  rw [memcpySerializeAt, truncateHeader_of_le hoff]
  dsimp only
  rw [memcpySerialize, if_pos hsize, after_ptr hoff]

theorem memcpySerializeAt_of_lt (h : b.len < off + c.size) (m : Memory) (v : α) :
    b.memcpySerializeAt c m off v = (m, none) := by
  unfold memcpySerializeAt
  by_cases hoff : off ≤ b.len
  · have hsize : ¬ c.size ≤ (b.after off).len := Nat.not_le.mpr (Nat.sub_lt_left_of_lt_add hoff h)
    rw [truncateHeader_of_le hoff]
    dsimp only
    rw [memcpySerialize, if_neg hsize]
  · rw [truncateHeader_of_lt (Nat.lt_of_not_le hoff)]

theorem memcpySerializeAt_zero (h : c.size ≤ b.len) (m : Memory) (v : α) :
    b.memcpySerializeAt c m 0 v =
      (writeBytes m b.ptr (c.encode v), some c.size) := by
  simp [memcpySerializeAt, memcpySerialize, h]

theorem serialize_of_le (h : c.size ≤ b.len) (m : Memory) (v : α) :
    b.serialize c m v = (writeBytes m b.ptr (c.encode v), true) := by
  simp [serialize, memcpySerialize, h]

theorem memcpyDeserialize_of_holds (h : c.size ≤ b.len) (hv : Holds m b.ptr (c.encode v)) :
    b.memcpyDeserialize c m = some (v, c.size) := by
  rw [memcpyDeserialize, if_pos h, Codec.decode_of_holds hv]

theorem memcpyDeserialize_of_lt (h : b.len < c.size) (m : Memory) :
    b.memcpyDeserialize c m = none :=
  if_neg (Nat.not_le.mpr h)

theorem memcpyDeserializeAt_of_le (h : off + c.size ≤ b.len) (m : Memory) :
    b.memcpyDeserializeAt c m off =
      some (c.decode (readBytes m (b.ptr + off) c.size), c.size) := by
  have hoff : off ≤ b.len := (Nat.le_add_right _ _).trans h
  have hsize : c.size ≤ (b.after off).len := Nat.le_sub_of_add_le' h
  rw [memcpyDeserializeAt, truncateHeader_of_le hoff]
  dsimp only
  rw [memcpyDeserialize, if_pos hsize, after_ptr hoff]

theorem memcpyDeserializeAt_of_lt
    (h : b.len < off + c.size) (m : Memory) : b.memcpyDeserializeAt c m off = none := by
  unfold memcpyDeserializeAt
  by_cases hoff : off ≤ b.len
  · rw [truncateHeader_of_le hoff]
    exact memcpyDeserialize_of_lt (Nat.sub_lt_left_of_lt_add hoff h) m
  · rw [truncateHeader_of_lt (Nat.lt_of_not_le hoff)]

theorem deserialize_of_holds (h : c.size ≤ b.len) (hv : Holds m b.ptr (c.encode v)) :
    b.deserialize c m = some v := by
  rw [deserialize, memcpyDeserialize_of_holds h hv, Option.map_some]

theorem readUnalignedAtHead_of_holds (hv : Holds m b.ptr (c.encode v)) :
    b.readUnalignedAtHead c m = v :=
  Codec.decode_of_holds hv

end BytesMut

end Mitosis.OsNetwork
