import Mitosis.OsNetwork.Bytes

/-!
# Writers that check the length

`BytesMut` has three ways to put bytes into the memory behind a window after a look
at its length: a copy from another window, the copy of a value at an offset, and the
text sink.  The rule they share (`WritesChecked`) is that the data goes to its offset
if it fits and that nothing happens otherwise.

The value copy and the text sink take their data by reference, so the data does not
lie in the memory that is written.  The other window of a copy can be anywhere; what
happens when it overlaps the destination depends on the copy of the platform.
-/

namespace Mitosis.OsNetwork

open Support

/-- What a checked writer owes: it succeeds if the data fits at the offset, the data
is then there and every other byte is as before, and a failure changes nothing. -/
structure WritesChecked (b : BytesMut) (m : Memory) (off : ℕ) (data : List UInt8)
    (r : Memory × Bool) : Prop where
  succeeds_iff : r.2 = true ↔ off + data.length ≤ b.len
  placed : r.2 = true → Holds r.1 (b.ptr + off) data
  frame : r.2 = true → ∀ a, a < b.ptr + off ∨ b.ptr + off + data.length ≤ a → r.1 a = m a
  failed : r.2 = false → r.1 = m

theorem writesChecked_iff {b : BytesMut} {m : Memory} {off : ℕ} {data : List UInt8}
    {r : Memory × Bool} :
    WritesChecked b m off data r ↔
      r = if off + data.length ≤ b.len then (writeBytes m (b.ptr + off) data, true)
        else (m, false) := by
  obtain ⟨m', ok⟩ := r
  constructor
  · intro h
    cases ok with
    | true =>
      have hm : m' = writeBytes m (b.ptr + off) data :=
        eq_writeBytes_of_holds (h.placed rfl) (h.frame rfl)
      rw [if_pos (h.succeeds_iff.mp rfl), hm]
    | false =>
      have hlong : ¬ off + data.length ≤ b.len := fun hfits =>
        Bool.false_ne_true (h.succeeds_iff.mpr hfits)
      rw [if_neg hlong, show m' = m from h.failed rfl]
  · intro h
    split at h
    · next hfits =>
      cases h
      exact ⟨iff_of_true rfl hfits, fun _ => holds_writeBytes _ _ _,
        fun _ _ ha => writeBytes_outside m ha, nofun⟩
    · next hlong =>
      cases h
      exact ⟨iff_of_false Bool.false_ne_true hlong, nofun, nofun, fun _ => rfl⟩

namespace BytesMut

/-- `BytesMut::from_raw`: the window over a range that exists. -/
def fromRaw (ptr len : ℕ) (h : ptr + len ≤ 2 ^ 64) : BytesMut := ⟨ptr, len, h⟩

/-- `BytesMut::copy`.  The offset is compared with the length of the window; the copy
goes to the head of the window and takes all of the payload. -/
def copy (C : CopyNonoverlapping) (b : BytesMut) (m : Memory) (payload : BytesMut)
    (offset : ℕ) : Memory × Bool :=
  if offset ≤ b.len then
    (C.copy m payload.ptr b.ptr payload.len, true)
  else
    (m, false)

/-- `Write::write_str`: the text goes to the head of the window. -/
def writeStr (b : BytesMut) (m : Memory) (s : List UInt8) : Memory × Bool :=
  if s.length ≤ b.len then
    (writeBytes m b.ptr s, true)
  else
    (m, false)

theorem writeStr_writesChecked (b : BytesMut) (m : Memory) (s : List UInt8) :
    WritesChecked b m 0 s (b.writeStr m s) := by
  rw [writesChecked_iff, writeStr, Nat.zero_add, Nat.add_zero]

theorem memcpySerializeAt_writesChecked {α : Type*} (b : BytesMut) (c : Codec α) (m : Memory)
    (off : ℕ) (v : α) :
    WritesChecked b m off (c.encode v)
      ((b.memcpySerializeAt c m off v).1, (b.memcpySerializeAt c m off v).2.isSome) := by
  rw [writesChecked_iff, c.length_encode]
  by_cases h : off + c.size ≤ b.len
  · rw [if_pos h, memcpySerializeAt_of_le h, Option.isSome_some]
  · rw [if_neg h, memcpySerializeAt_of_lt (Nat.lt_of_not_le h), Option.isSome_none]

/-! ## The copy from another window -/

/-- The copies that meet the rule: those that are refused, those of nothing, and those
to the head of a window that is long enough and does not overlap the payload. -/
def CopyInPlace (b payload : BytesMut) (offset : ℕ) : Prop :=
  b.len < offset ∨ payload.len = 0 ∨
    (offset = 0 ∧ payload.len ≤ b.len ∧ Apart payload.ptr b.ptr payload.len)
deriving Decidable

theorem copy_writesChecked {b payload : BytesMut} {offset : ℕ}
    (h : CopyInPlace b payload offset) (C : CopyNonoverlapping) (m : Memory) :
    WritesChecked b m offset (readBytes m payload.ptr payload.len)
      (b.copy C m payload offset) := by
  rw [writesChecked_iff, length_readBytes, copy]
  rcases h with hoff | hempty | ⟨rfl, hfits, hapart⟩
  · rw [if_neg (by omega), if_neg (by omega)]
  · have hcopy := C.copy_of_apart m payload.ptr b.ptr 0 (Nat.le_total _ _)
    have hnone : readBytes m payload.ptr 0 = [] := rfl
    rw [hempty, hcopy, hnone, Nat.add_zero, writeBytes_nil, writeBytes_nil]
  · rw [if_pos (Nat.zero_le _), Nat.zero_add, if_pos hfits, Nat.add_zero,
      C.copy_of_apart m _ _ _ hapart]

/-- Memory in which only the bytes of one range are set. -/
def marked (ptr len : ℕ) : Memory := fun a => if ptr ≤ a ∧ a < ptr + len then 1 else 0

theorem copyInPlace_of_writesChecked {b payload : BytesMut} {offset : ℕ}
    (h : ∀ (C : CopyNonoverlapping) (m : Memory),
      WritesChecked b m offset (readBytes m payload.ptr payload.len)
        (b.copy C m payload offset)) : CopyInPlace b payload offset := by
  rcases Nat.lt_or_ge b.len offset with hoff | hoff
  · exact Or.inl hoff
  rcases Nat.eq_zero_or_pos payload.len with hempty | hpos
  · exact Or.inr (Or.inl hempty)
  have hcopy (C : CopyNonoverlapping) (m : Memory) :
      b.copy C m payload offset = (C.copy m payload.ptr b.ptr payload.len, true) := if_pos hoff
  simp only [hcopy] at h
  have hfits : offset + payload.len ≤ b.len := by
    simpa using (h .havoc fun _ => 0).succeeds_iff.mp rfl
  have hapart : Apart payload.ptr b.ptr payload.len := by
    by_contra hoverlap
    refine CopyNonoverlapping.havoc_of_not_apart hoverlap (fun _ => 0)
      (b.ptr + offset + payload.len) ?_
    exact (h .havoc fun _ => 0).frame rfl _ (Or.inr (by simp))
  refine Or.inr (Or.inr ⟨?_, by omega, hapart⟩)
  -- The first byte of the payload arrives at the head of the window.
  by_contra hne
  have hnot : ¬ (payload.ptr ≤ b.ptr ∧ b.ptr < payload.ptr + payload.len) := by
    rcases hapart with hle | hle <;> omega
  have hhead : CopyNonoverlapping.havoc.copy (marked payload.ptr payload.len) payload.ptr b.ptr
      payload.len b.ptr = marked payload.ptr payload.len b.ptr :=
    (h .havoc (marked payload.ptr payload.len)).frame rfl b.ptr (Or.inl (by omega))
  rw [CopyNonoverlapping.copy_of_apart _ _ _ _ _ hapart,
    writeBytes_readBytes_head _ _ _ hpos] at hhead
  simp [marked, hnot, hpos] at hhead

end BytesMut

/-! ## The local device -/

namespace LocalDevice

variable {IOResult : Type}

/-- `LocalDevice::read`: fill the window from an address. -/
def read (C : CopyNonoverlapping) (m : Memory) (addr : ℕ) (target : BytesMut)
    (h : addr + target.len ≤ 2 ^ 64) : Memory × Except IOResult Unit :=
  ((target.copy C m (.fromRaw addr target.len h) 0).1, .ok ())

/-- `LocalDevice::write`: copy the payload to an address. -/
def write (C : CopyNonoverlapping) (m : Memory) (addr : ℕ) (payload : BytesMut)
    (h : addr + payload.len ≤ 2 ^ 64) : Memory × Except IOResult Unit :=
  (((BytesMut.fromRaw addr payload.len h).copy C m payload 0).1, .ok ())

theorem read_iff (addr : ℕ) (target : BytesMut) (h : addr + target.len ≤ 2 ^ 64) :
    (∀ (C : CopyNonoverlapping) (m : Memory),
      (read C m addr target h : Memory × Except IOResult Unit) =
        (writeBytes m target.ptr (readBytes m addr target.len), .ok ())) ↔
      Apart addr target.ptr target.len := by
  rw [← CopyNonoverlapping.forall_copy_iff]
  simp only [read, BytesMut.copy, BytesMut.fromRaw, Nat.zero_le, if_true, Prod.mk.injEq, and_true]

theorem write_iff (addr : ℕ) (payload : BytesMut) (h : addr + payload.len ≤ 2 ^ 64) :
    (∀ (C : CopyNonoverlapping) (m : Memory),
      (write C m addr payload h : Memory × Except IOResult Unit) =
        (writeBytes m addr (readBytes m payload.ptr payload.len), .ok ())) ↔
      Apart payload.ptr addr payload.len := by
  rw [← CopyNonoverlapping.forall_copy_iff]
  simp only [write, BytesMut.copy, BytesMut.fromRaw, Nat.zero_le, if_true, Prod.mk.injEq, and_true]

end LocalDevice

open BytesMut (CopyInPlace)

/-- The copy from another window meets the rule of the checked writers exactly in
place; the value copy and the text sink always meet it.  A read or write of the local
device has one length and no offset, so it moves the requested bytes whenever the two
ranges do not overlap. -/
theorem checked_writers {IOResult : Type} :
    (∀ (b payload : BytesMut) (offset : ℕ),
      (∀ (C : CopyNonoverlapping) (m : Memory),
        WritesChecked b m offset (readBytes m payload.ptr payload.len)
          (b.copy C m payload offset)) ↔ CopyInPlace b payload offset) ∧
    (∀ (α : Type) (c : Codec α) (b : BytesMut) (m : Memory) (off : ℕ) (v : α),
      WritesChecked b m off (c.encode v)
        ((b.memcpySerializeAt c m off v).1, (b.memcpySerializeAt c m off v).2.isSome)) ∧
    (∀ (b : BytesMut) (m : Memory) (s : List UInt8), WritesChecked b m 0 s (b.writeStr m s)) ∧
    (∀ (addr : ℕ) (target : BytesMut) (h : addr + target.len ≤ 2 ^ 64),
      (∀ (C : CopyNonoverlapping) (m : Memory),
        (LocalDevice.read C m addr target h : Memory × Except IOResult Unit) =
          (writeBytes m target.ptr (readBytes m addr target.len), .ok ())) ↔
        Apart addr target.ptr target.len) ∧
    (∀ (addr : ℕ) (payload : BytesMut) (h : addr + payload.len ≤ 2 ^ 64),
      (∀ (C : CopyNonoverlapping) (m : Memory),
        (LocalDevice.write C m addr payload h : Memory × Except IOResult Unit) =
          (writeBytes m addr (readBytes m payload.ptr payload.len), .ok ())) ↔
        Apart payload.ptr addr payload.len) := by
  refine ⟨fun b payload offset => ?_, ?_, ?_, LocalDevice.read_iff, LocalDevice.write_iff⟩
  · exact ⟨BytesMut.copyInPlace_of_writesChecked, BytesMut.copy_writesChecked⟩
  · exact fun _ c b m off v => b.memcpySerializeAt_writesChecked c m off v
  · exact fun b m s => b.writeStr_writesChecked m s

/-- Four bytes at 200 are copied to the head of sixteen bytes at 100, and from address
300 by the device. -/
theorem checked_writers_head :
    let b : BytesMut := ⟨100, 16, by decide⟩
    let payload : BytesMut := ⟨200, 4, by decide⟩
    CopyInPlace b payload 0 ∧
      (∀ (C : CopyNonoverlapping) (m : Memory),
        WritesChecked b m 0 (readBytes m 200 4) (b.copy C m payload 0)) ∧
      ∀ (C : CopyNonoverlapping) (m : Memory),
        (LocalDevice.read C m 300 payload (by decide) : Memory × Except Unit Unit) =
          (writeBytes m 200 (readBytes m 300 4), .ok ()) := by
  intro b payload
  refine ⟨by decide, ?_, ?_⟩
  · exact ((@checked_writers Unit).1 b payload 0).mpr (by decide)
  · exact ((@checked_writers Unit).2.2.2.1 300 payload (by decide)).mpr (by decide)

/-- Two bytes that are copied to offset 4 of a window of eight bytes arrive at its
head, and eight bytes that are copied into a window of two run over its end.  Both
copies report success. -/
theorem copy_misplaces_payload :
    let wide : BytesMut := ⟨100, 8, by decide⟩
    let narrow : BytesMut := ⟨100, 2, by decide⟩
    let short : BytesMut := ⟨200, 2, by decide⟩
    let long : BytesMut := ⟨200, 8, by decide⟩
    let m : Memory := BytesMut.marked 200 8
    ∀ C : CopyNonoverlapping,
      ((wide.copy C m short 4).2 = true ∧
        readBytes (wide.copy C m short 4).1 100 8 = [1, 1, 0, 0, 0, 0, 0, 0] ∧
        ¬ WritesChecked wide m 4 (readBytes m 200 2) (wide.copy C m short 4)) ∧
      ((narrow.copy C m long 0).2 = true ∧
        readBytes (narrow.copy C m long 0).1 100 8 = [1, 1, 1, 1, 1, 1, 1, 1] ∧
        ¬ WritesChecked narrow m 0 (readBytes m 200 8) (narrow.copy C m long 0)) := by
  intro wide narrow short long m C
  have hwide : wide.copy C m short 4 = (writeBytes m 100 (readBytes m 200 2), true) :=
    Prod.ext (C.copy_of_apart m 200 100 2 (by decide)) rfl
  have hnarrow : narrow.copy C m long 0 = (writeBytes m 100 (readBytes m 200 8), true) :=
    Prod.ext (C.copy_of_apart m 200 100 8 (by decide)) rfl
  rw [hwide, hnarrow]
  refine ⟨⟨rfl, by decide, fun h => ?_⟩, ⟨rfl, by decide, fun h => ?_⟩⟩
  · exact absurd (h.frame rfl 100 (by decide)) (by decide)
  · exact absurd (h.succeeds_iff.mp rfl) (by decide)

end Mitosis.OsNetwork
