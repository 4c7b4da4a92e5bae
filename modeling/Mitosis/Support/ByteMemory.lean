import Mathlib.Data.List.GetD
import Mathlib.Tactic.Ring

/-!
# Byte memory and fixed-width encodings

A flat memory of bytes, the copy of a byte string into it, and codecs of a
fixed width.  A codec stands for the memory image of a sized value: copying
the value in writes exactly `size` bytes, and copying it back gives the value
again.  Nothing here depends on what is stored.
-/

namespace Mitosis.Support

/-- A flat byte-addressed memory. -/
abbrev Memory := ℕ → UInt8

/-- The `n` bytes that start at address `p`. -/
def readBytes (m : Memory) (p n : ℕ) : List UInt8 :=
  (List.range n).map fun i => m (p + i)

/-- Store `bs` at address `p` and leave every other byte alone. -/
def writeBytes (m : Memory) (p : ℕ) (bs : List UInt8) : Memory :=
  fun a => if p ≤ a then bs.getD (a - p) (m a) else m a

variable {m m' : Memory} {p n : ℕ} {bs : List UInt8}

@[simp] theorem length_readBytes (m : Memory) (p n : ℕ) :
    (readBytes m p n).length = n := by
  simp [readBytes]

theorem readBytes_add (m : Memory) (p a b : ℕ) :
    readBytes m p (a + b) = readBytes m p a ++ readBytes m (p + a) b := by
  simp [readBytes, List.range_add, Function.comp_def, Nat.add_assoc]

theorem readBytes_congr (h : ∀ a, p ≤ a → a < p + n → m a = m' a) :
    readBytes m p n = readBytes m' p n := by
  apply List.map_congr_left
  intro i hi
  exact h (p + i) (Nat.le_add_right p i)
    (Nat.add_lt_add_left (List.mem_range.mp hi) p)

theorem writeBytes_outside (m : Memory) {p a : ℕ}
    (h : a < p ∨ p + bs.length ≤ a) :
    writeBytes m p bs a = m a := by
  unfold writeBytes
  split
  · apply List.getD_eq_default
    omega
  · rfl

@[simp] theorem writeBytes_nil (m : Memory) (p : ℕ) :
    writeBytes m p [] = m := by
  funext a
  exact writeBytes_outside m (by simp; omega)

theorem writeBytes_inside (m : Memory) {p i : ℕ} (h : i < bs.length) :
    writeBytes m p bs (p + i) = bs[i] := by
  simp [writeBytes, h]

@[simp] theorem readBytes_writeBytes (m : Memory) (p : ℕ) (bs : List UInt8) :
    readBytes (writeBytes m p bs) p bs.length = bs := by
  apply List.ext_getElem
  · simp
  · intro i _ hi
    simp [readBytes, writeBytes_inside m hi]

theorem writeBytes_append (m : Memory) (p : ℕ) (xs ys : List UInt8) :
    writeBytes (writeBytes m p xs) (p + xs.length) ys =
      writeBytes m p (xs ++ ys) := by
  funext a
  by_cases hlow : a < p
  · rw [writeBytes_outside _ (Or.inl (by omega)),
      writeBytes_outside _ (Or.inl hlow), writeBytes_outside _ (Or.inl hlow)]
  · obtain ⟨i, rfl⟩ := Nat.exists_eq_add_of_le (Nat.le_of_not_lt hlow)
    by_cases hx : i < xs.length
    · rw [writeBytes_outside _ (Or.inl (by omega)), writeBytes_inside _ hx,
        writeBytes_inside _ (by simp; omega)]
      simp [hx]
    · obtain ⟨j, rfl⟩ := Nat.exists_eq_add_of_le (Nat.le_of_not_lt hx)
      by_cases hy : j < ys.length
      · rw [← Nat.add_assoc, writeBytes_inside _ hy, Nat.add_assoc,
          writeBytes_inside _ (by simp; omega)]
        simp
      · rw [writeBytes_outside _ (Or.inr (by omega)),
          writeBytes_outside _ (Or.inr (by omega)),
          writeBytes_outside _ (Or.inr (by simp; omega))]

theorem writeBytes_comm (m : Memory) {p p' : ℕ} {xs : List UInt8} (h : p + xs.length ≤ p')
    (ys : List UInt8) :
    writeBytes (writeBytes m p' ys) p xs = writeBytes (writeBytes m p xs) p' ys := by
  funext a
  by_cases ha : p' ≤ a
  · rw [writeBytes_outside _ (Or.inr (h.trans ha)), writeBytes, writeBytes, if_pos ha, if_pos ha,
      writeBytes_outside m (Or.inr (h.trans ha))]
  · have hys : writeBytes m p' ys a = m a := writeBytes_outside m (Or.inl (Nat.lt_of_not_le ha))
    rw [writeBytes_outside _ (Or.inl (Nat.lt_of_not_le ha)), writeBytes, hys, writeBytes]

/-- The memory holds a byte string at an address. -/
def Holds (m : Memory) (p : ℕ) (bs : List UInt8) : Prop :=
  readBytes m p bs.length = bs

variable {xs ys : List UInt8}

theorem holds_writeBytes (m : Memory) (p : ℕ) (bs : List UInt8) :
    Holds (writeBytes m p bs) p bs :=
  readBytes_writeBytes m p bs

theorem holds_readBytes (m : Memory) (p n : ℕ) : Holds m p (readBytes m p n) := by
  rw [Holds, length_readBytes]

theorem holds_append {m : Memory} {p : ℕ} :
    Holds m p (xs ++ ys) ↔ Holds m p xs ∧ Holds m (p + xs.length) ys := by
  rw [Holds, List.length_append, readBytes_add]
  constructor
  · intro h
    exact List.append_inj h (length_readBytes m p xs.length)
  · rintro ⟨hx, hy⟩
    rw [hx, hy]

theorem readBytes_writeBytes_add (m : Memory) (p : ℕ) (bs : List UInt8) (k : ℕ) :
    readBytes (writeBytes m p bs) p (bs.length + k) =
      bs ++ readBytes m (p + bs.length) k := by
  rw [readBytes_add, readBytes_writeBytes]
  refine congrArg (bs ++ ·) (readBytes_congr fun a hle _ => ?_)
  exact writeBytes_outside m (Or.inr hle)

theorem Holds.of_isPrefix {m : Memory} {p : ℕ} (h : Holds m p ys)
    (hp : xs <+: ys) : Holds m p xs := by
  obtain ⟨zs, rfl⟩ := hp
  exact (holds_append.mp h).1

theorem Holds.readBytes_part {m : Memory} {p off n : ℕ} (h : Holds m p bs)
    (hle : off + n ≤ bs.length) : readBytes m (p + off) n = (bs.drop off).take n := by
  have hoff : (bs.take off).length = off := List.length_take_of_le (by omega)
  have hn : ((bs.drop off).take n).length = n := List.length_take_of_le (by simp; omega)
  rw [← List.take_append_drop off bs, holds_append, hoff] at h
  have hpart := h.2.of_isPrefix (List.take_prefix n _)
  rwa [Holds, hn] at hpart

/-- A byte string survives a write at its own address exactly if the two strings
agree as far as both reach. -/
theorem Holds.writeBytes_iff {m : Memory} {p : ℕ} {old new : List UInt8} (h : Holds m p old) :
    Holds (writeBytes m p new) p old ↔ old <+: new ∨ new <+: old := by
  have hnew := holds_writeBytes m p new
  constructor
  · intro hold
    rcases Nat.le_total old.length new.length with hle | hle
    · obtain ⟨k, hk⟩ := Nat.exists_eq_add_of_le hle
      rw [Holds, hk, readBytes_add, hold] at hnew
      exact Or.inl ⟨_, hnew⟩
    · obtain ⟨k, hk⟩ := Nat.exists_eq_add_of_le hle
      rw [Holds, hk, readBytes_writeBytes_add] at hold
      exact Or.inr ⟨_, hold⟩
  · rintro (hp | ⟨rest, rfl⟩)
    · exact hnew.of_isPrefix hp
    · rw [Holds, List.length_append, readBytes_writeBytes_add]
      exact congrArg (new ++ ·) (holds_append.mp h).2

theorem Holds.byte {m : Memory} {p i : ℕ} (h : Holds m p bs)
    (hi : i < bs.length) : m (p + i) = bs[i] := by
  have hread : (readBytes m p bs.length)[i]? = bs[i]? := by rw [h]
  simpa [readBytes, hi] using hread

/-- A memory that holds a byte string and is otherwise as before is the old one with
the byte string written into it. -/
theorem eq_writeBytes_of_holds {p : ℕ} (h : Holds m' p bs)
    (hframe : ∀ a, a < p ∨ p + bs.length ≤ a → m' a = m a) : m' = writeBytes m p bs := by
  funext a
  by_cases ha : a < p ∨ p + bs.length ≤ a
  · rw [hframe a ha, writeBytes_outside m ha]
  · obtain ⟨i, rfl⟩ := Nat.exists_eq_add_of_le (show p ≤ a by omega)
    have hi : i < bs.length := by omega
    rw [writeBytes_inside m hi, h.byte hi]

/-! ## Copies within memory -/

theorem writeBytes_readBytes_head (m : Memory) (src dst : ℕ) {n : ℕ} (h : 0 < n) :
    writeBytes m dst (readBytes m src n) dst = m src := by
  simp [writeBytes, readBytes, h]

/-- Two ranges of `n` bytes do not overlap. -/
def Apart (src dst n : ℕ) : Prop := src + n ≤ dst ∨ dst + n ≤ src
deriving Decidable

/-- A copy for ranges that do not overlap.  Nothing is known of the memory behind a
copy between overlapping ranges. -/
structure CopyNonoverlapping where
  copy : Memory → ℕ → ℕ → ℕ → Memory
  copy_of_apart : ∀ m src dst n, Apart src dst n →
    copy m src dst n = writeBytes m dst (readBytes m src n)

namespace CopyNonoverlapping

/-- A copy that changes every byte of memory when the ranges overlap. -/
def havoc : CopyNonoverlapping where
  copy m src dst n :=
    if Apart src dst n then writeBytes m dst (readBytes m src n) else fun a => m a + 1
  copy_of_apart _ _ _ _ h := if_pos h

theorem havoc_of_not_apart {src dst n : ℕ} (h : ¬ Apart src dst n) (m : Memory) (a : ℕ) :
    havoc.copy m src dst n a ≠ m a := by
  have hcopy : havoc.copy m src dst n = fun a => m a + 1 := if_neg h
  simp [hcopy]

/-- The bytes of the source arrive, whichever copy it is, exactly if the ranges do not
overlap. -/
theorem forall_copy_iff {src dst n : ℕ} :
    (∀ (C : CopyNonoverlapping) (m : Memory),
      C.copy m src dst n = writeBytes m dst (readBytes m src n)) ↔ Apart src dst n := by
  constructor
  · intro h
    by_contra hoverlap
    -- The byte behind the destination is not part of the copy.
    refine havoc_of_not_apart hoverlap (fun _ => 0) (dst + n) ?_
    rw [h]
    exact writeBytes_outside _ (Or.inr (by simp))
  · intro h C m
    exact C.copy_of_apart m src dst n h

end CopyNonoverlapping

/-- The memory holds a byte string at an address, as far as `n` bytes reach. -/
def Begins (m : Memory) (p n : ℕ) (bs : List UInt8) : Prop := Holds m p (bs.take n)

theorem Begins.holds {m : Memory} (h : Begins m p n bs)
    (hn : bs.length ≤ n) : Holds m p bs := by
  rwa [Begins, List.take_of_length_le hn] at h

theorem Begins.append {m : Memory} (h : Begins m p n (xs ++ ys))
    (hn : xs.length ≤ n) : Holds m p xs ∧ Begins m (p + xs.length) (n - xs.length) ys := by
  rw [Begins, List.take_append, List.take_of_length_le hn] at h
  exact holds_append.mp h

theorem Begins.left {m : Memory} (h : Begins m p n (xs ++ ys)) :
    Begins m p n xs := by
  rw [Begins, List.take_append] at h
  exact (holds_append.mp h).1

theorem Holds.begins_of_copy {p p' n : ℕ} (h : Holds m p bs)
    (hcopy : ∀ i < min n bs.length, m' (p' + i) = m (p + i)) : Begins m' p' n bs := by
  have hprefix := h.of_isPrefix (List.take_prefix n bs)
  rw [Holds, List.length_take] at hprefix
  rw [Begins, Holds, List.length_take, ← hprefix]
  apply List.map_congr_left
  intro i hi
  exact hcopy i (List.mem_range.mp hi)

/-! ## Codecs -/

/-- The memory image of a sized value: `size` bytes with an exact inverse. -/
structure Codec (α : Type*) where
  size : ℕ
  encode : α → List UInt8
  decode : List UInt8 → α
  length_encode : ∀ a, (encode a).length = size
  decode_encode : ∀ a, decode (encode a) = a

attribute [simp] Codec.length_encode Codec.decode_encode

namespace Codec

theorem decode_of_holds {α : Type*} {c : Codec α} {m : Memory} {p : ℕ}
    {v : α} (h : Holds m p (c.encode v)) :
    c.decode (readBytes m p c.size) = v := by
  rw [Holds, c.length_encode] at h
  rw [h, c.decode_encode]

def map {α β : Type*} (c : Codec α) (e : α ≃ β) : Codec β where
  size := c.size
  encode b := c.encode (e.symm b)
  decode bs := e (c.decode bs)
  length_encode b := c.length_encode _
  decode_encode b := by simp

/-- One value directly behind the other. -/
def prod {α β : Type*} (c : Codec α) (d : Codec β) : Codec (α × β) where
  size := c.size + d.size
  encode p := c.encode p.1 ++ d.encode p.2
  decode bs := (c.decode (bs.take c.size), d.decode (bs.drop c.size))
  length_encode p := by simp
  decode_encode p := by
    have htake : (c.encode p.1 ++ d.encode p.2).take c.size = c.encode p.1 := by
      rw [← c.length_encode p.1, List.take_left]
    have hdrop : (c.encode p.1 ++ d.encode p.2).drop c.size = d.encode p.2 := by
      rw [← c.length_encode p.1, List.drop_left]
    simp [htake, hdrop]

/-- A codec of a type that is a retract of another one. -/
def retract {α β : Type*} (c : Codec α) (f : β → α) (g : α → β) (h : ∀ b, g (f b) = b) :
    Codec β where
  size := c.size
  encode b := c.encode (f b)
  decode bs := g (c.decode bs)
  length_encode _ := c.length_encode _
  decode_encode b := by rw [c.decode_encode, h]

/-- The `n` bytes themselves. -/
def raw (n : ℕ) : Codec {bs : List UInt8 // bs.length = n} where
  size := n
  encode bs := bs.1
  decode bs := ⟨(bs ++ List.replicate n 0).take n, by simp⟩
  length_encode bs := bs.2
  decode_encode bs := by
    obtain ⟨bs, rfl⟩ := bs
    rw [Subtype.mk.injEq, List.take_left]

/-- Add `n` bytes of padding behind a value. -/
def pad {α : Type*} (c : Codec α) (n : ℕ) : Codec α where
  size := c.size + n
  encode a := c.encode a ++ List.replicate n 0
  decode bs := c.decode (bs.take c.size)
  length_encode a := by simp
  decode_encode a := by
    rw [← c.length_encode a, List.take_left]
    exact c.decode_encode a

end Codec

/-! ## Little-endian integers -/

/-- The `w` little-endian bytes of `n`. -/
def bytesLE : ℕ → ℕ → List UInt8
  | 0, _ => []
  | w + 1, n => UInt8.ofNat n :: bytesLE w (n / 256)

/-- The number with the given little-endian bytes. -/
def ofBytesLE : List UInt8 → ℕ
  | [] => 0
  | b :: bs => b.toNat + 256 * ofBytesLE bs

@[simp] theorem length_bytesLE (w n : ℕ) : (bytesLE w n).length = w := by
  induction w generalizing n with
  | zero => rfl
  | succ w ih => simp [bytesLE, ih]

theorem ofBytesLE_bytesLE {w n : ℕ} (h : n < 256 ^ w) :
    ofBytesLE (bytesLE w n) = n := by
  induction w generalizing n with
  | zero =>
    have hn : n = 0 := by simpa using h
    simp [bytesLE, ofBytesLE, hn]
  | succ w ih =>
    have hdiv : n / 256 < 256 ^ w := by
      rw [Nat.div_lt_iff_lt_mul (by norm_num), ← pow_succ]
      exact h
    rw [bytesLE, ofBytesLE, ih hdiv, UInt8.toNat_ofNat']
    omega

namespace Codec

def u64 : Codec UInt64 where
  size := 8
  encode a := bytesLE 8 a.toNat
  decode bs := UInt64.ofNat (ofBytesLE bs)
  length_encode _ := length_bytesLE 8 _
  decode_encode a := by
    rw [ofBytesLE_bytesLE (by simpa using a.toNat_lt), UInt64.ofNat_toNat]

def u32 : Codec UInt32 where
  size := 4
  encode a := bytesLE 4 a.toNat
  decode bs := UInt32.ofNat (ofBytesLE bs)
  length_encode _ := length_bytesLE 4 _
  decode_encode a := by
    rw [ofBytesLE_bytesLE (by simpa using a.toNat_lt), UInt32.ofNat_toNat]

def u16 : Codec UInt16 where
  size := 2
  encode a := bytesLE 2 a.toNat
  decode bs := UInt16.ofNat (ofBytesLE bs)
  length_encode _ := length_bytesLE 2 _
  decode_encode a := by
    rw [ofBytesLE_bytesLE (by simpa using a.toNat_lt), UInt16.ofNat_toNat]

def u8 : Codec UInt8 where
  size := 1
  encode a := [a]
  decode bs := bs.headD 0
  length_encode _ := rfl
  decode_encode _ := rfl

def bool : Codec Bool where
  size := 1
  encode a := [if a then 1 else 0]
  decode bs := bs.headD 0 != 0
  length_encode _ := rfl
  decode_encode a := by cases a <;> rfl

@[simp] theorem u64_size : u64.size = 8 := rfl

@[simp] theorem u32_size : u32.size = 4 := rfl

end Codec

end Mitosis.Support
