import Mathlib.Data.Nat.Bitwise
import Mathlib.Tactic.Ring

/-!
# Page-table words and virtual addresses

A page-table word is a 64-bit number whose three lowest bits are flags: a
local page that was prefetched, a local page taken from the cache, and a page
the parent mapped read-only.  A virtual address is canonical by construction;
its page is addressed by four 9-bit indices.
-/

namespace Mitosis.RemoteMapping

/-- A 64-bit page-table word: an address with flags in its low bits. -/
abbrev PhysAddr := ℕ

/-- The word of a slot whose page is being fetched. -/
def kMagicInPrefetch : PhysAddr := 1

inductive PhysAddrBitFlag where
  | empty
  | prefetch
  | cache
  | readOnly
deriving DecidableEq, Repr

namespace PhysAddrBitFlag

def bits : PhysAddrBitFlag → ℕ
  | empty => 0b0000
  | prefetch => 0b0001
  | cache => 0b0010
  | readOnly => 0b0100

def mask : ℕ := prefetch.bits ||| cache.bits ||| readOnly.bits

end PhysAddrBitFlag

namespace PhysAddr

open PhysAddrBitFlag

/-- The real page address: the low flag bits set to zero. -/
def decode (addr : ℕ) : ℕ := addr &&& (2 ^ 64 - 1 - mask)

def encode (pageAddr flag : ℕ) : ℕ := pageAddr ||| (flag &&& mask)

def isPrefetch (w : PhysAddr) : Bool := w &&& prefetch.bits == prefetch.bits

def isCache (w : PhysAddr) : Bool := w &&& cache.bits == cache.bits

def isRo (w : PhysAddr) : Bool := w &&& readOnly.bits == readOnly.bits

def bottomBit (w : PhysAddr) : Bool := isPrefetch w

def realAddr (w : PhysAddr) : ℕ := decode w

theorem decode_eq {w : ℕ} (hw : w < 2 ^ 64) : decode w = w / 8 * 8 := by
  have hconst : 2 ^ 64 - 1 - mask = (2 ^ 61 - 1) <<< 3 := by decide
  rw [decode, hconst]
  apply Nat.eq_of_testBit_eq
  intro i
  have hmul : w / 8 * 8 = (w >>> 3) <<< 3 := by
    simp [Nat.shiftRight_eq_div_pow, Nat.shiftLeft_eq]
  rw [hmul, Nat.testBit_and, Nat.testBit_shiftLeft, Nat.testBit_shiftLeft,
    Nat.testBit_two_pow_sub_one, Nat.testBit_shiftRight]
  by_cases hi : 3 ≤ i
  · have hidx : 3 + (i - 3) = i := by omega
    rw [hidx]
    by_cases hlt : i - 3 < 61
    · simp [hi, hlt]
    · have hbit : w.testBit i = false := by
        apply Nat.testBit_lt_two_pow
        exact lt_of_lt_of_le hw (Nat.pow_le_pow_right (by norm_num) (by omega))
      simp [hi, hbit]
  · simp [hi]

theorem encode_eq {page : ℕ} (hpage : page % 8 = 0) (flag : PhysAddrBitFlag) :
    encode page flag.bits = page + flag.bits := by
  obtain ⟨k, rfl⟩ := Nat.dvd_of_mod_eq_zero hpage
  have hflag : flag.bits &&& mask = flag.bits := by cases flag <;> rfl
  have hlt : flag.bits < 2 ^ 3 := by cases flag <;> decide
  rw [encode, hflag]
  exact (Nat.two_pow_add_eq_or_of_lt hlt k).symm

theorem decode_encode {page : ℕ} (hpage : page % 8 = 0)
    (hlt : page < 2 ^ 64) (flag : PhysAddrBitFlag) :
    decode (encode page flag.bits) = page := by
  have hflag : flag.bits < 8 := by cases flag <;> decide
  have hbound : page + flag.bits < 2 ^ 64 := by omega
  rw [encode_eq hpage, decode_eq hbound]
  omega

theorem decode_of_aligned {page : ℕ} (hpage : page % 8 = 0)
    (hlt : page < 2 ^ 64) : decode page = page := by
  rw [decode_eq hlt]
  omega

theorem isPrefetch_iff (w : ℕ) : isPrefetch w = true ↔ w % 2 = 1 := by
  simp [isPrefetch, bits, Nat.and_one_is_mod]

theorem isPrefetch_eq_false_iff (w : ℕ) :
    isPrefetch w = false ↔ w % 2 = 0 := by
  have h := isPrefetch_iff w
  cases hw : isPrefetch w with
  | true => simp [hw] at h ⊢; omega
  | false => simp [hw] at h ⊢; omega

theorem and_two_pow_eq_iff (w i : ℕ) : w &&& 2 ^ i = 2 ^ i ↔ w / 2 ^ i % 2 = 1 := by
  rw [Nat.and_two_pow, Nat.testBit_eq_decide_div_mod_eq]
  by_cases h : w / 2 ^ i % 2 = 1
  · simp [h]
  · have hpos := Nat.two_pow_pos i
    simp only [h, decide_false, Bool.toNat_false, zero_mul, iff_false]
    omega

theorem isCache_iff (w : ℕ) : isCache w = true ↔ w / 2 % 2 = 1 := by
  rw [isCache, beq_iff_eq]
  exact and_two_pow_eq_iff w 1

theorem isCache_encode (page : ℕ) : isCache (encode page PhysAddrBitFlag.cache.bits) = true := by
  rw [isCache, beq_iff_eq]
  change (page ||| 2) &&& 2 = 2
  apply Nat.eq_of_testBit_eq
  intro i
  rw [Nat.testBit_and, Nat.testBit_or]
  cases Nat.testBit 2 i <;> simp

theorem isPrefetch_encode (page : ℕ) :
    isPrefetch (encode page PhysAddrBitFlag.prefetch.bits) = true := by
  rw [isPrefetch, beq_iff_eq]
  change (page ||| 1) &&& 1 = 1
  apply Nat.eq_of_testBit_eq
  intro i
  rw [Nat.testBit_and, Nat.testBit_or]
  cases Nat.testBit 1 i <;> simp

theorem isRo_iff (w : ℕ) : isRo w = true ↔ w / 4 % 2 = 1 := by
  rw [isRo, beq_iff_eq]
  exact and_two_pow_eq_iff w 2

/-- Without the other two flags, decoding changes exactly the read-only words. -/
theorem decode_eq_self_iff {w : ℕ} (hw : w < 2 ^ 64) (hprefetch : isPrefetch w = false)
    (hcache : isCache w = false) : decode w = w ↔ isRo w = false := by
  rw [isPrefetch_eq_false_iff] at hprefetch
  rw [Bool.eq_false_iff, ne_eq, isCache_iff] at hcache
  rw [Bool.eq_false_iff, ne_eq, isRo_iff, decode_eq hw]
  omega

end PhysAddr

/-! ## Virtual addresses -/

/-- Bits 47 to 63 of a canonical address are equal. -/
def Canonical (a : ℕ) : Prop :=
  a < 2 ^ 47 ∨ (2 ^ 64 - 2 ^ 47 ≤ a ∧ a < 2 ^ 64)

instance : DecidablePred Canonical := fun a => by
  unfold Canonical
  infer_instance

/-- A canonical virtual address. -/
structure VirtAddr where
  addr : ℕ
  canonical : Canonical addr
deriving DecidableEq

abbrev PageTableIndex := Fin 512

/-- The low nine bits of a number, as an index. -/
def PageTableIndex.newTruncate (n : ℕ) : PageTableIndex :=
  ⟨n % 512, Nat.mod_lt n (by norm_num)⟩

namespace VirtAddr

/-- `VirtAddr::new` of the crate `x86_64`, version 0.14: an address whose bits 48 to 63 are
zero is extended with its bit 47, and any other address that is not canonical panics. -/
def new (a : ℕ) : Option VirtAddr :=
  if h : Canonical a then some ⟨a, h⟩
  else if hlow : a < 2 ^ 48 then
    some ⟨a + (2 ^ 64 - 2 ^ 48), by unfold Canonical at h ⊢; omega⟩
  else none

/-- The addresses that `VirtAddr::new` takes. -/
def Accepted (a : ℕ) : Prop := a < 2 ^ 48 ∨ (2 ^ 64 - 2 ^ 47 ≤ a ∧ a < 2 ^ 64)

instance : DecidablePred Accepted := fun a => by
  unfold Accepted
  infer_instance

theorem accepted_of_canonical {a : ℕ} (h : Canonical a) : Accepted a := by
  unfold Canonical at h
  unfold Accepted
  omega

@[simp] theorem new_addr (a : VirtAddr) : new a.addr = some a := by
  simp [new, a.canonical]

theorem new_of_canonical {a : ℕ} (h : Canonical a) : new a = some ⟨a, h⟩ := by
  simp [new, h]

theorem isSome_new_iff {a : ℕ} : (new a).isSome = true ↔ Accepted a := by
  unfold new Accepted
  by_cases h : Canonical a
  · rw [dif_pos h]
    exact iff_of_true rfl (accepted_of_canonical h)
  · rw [dif_neg h]
    unfold Canonical at h
    by_cases hlow : a < 2 ^ 48
    · rw [dif_pos hlow]
      exact iff_of_true rfl (Or.inl hlow)
    · rw [dif_neg hlow]
      exact iff_of_false Bool.false_ne_true (by omega)

/-- The 36-bit number of the page an address lies in, which the four table
indices spell out. -/
def pageKey (a : VirtAddr) : ℕ := a.addr / 4096 % 2 ^ 36

def p4Index (a : VirtAddr) : PageTableIndex := .newTruncate (a.addr / 2 ^ 39)

def p3Index (a : VirtAddr) : PageTableIndex := .newTruncate (a.addr / 2 ^ 30)

def p2Index (a : VirtAddr) : PageTableIndex := .newTruncate (a.addr / 2 ^ 21)

def p1Index (a : VirtAddr) : PageTableIndex := .newTruncate (a.addr / 2 ^ 12)

theorem pageKey_lt (a : VirtAddr) : a.pageKey < 2 ^ 36 :=
  Nat.mod_lt _ (by norm_num)

theorem p1Index_eq (a : VirtAddr) : a.p1Index = .newTruncate a.pageKey := by
  simp only [p1Index, pageKey, PageTableIndex.newTruncate, Fin.mk.injEq]
  omega

theorem p2Index_eq (a : VirtAddr) :
    a.p2Index = .newTruncate (a.pageKey / 512) := by
  simp only [p2Index, pageKey, PageTableIndex.newTruncate, Fin.mk.injEq]
  omega

theorem p3Index_eq (a : VirtAddr) :
    a.p3Index = .newTruncate (a.pageKey / 512 / 512) := by
  simp only [p3Index, pageKey, PageTableIndex.newTruncate, Fin.mk.injEq]
  omega

theorem p4Index_eq (a : VirtAddr) :
    a.p4Index = .newTruncate (a.pageKey / 512 / 512 / 512) := by
  simp only [p4Index, pageKey, PageTableIndex.newTruncate, Fin.mk.injEq]
  omega

/-- Among canonical addresses the 36-bit page key determines the virtual page
number, because the upper bits repeat bit 47. -/
theorem pageKey_eq_iff (a b : VirtAddr) :
    a.pageKey = b.pageKey ↔ a.addr / 4096 = b.addr / 4096 := by
  have ha := a.canonical
  have hb := b.canonical
  unfold Canonical at ha hb
  simp only [pageKey]
  omega

theorem pageKey_lt_iff (a b : VirtAddr) :
    a.pageKey < b.pageKey ↔ a.addr / 4096 < b.addr / 4096 := by
  have ha := a.canonical
  have hb := b.canonical
  unfold Canonical at ha hb
  simp only [pageKey]
  omega

/-- The first address of the page with the given key. -/
def ofPageKey (key : ℕ) : VirtAddr :=
  ⟨if key % 2 ^ 36 < 2 ^ 35 then key % 2 ^ 36 * 4096
    else key % 2 ^ 36 * 4096 + (2 ^ 64 - 2 ^ 48), by
    unfold Canonical
    split <;> omega⟩

theorem pageKey_ofPageKey {key : ℕ} (h : key < 2 ^ 36) :
    (ofPageKey key).pageKey = key := by
  simp only [pageKey, ofPageKey]
  split <;> omega

theorem ofPageKey_mod (key : ℕ) : (ofPageKey key).addr % 4096 = 0 := by
  simp only [ofPageKey]
  split <;> omega

theorem ofPageKey_pageKey {a : VirtAddr} (ha : a.addr % 4096 = 0) :
    ofPageKey a.pageKey = a := by
  have hsame := (pageKey_eq_iff _ a).mp (pageKey_ofPageKey a.pageKey_lt)
  have hmod := ofPageKey_mod a.pageKey
  have haddr : (ofPageKey a.pageKey).addr = a.addr := by omega
  cases hkey : ofPageKey a.pageKey
  cases a
  simp_all

theorem addr_lt_iff {a b : VirtAddr} (ha : a.addr % 4096 = 0)
    (hb : b.addr % 4096 = 0) : a.addr < b.addr ↔ a.pageKey < b.pageKey := by
  rw [pageKey_lt_iff]
  omega

end VirtAddr

end Mitosis.RemoteMapping
