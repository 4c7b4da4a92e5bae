import Mitosis.Datagram.Message
import Mitosis.OsNetwork.Writers

/-!
# Formatted text in a buffer

`write!` hands the text to a sink in fragments: the literal pieces of the format
string and what the arguments print.  The sink of a `BytesMut`, and with it that of a
message, keeps no position.  Each fragment is written over the ones before it, and
each is compared alone with the length of the buffer.
-/

namespace Mitosis

open Support

/-! ## Fragments -/

section Fragments

variable {σ : Type*}

/-- `core::fmt::write`: the fragments are passed on in order, up to the first error. -/
def fmtWrite (writeStr : σ → List UInt8 → σ × Bool) : σ → List (List UInt8) → σ × Bool
  | w, [] => (w, true)
  | w, s :: ss =>
    match writeStr w s with
    | (w, true) => fmtWrite writeStr w ss
    | (w, false) => (w, false)

/-- Write the fragments over each other at one address. -/
def overwrite (m : Memory) (p : ℕ) (ss : List (List UInt8)) : Memory :=
  ss.foldl (fun m s => writeBytes m p s) m

variable {ss : List (List UInt8)}

theorem overwrite_outside {p a : ℕ}
    (h : ∀ s ∈ ss, p + s.length ≤ a) (m : Memory) : overwrite m p ss a = m a := by
  induction ss generalizing m with
  | nil => rfl
  | cons s ss ih =>
    rw [List.forall_mem_cons] at h
    rw [overwrite, List.foldl_cons, ← overwrite, ih h.2, writeBytes_outside m (Or.inr h.1)]

/-- The fragments that are not empty. -/
def nonEmpty (ss : List (List UInt8)) : List (List UInt8) := ss.filter (· ≠ [])

theorem overwrite_nonEmpty (m : Memory) (p : ℕ) (ss : List (List UInt8)) :
    overwrite m p (nonEmpty ss) = overwrite m p ss := by
  induction ss generalizing m with
  | nil => rfl
  | cons s ss ih =>
    by_cases hs : s = []
    · simpa [overwrite, nonEmpty, hs] using ih m
    · simpa [overwrite, nonEmpty, hs] using ih (writeBytes m p s)

theorem flatten_nonEmpty (ss : List (List UInt8)) : (nonEmpty ss).flatten = ss.flatten :=
  List.flatten_filter_ne_nil

theorem length_nonEmpty_le (ss : List (List UInt8)) :
    (nonEmpty ss).length ≤ ss.flatten.length := by
  induction ss with
  | nil => rfl
  | cons s ss ih =>
    by_cases hs : s = []
    · simpa [nonEmpty, hs] using ih
    · have hpos := List.length_pos_iff.mpr hs
      simp only [nonEmpty, List.filter_cons, decide_eq_true hs, if_true, List.length_cons,
        List.flatten_cons, List.length_append] at ih ⊢
      omega

theorem length_le_flatten {s : List UInt8} (h : s ∈ ss) :
    s.length ≤ ss.flatten.length :=
  (List.sublist_flatten_of_mem h).length_le

theorem length_lt_flatten {s : List UInt8} (h : s ∈ ss)
    (htwo : 1 < (nonEmpty ss).length) : s.length < ss.flatten.length := by
  obtain ⟨before, behind, rfl⟩ := List.append_of_mem h
  have hbefore := length_nonEmpty_le before
  have hbehind := length_nonEmpty_le behind
  have hone : (nonEmpty [s]).length ≤ 1 := List.length_filter_le _ _
  have hsplit : nonEmpty (before ++ s :: behind) =
      nonEmpty before ++ (nonEmpty [s] ++ nonEmpty behind) := by
    rw [nonEmpty, ← List.singleton_append, List.filter_append, List.filter_append]
    rfl
  rw [hsplit, List.length_append, List.length_append] at htwo
  rw [List.flatten_append, List.flatten_cons, List.length_append, List.length_append]
  omega

theorem nonEmpty_of_length_le_one (h : (nonEmpty ss).length ≤ 1) :
    nonEmpty ss = [] ∨ nonEmpty ss = [ss.flatten] := by
  rcases Nat.le_one_iff_eq_zero_or_eq_one.mp h with hzero | hone
  · exact Or.inl (List.length_eq_zero_iff.mp hzero)
  · obtain ⟨s, hs⟩ := List.length_eq_one_iff.mp hone
    rw [← flatten_nonEmpty, hs, List.flatten_singleton]
    exact Or.inr rfl

theorem overwrite_of_length_le_one (h : (nonEmpty ss).length ≤ 1)
    (m : Memory) (p : ℕ) : overwrite m p ss = writeBytes m p ss.flatten := by
  rw [← overwrite_nonEmpty]
  rcases nonEmpty_of_length_le_one h with hnil | hsingle
  · rw [← flatten_nonEmpty, hnil]
    exact (writeBytes_nil m p).symm
  · rw [hsingle]
    rfl

theorem flatten_mem_of_length_le_one (h : (nonEmpty ss).length ≤ 1)
    (hne : ss.flatten ≠ []) : ss.flatten ∈ ss := by
  rcases nonEmpty_of_length_le_one h with hnil | hsingle
  · rw [← flatten_nonEmpty, hnil] at hne
    exact absurd rfl hne
  · have hmem : ss.flatten ∈ nonEmpty ss := by rw [hsingle]; exact List.mem_singleton_self _
    exact List.mem_of_mem_filter hmem

end Fragments

/-! ## The sinks -/

namespace OsNetwork.BytesMut

/-- `Write::write_fmt` of a window. -/
def writeFmt (b : BytesMut) (m : Memory) (ss : List (List UInt8)) : Memory × Bool :=
  fmtWrite b.writeStr m ss

theorem writeFmt_of_fits {b : BytesMut} {ss : List (List UInt8)}
    (h : ∀ s ∈ ss, s.length ≤ b.len) (m : Memory) :
    b.writeFmt m ss = (overwrite m b.ptr ss, true) := by
  induction ss generalizing m with
  | nil => rfl
  | cons s ss ih =>
    rw [List.forall_mem_cons] at h
    have hs : b.writeStr m s = (writeBytes m b.ptr s, true) := if_pos h.1
    rw [writeFmt, fmtWrite, hs]
    exact ih h.2 _

theorem writeFmt_of_long {b : BytesMut} {ss : List (List UInt8)}
    (h : ∃ s ∈ ss, b.len < s.length) (m : Memory) : (b.writeFmt m ss).2 = false := by
  induction ss generalizing m with
  | nil => simp at h
  | cons s ss ih =>
    rw [writeFmt, fmtWrite]
    by_cases hs : s.length ≤ b.len
    · have hrest : ∃ s ∈ ss, b.len < s.length := by
        simpa [List.exists_mem_cons_iff, Nat.not_lt.mpr hs] using h
      rw [writeStr, if_pos hs]
      exact ih hrest _
    · rw [writeStr, if_neg hs]

end OsNetwork.BytesMut

namespace Datagram.UDMsg

/-- `Write::write_str` of a message: that of its window. -/
def writeStr (msg : UDMsg) (s : List UInt8) : UDMsg × Bool :=
  let r := msg.bytes.writeStr msg.region s
  ({ msg with region := r.1 }, r.2)

/-- `Write::write_fmt` of a message. -/
def writeFmt (msg : UDMsg) (ss : List (List UInt8)) : UDMsg × Bool :=
  fmtWrite writeStr msg ss

theorem writeFmt_eq (msg : UDMsg) (ss : List (List UInt8)) :
    msg.writeFmt ss =
      ({ msg with region := (msg.bytes.writeFmt msg.region ss).1 },
        (msg.bytes.writeFmt msg.region ss).2) := by
  induction ss generalizing msg with
  | nil => rfl
  | cons s ss ih =>
    rw [writeFmt, fmtWrite, OsNetwork.BytesMut.writeFmt, fmtWrite, writeStr]
    cases hs : msg.bytes.writeStr msg.region s with
    | mk m ok =>
      cases ok with
      | true => exact ih { msg with region := m }
      | false => rfl

end Datagram.UDMsg

/-! ## What a formatted write leaves in the buffer -/

open OsNetwork Datagram

/-- What `write!` owes: a text that fits is at the head of the buffer and every other
byte is as before, a text that does not fit is an error. -/
structure Formats (b : BytesMut) (m : Memory) (ss : List (List UInt8)) (r : Memory × Bool) :
    Prop where
  written : ss.flatten.length ≤ b.len → r.2 = true ∧ Holds r.1 b.ptr ss.flatten ∧
    ∀ a, a < b.ptr ∨ b.ptr + ss.flatten.length ≤ a → r.1 a = m a
  refused : b.len < ss.flatten.length → r.2 = false

/-- The texts that a sink without a position can take: those with a single fragment
that is not empty, and those with a fragment that alone is too long. -/
def FormatsInPlace (len : ℕ) (ss : List (List UInt8)) : Prop :=
  (nonEmpty ss).length ≤ 1 ∨ ∃ s ∈ ss, len < s.length
deriving Decidable

theorem formats_of_inPlace {b : BytesMut} {ss : List (List UInt8)}
    (h : FormatsInPlace b.len ss) (m : Memory) : Formats b m ss (b.writeFmt m ss) where
  written := by
    intro hfits
    have hall : ∀ s ∈ ss, s.length ≤ b.len := fun s hs => (length_le_flatten hs).trans hfits
    have hone : (nonEmpty ss).length ≤ 1 := by
      refine h.resolve_right ?_
      rintro ⟨s, hs, hlong⟩
      exact absurd (hall s hs) (Nat.not_le.mpr hlong)
    rw [BytesMut.writeFmt_of_fits hall, overwrite_of_length_le_one hone]
    exact ⟨rfl, holds_writeBytes _ _ _, fun a ha => writeBytes_outside m ha⟩
  refused := by
    intro hlong
    refine BytesMut.writeFmt_of_long ?_ m
    rcases h with hone | hex
    · have hne : ss.flatten ≠ [] := List.length_pos_iff.mp (Nat.zero_lt_of_lt hlong)
      exact ⟨_, flatten_mem_of_length_le_one hone hne, hlong⟩
    · exact hex

theorem inPlace_of_formats {b : BytesMut} {ss : List (List UInt8)}
    (h : ∀ m, Formats b m ss (b.writeFmt m ss)) : FormatsInPlace b.len ss := by
  by_contra hnot
  simp only [FormatsInPlace, not_or, not_le, not_exists, not_and, not_lt] at hnot
  obtain ⟨htwo, hall⟩ := hnot
  have hwrite (m : Memory) := BytesMut.writeFmt_of_fits hall m
  simp only [hwrite] at h
  by_cases hfits : ss.flatten.length ≤ b.len
  · -- No fragment reaches the last byte of the text, so the buffer keeps its own.
    have hpos : 0 < ss.flatten.length :=
      (Nat.zero_lt_of_lt htwo).trans_le (length_nonEmpty_le ss)
    have hlast : ss.flatten.length - 1 < ss.flatten.length := Nat.sub_one_lt_of_lt hpos
    let m : Memory := fun _ => ss.flatten[ss.flatten.length - 1] + 1
    have hheld : overwrite m b.ptr ss (b.ptr + (ss.flatten.length - 1)) =
        ss.flatten[ss.flatten.length - 1] := ((h m).written hfits).2.1.byte hlast
    have hshort : ∀ s ∈ ss, b.ptr + s.length ≤ b.ptr + (ss.flatten.length - 1) := fun s hs =>
      Nat.add_le_add_left (Nat.le_sub_one_of_lt (length_lt_flatten hs htwo)) _
    rw [overwrite_outside hshort] at hheld
    simp [m] at hheld
  · exact Bool.false_ne_true ((h fun _ => 0).refused (Nat.lt_of_not_le hfits)).symm

/-- A `write!` to a window or to a message does what it owes, whatever was in the
buffer, exactly for the texts that need no position. -/
theorem formatted_writes (ss : List (List UInt8)) :
    (∀ b : BytesMut,
      (∀ m, Formats b m ss (b.writeFmt m ss)) ↔ FormatsInPlace b.len ss) ∧
    (∀ msg : UDMsg,
      (∀ region, Formats msg.bytes region ss
        (({ msg with region := region }.writeFmt ss).1.region,
          ({ msg with region := region }.writeFmt ss).2)) ↔ FormatsInPlace msg.size ss) := by
  refine ⟨fun b => ⟨inPlace_of_formats, formats_of_inPlace⟩, fun msg => ?_⟩
  simp only [UDMsg.writeFmt_eq]
  exact ⟨inPlace_of_formats (b := msg.bytes), formats_of_inPlace (b := msg.bytes)⟩

/-- `write!(w, "hello")` with 32 bytes. -/
theorem formatted_writes_hello :
    let ss : List (List UInt8) := ["hello".toUTF8.data.toList]
    let b : BytesMut := ⟨64, 32, by decide⟩
    FormatsInPlace 32 ss ∧ (∀ m, Formats b m ss (b.writeFmt m ss)) := by
  intro ss b
  exact ⟨by decide, ((formatted_writes ss).1 b).mpr (by decide)⟩

/-- `write!(w, "n = {}", 5)` passes on two fragments.  The buffer begins with `5 = `
afterwards, and a buffer that is too short for the text takes it without an error. -/
theorem fragments_overwrite_each_other :
    let ss : List (List UInt8) := ["n = ".toUTF8.data.toList, "5".toUTF8.data.toList]
    let b : BytesMut := ⟨64, 32, by decide⟩
    let narrow : BytesMut := ⟨64, 4, by decide⟩
    let m : Memory := fun _ => 0
    let msg : UDMsg := .create m
    ((b.writeFmt m ss).2 = true ∧
        readBytes (b.writeFmt m ss).1 64 5 = "5 = ".toUTF8.data.toList ++ [0] ∧
        ¬ Formats b m ss (b.writeFmt m ss)) ∧
      ((msg.writeFmt ss).2 = true ∧
        readBytes (msg.writeFmt ss).1.region 0 5 = "5 = ".toUTF8.data.toList ++ [0] ∧
        ¬ Formats msg.bytes m ss ((msg.writeFmt ss).1.region, (msg.writeFmt ss).2)) ∧
      (narrow.writeFmt m ss).2 = true ∧ ¬ Formats narrow m ss (narrow.writeFmt m ss) := by
  intro ss b narrow m msg
  refine ⟨⟨rfl, by decide, fun h => ?_⟩, ⟨rfl, by decide, fun h => ?_⟩, rfl, fun h => ?_⟩
  · exact absurd ((h.written (by decide)).2.1.byte (show 0 < ss.flatten.length by decide))
      (by decide)
  · exact absurd ((h.written (by decide)).2.1.byte (show 0 < ss.flatten.length by decide))
      (by decide)
  · exact absurd (h.refused (by decide)) (by decide)

end Mitosis
