import Mathlib.Algebra.Order.Group.Multiset
import Mitosis.Support.Machine

/-!
# Reference counts

Objects are allocated with one reference, references are taken and given back, and an
object is freed when its last reference is given back.  Nothing stops a program from
giving back a reference that it does not have, or from handing out an object that is
freed.

A program that says who owns the references can be proved not to do so: the owners are a
multiset, and `Trades` says what a list of events makes of them, whatever else is owned
besides.  References may be lost, for the object is then only never freed.
-/

namespace Mitosis.Support

inductive RefEvent (α : Type*) where
  | alloc (a : α)
  | get (a : α)
  | put (a : α)
  | hand (a : α)
deriving DecidableEq

/-- The number of references to each object, and the objects that were freed, as often
as they were. -/
structure RefCounts (α : Type*) where
  count : α → ℕ
  freed : List α

namespace RefCounts

variable {α : Type*} [DecidableEq α]

def empty : RefCounts α := ⟨fun _ => 0, []⟩

/-- Giving back the last reference frees the object, and so does giving back a reference
that does not exist. -/
def machine : Machine (RefCounts α) (RefEvent α) Unit where
  step s
    | .alloc a => ({ s with count := Function.update s.count a 1 }, ())
    | .get a => ({ s with count := Function.update s.count a (s.count a + 1) }, ())
    | .put a =>
      (⟨Function.update s.count a (s.count a - 1),
        if s.count a ≤ 1 then s.freed ++ [a] else s.freed⟩, ())
    | .hand _ => (s, ())

/-- An object that is handed out is not freed. -/
def Live (s : RefCounts α) : RefEvent α → Prop
  | .hand a => a ∉ s.freed
  | _ => True

instance (s : RefCounts α) : DecidablePred (Live s) := fun e => by
  cases e <;> unfold Live <;> infer_instance

/-- There is a reference for each owner, no object was freed twice, and the fresh
objects were not used. -/
structure Backed (s : RefCounts α) (owners : Multiset α) (fresh : Set α) : Prop where
  owned : ∀ a, owners.count a ≤ s.count a
  freed : ∀ a ∈ s.freed, s.count a = 0
  nodup : s.freed.Nodup
  fresh : ∀ a ∈ fresh, s.count a = 0 ∧ a ∉ s.freed

/-- Whatever else is owned, the events are safe where the owners are `o`, and lead to
the owners `o'`. -/
def Trades (o : Multiset α) (fresh : Set α) (es : List (RefEvent α)) (o' : Multiset α)
    (fresh' : Set α) : Prop :=
  ∀ (s : RefCounts α) (rest : Multiset α), Backed s (o + rest) fresh →
    Backed (machine.run s es) (o' + rest) fresh' ∧ machine.Always Live s es

theorem backed_empty (fresh : Set α) : Backed empty 0 fresh where
  owned a := by simp
  freed a ha := by cases ha
  nodup := List.nodup_nil
  fresh a _ := ⟨rfl, List.not_mem_nil⟩

section Rules

variable {s : RefCounts α} {o o' o'' : Multiset α} {fresh fresh' fresh'' : Set α}
  {es es' : List (RefEvent α)} {a : α}

theorem Backed.mono (h : Backed s o fresh) (ho : o' ≤ o) (hfresh : fresh' ⊆ fresh) :
    Backed s o' fresh' where
  owned a := (Multiset.count_le_of_le a ho).trans (h.owned a)
  freed := h.freed
  nodup := h.nodup
  fresh a ha := h.fresh a (hfresh ha)

theorem Backed.notMem_freed (h : Backed s o fresh) (ha : a ∈ o) : a ∉ s.freed := by
  intro hfreed
  have hle := h.owned a
  rw [h.freed a hfreed] at hle
  exact absurd (Multiset.count_pos.mpr ha) (Nat.not_lt.mpr hle)

namespace Trades

theorem lose (ho : o' ≤ o) : Trades o fresh [] o' fresh :=
  fun _ _ h => ⟨h.mono (add_le_add ho le_rfl) subset_rfl, trivial⟩

theorem append (h : Trades o fresh es o' fresh') (h' : Trades o' fresh' es' o'' fresh'') :
    Trades o fresh (es ++ es') o'' fresh'' := by
  intro s rest hs
  obtain ⟨hmid, hlive⟩ := h s rest hs
  obtain ⟨hend, hlive'⟩ := h' _ rest hmid
  rw [Machine.run_append]
  exact ⟨hend, Machine.always_append.mpr ⟨hlive, hlive'⟩⟩

theorem frame (h : Trades o fresh es o' fresh') (other : Multiset α) :
    Trades (o + other) fresh es (o' + other) fresh' := by
  intro s rest hs
  rw [add_assoc] at hs ⊢
  exact h s _ hs

theorem weaken (h : Trades o fresh es o' fresh') (ho : o'' ≤ o') (hfresh : fresh'' ⊆ fresh') :
    Trades o fresh es o'' fresh'' := by
  intro s rest hs
  obtain ⟨hend, hlive⟩ := h s rest hs
  exact ⟨hend.mono (add_le_add ho le_rfl) hfresh, hlive⟩

theorem of_le (h : Trades o' fresh es o'' fresh'') (ho : o' ≤ o) :
    Trades o fresh es o'' fresh'' :=
  (lose ho).append h

end Trades

theorem trades_alloc (ha : a ∈ fresh) :
    Trades o fresh [.alloc a] (a ::ₘ o) (fresh \ {a}) := by
  intro s rest hs
  obtain ⟨hzero, hfreed⟩ := hs.fresh a ha
  refine ⟨⟨?_, ?_, hs.nodup, ?_⟩, trivial, trivial⟩
  · intro b
    by_cases hb : b = a
    · subst hb
      have hle := hs.owned b
      rw [hzero] at hle
      simpa [machine] using hle
    · simpa [machine, hb] using hs.owned b
  · intro b hb
    have hne : b ≠ a := by
      rintro rfl
      exact hfreed hb
    simpa [machine, hne] using hs.freed b hb
  · rintro b ⟨hb, hne⟩
    have hba : b ≠ a := hne
    simpa [machine, hba] using hs.fresh b hb

theorem trades_get (ha : a ∈ o) : Trades o fresh [.get a] (a ::ₘ o) fresh := by
  intro s rest hs
  have hpos : 0 < s.count a :=
    (Multiset.count_pos.mpr (Multiset.mem_add.mpr (Or.inl ha))).trans_le (hs.owned a)
  have hlive := hs.notMem_freed (Multiset.mem_add.mpr (Or.inl ha))
  refine ⟨⟨?_, ?_, hs.nodup, ?_⟩, trivial, trivial⟩
  · intro b
    by_cases hb : b = a
    · subst hb
      simpa [machine] using hs.owned b
    · simpa [machine, hb] using hs.owned b
  · intro b hb
    have hne : b ≠ a := by
      rintro rfl
      exact hlive hb
    simpa [machine, hne] using hs.freed b hb
  · intro b hb
    have hne : b ≠ a := by
      rintro rfl
      exact hpos.ne' (hs.fresh b hb).1
    simpa [machine, hne] using hs.fresh b hb

theorem trades_put : Trades (a ::ₘ o) fresh [.put a] o fresh := by
  intro s rest hs
  have hmem : a ∈ a ::ₘ o + rest := Multiset.mem_add.mpr (Or.inl (Multiset.mem_cons_self a o))
  have hlive := hs.notMem_freed hmem
  have hcount := hs.owned a
  rw [Multiset.cons_add, Multiset.count_cons_self] at hcount
  refine ⟨⟨?_, ?_, ?_, ?_⟩, trivial, trivial⟩
  · intro b
    by_cases hb : b = a
    · subst hb
      simp only [Machine.run_cons, Machine.run_nil, machine, Function.update_self]
      omega
    · simpa [machine, hb] using hs.owned b
  · intro b hb
    by_cases hba : b = a
    · subst hba
      simp only [Machine.run_cons, Machine.run_nil, machine, Function.update_self] at hb ⊢
      split at hb
      · omega
      · exact absurd hb hlive
    · simp only [Machine.run_cons, Machine.run_nil, machine] at hb ⊢
      rw [Function.update_of_ne hba]
      split at hb
      · rw [List.mem_append, List.mem_singleton, or_iff_left hba] at hb
        exact hs.freed b hb
      · exact hs.freed b hb
  · simp only [Machine.run_cons, Machine.run_nil, machine]
    split
    · refine List.Nodup.append hs.nodup (List.nodup_singleton a) ?_
      simpa using hlive
    · exact hs.nodup
  · intro b hb
    obtain ⟨hzero, hnot⟩ := hs.fresh b hb
    have hne : b ≠ a := by
      rintro rfl
      omega
    simp only [Machine.run_cons, Machine.run_nil, machine]
    rw [Function.update_of_ne hne]
    refine ⟨hzero, ?_⟩
    split
    · simp [hnot, hne]
    · exact hnot

theorem trades_hand (ha : a ∈ o) : Trades o fresh [.hand a] o fresh :=
  fun _ _ hs => ⟨hs, hs.notMem_freed (Multiset.mem_add.mpr (Or.inl ha)), trivial⟩

theorem trades_puts (l : List α) :
    Trades ((l : Multiset α) + o) fresh (l.map .put) o fresh := by
  induction l with
  | nil => exact .lose (by simp)
  | cons a l ih =>
    rw [← Multiset.cons_coe, Multiset.cons_add]
    exact trades_put.append ih

end Rules

end RefCounts

end Mitosis.Support
