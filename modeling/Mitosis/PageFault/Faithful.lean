import Mitosis.Prefetcher.Refinement

/-!
# The contents of the pages

`source` gives the remote page of every slot that the parent mapped.  A view is
faithful to it if every word leads to that page: a remote address is its
address, a cached or prefetched page holds its content, and every READ under way
reads it.  Steps that only poll successful READs and do not prefetch cached
pages keep this.
-/

namespace Mitosis.PageFault

open Mitosis.OsNetwork
open Mitosis.Prefetcher
open Mitosis.RemoteMapping

/-- The pages whose content does not change any more. -/
def Settled (h : Holder) : Prop := h = .filled ∨ h = .process

/-- Every word, READ and local page belongs to the remote page of its slot. -/
structure Faithful (cached : PhysAddr → Bool) (source : ℕ → Option PhysAddr)
    (v : SlotView) : Prop where
  remote : ∀ k w, v.word k = some w → PhysAddr.bottomBit w = false → cached w = false →
    source k = some (PhysAddr.decode w)
  cache : ∀ k w, v.word k = some w → PhysAddr.bottomBit w = false → cached w = true →
    ∃ raddr, source k = some raddr ∧ v.contents (PhysAddr.decode w) = .remote raddr ∧
      Settled (v.holder (PhysAddr.decode w))
  fetches : ∀ f ∈ v.queue, source f.slot = some f.raddr
  inSlot : ∀ p k, v.holder p = .slot k →
    ∃ raddr, source k = some raddr ∧ v.contents p = .remote raddr

/-- The steps that keep a view faithful. -/
def SoundEvent (cached : PhysAddr → Bool) : SlotEvent → Prop
  | .issue _ _ w => cached w = false
  | .settle status => status = .success
  | .hand _ | .alloc _ | .fill _ _ => True
  | .assign _ _ => False

namespace Faithful

variable {cached : PhysAddr → Bool} {source : ℕ → Option PhysAddr} {v v' : SlotView}

theorem touch (hG : Faithful cached source v) {page : ℕ} {h : Holder}
    {content : PageContent} (hfree : ¬ Settled (v.holder page))
    (hslot : ∀ k, v.holder page ≠ .slot k) (hnew : ∀ k, h ≠ .slot k) :
    Faithful cached source ⟨v.word, v.queue, Function.update v.contents page content,
      Function.update v.holder page h, v.handed⟩ where
  remote := hG.remote
  cache k w hw hbit hc := by
    obtain ⟨raddr, hsource, hcontents, hsettled⟩ := hG.cache k w hw hbit hc
    have hne : PhysAddr.decode w ≠ page := by
      rintro rfl
      exact hfree hsettled
    exact ⟨raddr, hsource, by simpa [hne] using hcontents, by simpa [hne] using hsettled⟩
  fetches := hG.fetches
  inSlot p k hp := by
    have hne : p ≠ page := by
      rintro rfl
      exact hnew k (by simpa using hp)
    obtain ⟨raddr, hsource, hcontents⟩ := hG.inSlot p k (by simpa [hne] using hp)
    exact ⟨raddr, hsource, by simpa [hne] using hcontents⟩

theorem issue (hG : Faithful cached source v) {slot page : ℕ} {w : PhysAddr}
    (hword : v.word slot = some w) (hremote : PhysAddr.bottomBit w = false)
    (hfresh : v.holder page = .nobody) (hw : cached w = false) :
    Faithful cached source (v.issue slot page w) := by
  have htouch : Faithful cached source ⟨v.word, v.queue,
      Function.update v.contents page .unfilled, Function.update v.holder page .fetch,
      v.handed⟩ :=
    hG.touch (by simp [hfresh, Settled]) (by simp [hfresh]) (by simp)
  have hword' : ∀ k w', (v.issue slot page w).word k = some w' →
      PhysAddr.bottomBit w' = false → v.word k = some w' := by
    intro k w' hk hbit
    have hne : k ≠ slot := by
      rintro rfl
      rw [SlotView.issue_word, Function.update_self, Option.some.injEq] at hk
      rw [← hk, bottomBit_magic] at hbit
      cases hbit
    simpa [hne] using hk
  constructor
  case remote => exact fun k w' hk hbit => htouch.remote k w' (hword' k w' hk hbit) hbit
  case cache => exact fun k w' hk hbit => htouch.cache k w' (hword' k w' hk hbit) hbit
  case fetches =>
    intro f hf
    rcases List.mem_append.mp hf with hold | hnew
    · exact hG.fetches f hold
    · rw [List.mem_singleton.mp hnew]
      exact hG.remote slot w hword hremote hw
  case inSlot => exact htouch.inSlot

theorem settle (hG : Faithful cached source v) (hv : v.Inv) {f : Fetch} {rest : List Fetch}
    (hqueue : v.queue = f :: rest) :
    Faithful cached source (v.settle f rest .success) := by
  have hfetch : v.holder f.page = .fetch := (hv.fetching f.page).mpr (by simp [hqueue])
  have hpage : ValidPage f.page := hv.valid_of hfetch (by simp)
  have hword' : ∀ k w, (v.settle f rest .success).word k = some w →
      PhysAddr.bottomBit w = false → v.word k = some w := by
    intro k w hk hbit
    have hne : k ≠ f.slot := by
      rintro rfl
      rw [SlotView.settle_word, Function.update_self, Option.some.injEq] at hk
      rw [← hk, hpage.bottomBit_localWord] at hbit
      cases hbit
    simpa [hne] using hk
  have hsource := hG.fetches f (by simp [hqueue])
  constructor
  case remote => exact fun k w hk hbit => hG.remote k w (hword' k w hk hbit) hbit
  case cache =>
    intro k w hk hbit hc
    obtain ⟨raddr, hsource, hcontents, hsettled⟩ := hG.cache k w (hword' k w hk hbit) hbit hc
    have hne : PhysAddr.decode w ≠ f.page := by
      intro heq
      rw [heq, hfetch] at hsettled
      simp [Settled] at hsettled
    exact ⟨raddr, hsource, by simpa [hne] using hcontents, by simpa [hne] using hsettled⟩
  case fetches =>
    intro f' hf'
    exact hG.fetches f' (by rw [hqueue]; exact List.mem_cons_of_mem _ hf')
  case inSlot =>
    intro p k hp
    by_cases hpp : p = f.page
    · subst hpp
      rw [SlotView.settle_holder, Function.update_self, Holder.slot.injEq] at hp
      exact ⟨f.raddr, hp ▸ hsource, by simp⟩
    · obtain ⟨raddr, hsource, hcontents⟩ := hG.inSlot p k (by simpa [hpp] using hp)
      exact ⟨raddr, hsource, by simpa [hpp] using hcontents⟩

theorem hand (hG : Faithful cached source v) {slot page : ℕ}
    (hpage : v.holder page = .slot slot) :
    Faithful cached source (v.hand slot page) := by
  have hword' : ∀ k w, (v.hand slot page).word k = some w → v.word k = some w := by
    intro k w hk
    have hne : k ≠ slot := by
      rintro rfl
      simp at hk
    simpa [hne] using hk
  constructor
  case remote => exact fun k w hk => hG.remote k w (hword' k w hk)
  case cache =>
    intro k w hk hbit hc
    obtain ⟨raddr, hsource, hcontents, hsettled⟩ := hG.cache k w (hword' k w hk) hbit hc
    have hne : PhysAddr.decode w ≠ page := by
      intro heq
      rw [heq, hpage] at hsettled
      simp [Settled] at hsettled
    exact ⟨raddr, hsource, hcontents, by simpa [hne] using hsettled⟩
  case fetches => exact hG.fetches
  case inSlot =>
    intro p k hp
    have hne : p ≠ page := by
      rintro rfl
      simp at hp
    exact hG.inSlot p k (by simpa [hne] using hp)

theorem step (hG : Faithful cached source v) (hv : v.Inv) {e : SlotEvent}
    (he : SoundEvent cached e) (hs : SlotStep v e v') : Faithful cached source v' := by
  cases hs with
  | issue hword hremote _ hfresh => exact hG.issue hword hremote hfresh he
  | settle hqueue status =>
    obtain rfl : status = .success := he
    exact hG.settle hv hqueue
  | hand hword hlocal hready => exact hG.hand (hv.holder_decode hword hlocal hready).1
  | alloc _ hfresh =>
    exact hG.touch (by simp [hfresh, Settled]) (by simp [hfresh]) (by simp)
  | fill hblank content =>
    exact hG.touch (by simp [hblank, Settled]) (by simp [hblank]) (by simp)
  | assign _ _ => exact he.elim

theorem run (hG : Faithful cached source v) (hv : v.Inv)
    (hrun : SlotRun (SoundEvent cached) v v') : Faithful cached source v' := by
  refine (hrun.invariant (I := fun v => v.Inv ∧ Faithful cached source v) ?_ ⟨hv, hG⟩).2
  rintro v e v' he hs ⟨hv, hG⟩
  exact ⟨hv.step hs, hG.step hv he hs⟩

theorem assign (hG : Faithful cached source v) {slot page : ℕ} {w : PhysAddr}
    {raddr : PhysAddr} (hw : cached w = true) (hdecode : PhysAddr.decode w = page)
    (hsource : source slot = some raddr) (hcontents : v.contents page = .remote raddr)
    (hsettled : Settled (v.holder page)) : Faithful cached source (v.assign slot w) := by
  constructor
  case remote =>
    intro k w' hk hbit hc
    by_cases hks : k = slot
    · subst hks
      rw [SlotView.assign_word, Function.update_self, Option.some.injEq] at hk
      rw [hk, hc] at hw
      cases hw
    · exact hG.remote k w' (by simpa [hks] using hk) hbit hc
  case cache =>
    intro k w' hk hbit hc
    by_cases hks : k = slot
    · subst hks
      rw [SlotView.assign_word, Function.update_self, Option.some.injEq] at hk
      rw [← hk, hdecode]
      exact ⟨raddr, hsource, hcontents, hsettled⟩
    · exact hG.cache k w' (by simpa [hks] using hk) hbit hc
  case fetches => exact hG.fetches
  case inSlot => exact hG.inSlot

end Faithful

/-! ## Slots that stay mapped -/

/-- The same slots are mapped, and nothing was handed out in between. -/
structure SameSlots (v v' : SlotView) : Prop where
  mapped : ∀ k, v'.word k = none ↔ v.word k = none
  handed : v'.handed = v.handed

theorem SameSlots.trans {v₁ v₂ v₃ : SlotView} (h : SameSlots v₁ v₂) (h' : SameSlots v₂ v₃) :
    SameSlots v₁ v₃ :=
  ⟨fun k => (h'.mapped k).trans (h.mapped k), h'.handed.trans h.handed⟩

theorem sameSlots_of_update {v v' : SlotView} {slot : ℕ} {w w' : PhysAddr}
    (hw : v.word slot = some w) (hword : v'.word = Function.update v.word slot (some w'))
    (hhanded : v'.handed = v.handed) : SameSlots v v' := by
  refine ⟨fun k => ?_, hhanded⟩
  by_cases hk : k = slot
  · simp [hk, hword, hw]
  · simp [hk, hword]

theorem sameSlots_of_prefetches {start : ℕ} {R : PhysAddr → Prop} {S : WCStatus → Prop}
    {v v' : SlotView} (hrun : SlotRun (SlotEvent.Prefetches start R S) v v') (hv : v.Inv) :
    SameSlots v v' := by
  refine (hrun.invariant (I := fun u => u.Inv ∧ SameSlots v u) ?_
    ⟨hv, fun _ => Iff.rfl, rfl⟩).2
  rintro u e u' he hs ⟨hu, hsame⟩
  refine ⟨hu.step hs, hsame.trans ?_⟩
  cases hs with
  | issue hword _ _ _ => exact sameSlots_of_update hword rfl rfl
  | @settle f rest hqueue status =>
    have hmark := (hu.marked f.slot).mpr (by simp [hqueue])
    exact sameSlots_of_update hmark rfl rfl
  | _ => exact (or_self_iff.mp he).elim

end Mitosis.PageFault
