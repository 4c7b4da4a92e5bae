import Mathlib.Logic.Relation
import Mitosis.Prefetcher.Executor

/-!
# The slots of a prefetched table

This is the abstract view of prefetching: words by slot number, the READs under
way in posting order, and the local pages.  It changes in small steps, which are
the only ones the fault handler and the prefetcher make.  The invariant says
that each prefetched page has exactly one holder: a READ under way, a slot, or
the process it was handed to.  The pages that the fault handler fills itself,
and those of the page cache, are told apart from them.
-/

namespace Mitosis.Prefetcher

open Mitosis.OsNetwork
open Mitosis.RemoteMapping

/-- A READ under way: its slot, the page it fills and the remote page it
reads. -/
structure Fetch where
  slot : ℕ
  page : ℕ
  raddr : PhysAddr
deriving DecidableEq

/-- Who a page belongs to.  A page allocated for a prefetch goes from a READ to
a slot and then to the process; one allocated by the fault handler is blank
until the handler has filled it. -/
inductive Holder where
  | nobody
  | fetch
  | slot (k : ℕ)
  | process
  | blank
  | filled
deriving DecidableEq

/-- The holders of the pages allocated for a prefetch. -/
def Holder.Prefetched : Holder → Prop
  | fetch | slot _ | process => True
  | nobody | blank | filled => False

/-- `handed` lists the prefetched pages given to the process, with the slot
each one was in. -/
structure SlotView where
  word : ℕ → Option PhysAddr
  queue : List Fetch
  contents : ℕ → PageContent
  holder : ℕ → Holder
  handed : List (ℕ × ℕ)

/-- The word of a slot that holds a local page. -/
def localWord (page : ℕ) : PhysAddr :=
  PhysAddr.encode page PhysAddrBitFlag.prefetch.bits

/-- A page pointer: 8-byte aligned, not null and of 64 bits. -/
structure ValidPage (p : ℕ) : Prop where
  aligned : p % 8 = 0
  ne_null : p ≠ 0
  fits : p < 2 ^ 64

variable {p : ℕ}

theorem ValidPage.localWord_eq (h : ValidPage p) : localWord p = p + 1 :=
  PhysAddr.encode_eq h.aligned .prefetch

theorem ValidPage.decode_localWord (h : ValidPage p) :
    PhysAddr.decode (localWord p) = p :=
  PhysAddr.decode_encode h.aligned h.fits .prefetch

theorem ValidPage.bottomBit_localWord (h : ValidPage p) :
    PhysAddr.bottomBit (localWord p) = true := by
  have heven : p % 2 = 0 := by
    have haligned := h.aligned
    omega
  rw [h.localWord_eq]
  exact (PhysAddr.isPrefetch_iff _).mpr (by omega)

theorem ValidPage.localWord_ne_magic (h : ValidPage p) :
    localWord p ≠ kMagicInPrefetch := by
  rw [h.localWord_eq]
  intro heq
  exact h.ne_null (Nat.succ.inj heq)

theorem bottomBit_magic : PhysAddr.bottomBit kMagicInPrefetch = true := rfl

namespace SlotView

/-- Post a READ for a slot. -/
@[simps]
def issue (v : SlotView) (slot page : ℕ) (w : PhysAddr) : SlotView where
  word := Function.update v.word slot (some kMagicInPrefetch)
  queue := v.queue ++ [⟨slot, page, PhysAddr.realAddr w⟩]
  contents := Function.update v.contents page .unfilled
  holder := Function.update v.holder page .fetch
  handed := v.handed

/-- Poll the READ `f`, leaving `rest` under way. -/
@[simps]
def settle (v : SlotView) (f : Fetch) (rest : List Fetch) (status : WCStatus) :
    SlotView where
  word := Function.update v.word f.slot (some (localWord f.page))
  queue := rest
  contents := if status = .success then
      Function.update v.contents f.page (.remote f.raddr)
    else v.contents
  holder := Function.update v.holder f.page (.slot f.slot)
  handed := v.handed

/-- Give the page of a slot to the process and clear the slot. -/
@[simps]
def hand (v : SlotView) (slot page : ℕ) : SlotView where
  word := Function.update v.word slot none
  queue := v.queue
  contents := v.contents
  holder := Function.update v.holder page .process
  handed := v.handed ++ [(slot, page)]

/-- Allocate a page for the fault handler. -/
@[simps]
def alloc (v : SlotView) (page : ℕ) : SlotView where
  word := v.word
  queue := v.queue
  contents := Function.update v.contents page .unfilled
  holder := Function.update v.holder page .blank
  handed := v.handed

/-- Give a content to a page of the fault handler. -/
@[simps]
def fill (v : SlotView) (page : ℕ) (content : PageContent) : SlotView where
  word := v.word
  queue := v.queue
  contents := Function.update v.contents page content
  holder := Function.update v.holder page .filled
  handed := v.handed

@[simps]
def assign (v : SlotView) (slot : ℕ) (w : PhysAddr) : SlotView where
  word := Function.update v.word slot (some w)
  queue := v.queue
  contents := v.contents
  holder := v.holder
  handed := v.handed

end SlotView

inductive SlotEvent where
  | issue (slot page : ℕ) (w : PhysAddr)
  | settle (status : WCStatus)
  | hand (slot : ℕ)
  | alloc (page : ℕ)
  | fill (page : ℕ) (content : PageContent)
  | assign (slot : ℕ) (w : PhysAddr)
deriving DecidableEq

/-- A READ is posted for a slot with a remote address, into a page that nobody
holds; the oldest READ is polled; a local page is handed out; the fault handler
allocates and fills a page; a word is put in a slot without prefetch. -/
inductive SlotStep : SlotView → SlotEvent → SlotView → Prop
  | issue {v : SlotView} {slot page : ℕ} {w : PhysAddr} (hword : v.word slot = some w)
      (hremote : PhysAddr.bottomBit w = false) (hpage : ValidPage page)
      (hfresh : v.holder page = .nobody) :
      SlotStep v (.issue slot page w) (v.issue slot page w)
  | settle {v : SlotView} {f : Fetch} {rest : List Fetch} (hqueue : v.queue = f :: rest)
      (status : WCStatus) : SlotStep v (.settle status) (v.settle f rest status)
  | hand {v : SlotView} {slot : ℕ} {w : PhysAddr} (hword : v.word slot = some w)
      (hlocal : PhysAddr.bottomBit w = true) (hready : w ≠ kMagicInPrefetch) :
      SlotStep v (.hand slot) (v.hand slot (PhysAddr.decode w))
  | alloc {v : SlotView} {page : ℕ} (hpage : ValidPage page)
      (hfresh : v.holder page = .nobody) : SlotStep v (.alloc page) (v.alloc page)
  | fill {v : SlotView} {page : ℕ} (hblank : v.holder page = .blank)
      (content : PageContent) : SlotStep v (.fill page content) (v.fill page content)
  | assign {v : SlotView} {slot : ℕ} {w : PhysAddr}
      (hremote : ∀ w', v.word slot = some w' → PhysAddr.bottomBit w' = false)
      (hword : PhysAddr.bottomBit w = false) :
      SlotStep v (.assign slot w) (v.assign slot w)

/-- Any number of steps of the admitted kinds. -/
def SlotRun (ok : SlotEvent → Prop) : SlotView → SlotView → Prop :=
  Relation.ReflTransGen fun v v' => ∃ e, ok e ∧ SlotStep v e v'

variable {ok : SlotEvent → Prop} {v v' : SlotView}

theorem SlotRun.single {e : SlotEvent}
    (he : ok e) (h : SlotStep v e v') : SlotRun ok v v' :=
  Relation.ReflTransGen.single ⟨e, he, h⟩

theorem SlotRun.invariant {I : SlotView → Prop}
    (hstep : ∀ v e v', ok e → SlotStep v e v' → I v → I v')
    (h : SlotRun ok v v') (hv : I v) : I v' := by
  induction h with
  | refl => exact hv
  | tail _ hlast ih =>
    obtain ⟨e, he, hs⟩ := hlast
    exact hstep _ e _ he hs ih

theorem SlotRun.mono {ok ok' : SlotEvent → Prop} (hok : ∀ e, ok e → ok' e)
    (h : SlotRun ok v v') : SlotRun ok' v v' := by
  induction h with
  | refl => exact Relation.ReflTransGen.refl
  | tail _ hlast ih =>
    obtain ⟨e, he, hs⟩ := hlast
    exact ih.tail ⟨e, hok e he, hs⟩

/-! ## One holder for each page -/

namespace SlotView

theorem nodup_map_append_singleton {α β : Type} {f : α → β} {l : List α} {a : α}
    (hl : (l.map f).Nodup) (ha : f a ∉ l.map f) : ((l ++ [a]).map f).Nodup := by
  rw [List.map_append, List.nodup_append]
  refine ⟨hl, List.nodup_singleton _, ?_⟩
  rintro b hb c hc rfl
  rw [List.map_singleton, List.mem_singleton] at hc
  rw [hc] at hb
  exact ha hb

theorem update_eq_iff {α : Type} {f : ℕ → α} {a : ℕ} {b c : α} (hold : f a ≠ c) (hnew : b ≠ c)
    (x : ℕ) : Function.update f a b x = c ↔ f x = c := by
  by_cases hx : x = a
  · subst hx
    rw [Function.update_self]
    exact iff_of_false hnew hold
  · rw [Function.update_of_ne hx]

/-- Words, READs and handed pages agree with the holders of the pages. -/
structure Inv (v : SlotView) : Prop where
  valid : ∀ p, v.holder p ≠ .nobody → ValidPage p
  /-- the READs under way are those of the marked slots, one each -/
  slotsNodup : (v.queue.map Fetch.slot).Nodup
  marked : ∀ k, v.word k = some kMagicInPrefetch ↔ k ∈ v.queue.map Fetch.slot
  pagesNodup : (v.queue.map Fetch.page).Nodup
  fetching : ∀ p, v.holder p = .fetch ↔ p ∈ v.queue.map Fetch.page
  /-- a slot with the lowest bit set is marked or holds a page -/
  localPage : ∀ k w, v.word k = some w → PhysAddr.bottomBit w = true →
    w ≠ kMagicInPrefetch → ∃ p, w = localWord p ∧ v.holder p = .slot k
  inSlot : ∀ p k, v.holder p = .slot k → v.word k = some (localWord p)
  handedNodup : (v.handed.map Prod.snd).Nodup
  handedOut : ∀ p, v.holder p = .process ↔ p ∈ v.handed.map Prod.snd

variable {v : SlotView}

variable {w : PhysAddr}

theorem Inv.valid_of {h : Holder} (hv : v.Inv) (hp : v.holder p = h)
    (hne : h ≠ .nobody) : ValidPage p :=
  hv.valid p (by rw [hp]; exact hne)

theorem Inv.valid_update (hv : v.Inv) {page : ℕ} (hpage : ValidPage page) (h : Holder) (p : ℕ)
    (hp : Function.update v.holder page h p ≠ .nobody) : ValidPage p := by
  by_cases hpp : p = page
  · exact hpp ▸ hpage
  · exact hv.valid p (by simpa [hpp] using hp)

theorem Inv.localPage_update (hv : v.Inv) {k page : ℕ} (hk : v.word k = some w)
    (hbit : PhysAddr.bottomBit w = true) (hne : w ≠ kMagicInPrefetch)
    (hpage : v.holder page ≠ .slot k) (h : Holder) :
    ∃ p, w = localWord p ∧ Function.update v.holder page h p = .slot k := by
  obtain ⟨p, heq, hp⟩ := hv.localPage k w hk hbit hne
  have hpp : p ≠ page := by
    rintro rfl
    exact hpage hp
  exact ⟨p, heq, by rwa [Function.update_of_ne hpp]⟩

theorem Inv.issue (hv : v.Inv) {slot page : ℕ}
    (hword : v.word slot = some w) (hremote : PhysAddr.bottomBit w = false)
    (hpage : ValidPage page) (hfresh : v.holder page = .nobody) :
    (v.issue slot page w).Inv := by
  have hslot : slot ∉ v.queue.map Fetch.slot := by
    intro hmem
    rw [(hv.marked slot).mpr hmem] at hword
    cases hword
    rw [bottomBit_magic] at hremote
    cases hremote
  have hpageNew : page ∉ v.queue.map Fetch.page := by
    intro hmem
    rw [(hv.fetching page).mpr hmem] at hfresh
    cases hfresh
  constructor
  case valid => exact hv.valid_update hpage .fetch
  case slotsNodup => exact nodup_map_append_singleton hv.slotsNodup hslot
  case marked =>
    intro k
    by_cases hk : k = slot
    · simp [hk]
    · simpa [hk] using hv.marked k
  case pagesNodup => exact nodup_map_append_singleton hv.pagesNodup hpageNew
  case fetching =>
    intro p
    by_cases hpp : p = page
    · simp [hpp]
    · simpa [hpp] using hv.fetching p
  case localPage =>
    intro k w' hk hbit hne
    by_cases hks : k = slot
    · subst hks
      simp only [issue_word, Function.update_self, Option.some.injEq] at hk
      exact absurd hk.symm hne
    · rw [issue_word, Function.update_of_ne hks] at hk
      exact hv.localPage_update hk hbit hne (by simp [hfresh]) .fetch
  case inSlot =>
    intro p k hp
    have hpp : p ≠ page := by
      rintro rfl
      simp at hp
    rw [issue_holder, Function.update_of_ne hpp] at hp
    have hk := hv.inSlot p k hp
    have hks : k ≠ slot := by
      rintro rfl
      rw [hk] at hword
      cases hword
      rw [(hv.valid_of hp (by simp)).bottomBit_localWord] at hremote
      cases hremote
    simpa [hks] using hk
  case handedNodup => exact hv.handedNodup
  case handedOut =>
    exact fun p => (update_eq_iff (by simp [hfresh]) (by simp) p).trans (hv.handedOut p)

theorem Inv.settle (hv : v.Inv) {f : Fetch} {rest : List Fetch}
    (hqueue : v.queue = f :: rest) (status : WCStatus) :
    (v.settle f rest status).Inv := by
  have hslots := hv.slotsNodup
  have hpages := hv.pagesNodup
  rw [hqueue, List.map_cons, List.nodup_cons] at hslots hpages
  have hfetch : v.holder f.page = .fetch := (hv.fetching f.page).mpr (by simp [hqueue])
  have hpage : ValidPage f.page := hv.valid_of hfetch (by simp)
  have hmark : v.word f.slot = some kMagicInPrefetch :=
    (hv.marked f.slot).mpr (by simp [hqueue])
  constructor
  case valid => exact hv.valid_update hpage (.slot f.slot)
  case slotsNodup => exact hslots.2
  case marked =>
    intro k
    by_cases hk : k = f.slot
    · subst hk
      simpa [hpage.localWord_ne_magic] using hslots.1
    · have hmarked := hv.marked k
      rw [hqueue, List.map_cons, List.mem_cons, or_iff_right hk] at hmarked
      simpa [hk] using hmarked
  case pagesNodup => exact hpages.2
  case fetching =>
    intro p
    by_cases hpp : p = f.page
    · subst hpp
      simpa using hpages.1
    · have hfetching := hv.fetching p
      rw [hqueue, List.map_cons, List.mem_cons, or_iff_right hpp] at hfetching
      simpa [hpp] using hfetching
  case localPage =>
    intro k w hk hbit hne
    by_cases hks : k = f.slot
    · subst hks
      simp only [settle_word, Function.update_self, Option.some.injEq] at hk
      exact ⟨f.page, hk.symm, by simp⟩
    · rw [settle_word, Function.update_of_ne hks] at hk
      exact hv.localPage_update hk hbit hne (by simp [hfetch]) (.slot f.slot)
  case inSlot =>
    intro p k hp
    by_cases hpp : p = f.page
    · subst hpp
      simp only [settle_holder, Function.update_self, Holder.slot.injEq] at hp
      simp [hp]
    · rw [settle_holder, Function.update_of_ne hpp] at hp
      have hk := hv.inSlot p k hp
      have hks : k ≠ f.slot := by
        rintro rfl
        rw [hk] at hmark
        exact (hv.valid_of hp (by simp)).localWord_ne_magic (Option.some.inj hmark)
      simpa [hks] using hk
  case handedNodup => exact hv.handedNodup
  case handedOut =>
    exact fun p => (update_eq_iff (by simp [hfetch]) (by simp) p).trans (hv.handedOut p)

theorem Inv.hand (hv : v.Inv) {slot page : ℕ} (hpage : v.holder page = .slot slot) :
    (v.hand slot page).Inv := by
  have hword := hv.inSlot page slot hpage
  have hvalid : ValidPage page := hv.valid_of hpage (by simp)
  have hnew : page ∉ v.handed.map Prod.snd := fun hmem => by
    rw [(hv.handedOut page).mpr hmem] at hpage
    cases hpage
  constructor
  case valid => exact hv.valid_update hvalid .process
  case slotsNodup => exact hv.slotsNodup
  case marked =>
    have hunmarked : v.word slot ≠ some kMagicInPrefetch := by
      rw [hword]
      exact fun heq => hvalid.localWord_ne_magic (Option.some.inj heq)
    exact fun k => (update_eq_iff hunmarked (by simp) k).trans (hv.marked k)
  case pagesNodup => exact hv.pagesNodup
  case fetching =>
    exact fun p => (update_eq_iff (by simp [hpage]) (by simp) p).trans (hv.fetching p)
  case localPage =>
    intro k w hk hbit hne
    have hks : k ≠ slot := by
      rintro rfl
      simp at hk
    have hother : v.holder page ≠ .slot k := by
      rw [hpage]
      exact fun heq => hks (Holder.slot.inj heq).symm
    rw [hand_word, Function.update_of_ne hks] at hk
    exact hv.localPage_update hk hbit hne hother .process
  case inSlot =>
    intro p k hp
    have hpp : p ≠ page := by
      rintro rfl
      simp at hp
    rw [hand_holder, Function.update_of_ne hpp] at hp
    have hks : k ≠ slot := by
      rintro rfl
      have hk := hv.inSlot p k hp
      rw [hword, Option.some.injEq] at hk
      have hvalid' : ValidPage p := hv.valid_of hp (by simp)
      exact hpp (by rw [← hvalid'.decode_localWord, ← hk, hvalid.decode_localWord])
    simpa [hks] using hv.inSlot p k hp
  case handedNodup => exact nodup_map_append_singleton hv.handedNodup hnew
  case handedOut =>
    intro p
    by_cases hpp : p = page
    · simp [hpp]
    · simpa [hpp] using hv.handedOut p

theorem Inv.rehold (hv : v.Inv) {page : ℕ} {h : Holder} (hpage : ValidPage page)
    (hold : ¬ (v.holder page).Prefetched) (hnew : ¬ h.Prefetched)
    (contents : ℕ → PageContent) :
    SlotView.Inv ⟨v.word, v.queue, contents, Function.update v.holder page h,
      v.handed⟩ := by
  have hsame : ∀ p h', Holder.Prefetched h' →
      (Function.update v.holder page h p = h' ↔ v.holder p = h') := by
    intro p h' hh'
    have hold' : v.holder page ≠ h' := fun heq => hold (heq ▸ hh')
    have hnew' : h ≠ h' := fun heq => hnew (heq ▸ hh')
    exact update_eq_iff hold' hnew' p
  constructor
  case valid => exact hv.valid_update hpage h
  case slotsNodup => exact hv.slotsNodup
  case marked => exact hv.marked
  case pagesNodup => exact hv.pagesNodup
  case fetching => exact fun p => (hsame p .fetch trivial).trans (hv.fetching p)
  case localPage =>
    intro k w hk hbit hne
    obtain ⟨p, heq, hp⟩ := hv.localPage k w hk hbit hne
    exact ⟨p, heq, (hsame p (.slot k) trivial).mpr hp⟩
  case inSlot => exact fun p k hp => hv.inSlot p k ((hsame p (.slot k) trivial).mp hp)
  case handedNodup => exact hv.handedNodup
  case handedOut => exact fun p => (hsame p .process trivial).trans (hv.handedOut p)

theorem Inv.assign (hv : v.Inv) {slot : ℕ}
    (hremote : ∀ w', v.word slot = some w' → PhysAddr.bottomBit w' = false)
    (hword : PhysAddr.bottomBit w = false) : (v.assign slot w).Inv := by
  have hold : ∀ w', PhysAddr.bottomBit w' = true → v.word slot ≠ some w' := by
    intro w' hbit hw'
    rw [hremote w' hw'] at hbit
    cases hbit
  constructor
  case valid => exact hv.valid
  case slotsNodup => exact hv.slotsNodup
  case marked =>
    have hunmarked : some w ≠ some kMagicInPrefetch := by
      rintro ⟨⟩
      rw [bottomBit_magic] at hword
      cases hword
    exact fun k => (update_eq_iff (hold _ bottomBit_magic) hunmarked k).trans (hv.marked k)
  case pagesNodup => exact hv.pagesNodup
  case fetching => exact hv.fetching
  case localPage =>
    intro k w' hk hbit hne
    by_cases hks : k = slot
    · subst hks
      simp only [assign_word, Function.update_self, Option.some.injEq] at hk
      rw [← hk, hword] at hbit
      cases hbit
    · exact hv.localPage k w' (by simpa [hks] using hk) hbit hne
  case inSlot =>
    intro p k hp
    have hk := hv.inSlot p k hp
    have hks : k ≠ slot := by
      rintro rfl
      exact hold _ (hv.valid_of hp (by simp)).bottomBit_localWord hk
    simpa [hks] using hk
  case handedNodup => exact hv.handedNodup
  case handedOut => exact hv.handedOut

theorem Inv.holder_decode (hv : v.Inv) {slot : ℕ}
    (hword : v.word slot = some w) (hlocal : PhysAddr.bottomBit w = true)
    (hready : w ≠ kMagicInPrefetch) :
    v.holder (PhysAddr.decode w) = .slot slot ∧ w = localWord (PhysAddr.decode w) := by
  obtain ⟨p, rfl, hp⟩ := hv.localPage slot w hword hlocal hready
  rw [(hv.valid_of hp (by simp)).decode_localWord]
  exact ⟨hp, rfl⟩

/-- Every step keeps the invariant. -/
theorem Inv.step (hv : v.Inv) {v' : SlotView} {e : SlotEvent} (hs : SlotStep v e v') :
    v'.Inv := by
  cases hs with
  | issue hword hremote hpage hfresh => exact hv.issue hword hremote hpage hfresh
  | settle hqueue status => exact hv.settle hqueue status
  | hand hword hlocal hready => exact hv.hand (hv.holder_decode hword hlocal hready).1
  | alloc hpage hfresh =>
    exact hv.rehold hpage (by simp [hfresh, Holder.Prefetched]) (by simp [Holder.Prefetched]) _
  | fill hblank content =>
    exact hv.rehold (hv.valid_of hblank (by simp)) (by simp [hblank, Holder.Prefetched])
      (by simp [Holder.Prefetched]) _
  | assign hremote hword => exact hv.assign hremote hword

theorem Inv.run (hv : v.Inv) {v' : SlotView}
    (hr : SlotRun ok v v') : v'.Inv :=
  hr.invariant (fun _ _ _ _ hs hv => hv.step hs) hv

end SlotView

end Mitosis.Prefetcher
