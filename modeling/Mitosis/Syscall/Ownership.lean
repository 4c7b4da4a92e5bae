import Mitosis.Syscall.Prepare

/-!
# Who owns a registered key

The registry is shared, the key and the pin are data of a handler.  Read off the
trace of a run, a successful prepare owns its key as long as its handler has not
been closed, and for good if the image was pinned.  The registry holds exactly
the owned keys, each owned by one prepare.
-/

namespace Mitosis.Syscall

open Support Descriptors Shadow

/-- The calls of a run with what they answered. -/
abbrev Calls (sz : ℕ) := List (HandlerAction sz × HandlerOutput)

section Trace

variable {sz : ℕ} {tr : Calls sz} {i key handler : ℕ} {pingImg : Bool}

/-- Call `i` is a prepare of the handler that succeeded. -/
def RegisteredAt (tr : Calls sz) (i key handler : ℕ) (pingImg : Bool) : Prop :=
  ∃ caller, tr[i]? = some (.prepare handler key pingImg caller, .prepared (.ok 0))

/-- The handler is closed by a call after call `i`. -/
def ClosedSince (tr : Calls sz) (i handler : ℕ) : Prop :=
  ∃ j answer, i < j ∧ tr[j]? = some (.close handler, answer)

/-- Call `i` registered the key, and the key is pinned or the handler was not
closed since. -/
def Owns (tr : Calls sz) (i key handler : ℕ) (pingImg : Bool) : Prop :=
  RegisteredAt tr i key handler pingImg ∧ (pingImg = true ∨ ¬ ClosedSince tr i handler)

theorem getElem?_concat_eq_some {α : Type} {l : List α} {a b : α} {n : ℕ} :
    (l ++ [a])[n]? = some b ↔ l[n]? = some b ∨ n = l.length ∧ a = b := by
  rcases lt_trichotomy n l.length with hlt | rfl | hgt
  · rw [List.getElem?_append_left hlt]
    simp [hlt.ne]
  · simp
  · rw [List.getElem?_eq_none (by simp; omega), List.getElem?_eq_none hgt.le]
    simp [hgt.ne']

theorem not_closedSince_length (tr : Calls sz) (handler : ℕ) :
    ¬ ClosedSince tr tr.length handler := by
  rintro ⟨j, answer, hlt, hcall⟩
  exact absurd (List.getElem?_eq_some_iff.mp hcall).1 (by omega)

theorem RegisteredAt.lt_length (h : RegisteredAt tr i key handler pingImg) :
    i < tr.length := by
  obtain ⟨_, hcall⟩ := h
  exact (List.getElem?_eq_some_iff.mp hcall).1

theorem RegisteredAt.eq {key' handler' : ℕ} {pingImg' : Bool}
    (h : RegisteredAt tr i key handler pingImg)
    (h' : RegisteredAt tr i key' handler' pingImg') :
    key = key' ∧ handler = handler' ∧ pingImg = pingImg' := by
  obtain ⟨_, hcall⟩ := h
  obtain ⟨_, hcall'⟩ := h'
  rw [hcall] at hcall'
  cases hcall'
  exact ⟨rfl, rfl, rfl⟩

theorem registeredAt_concat {call : HandlerAction sz × HandlerOutput} :
    RegisteredAt (tr ++ [call]) i key handler pingImg ↔
      RegisteredAt tr i key handler pingImg ∨ i = tr.length ∧
        ∃ caller, call = (.prepare handler key pingImg caller, .prepared (.ok 0)) := by
  unfold RegisteredAt
  simp only [getElem?_concat_eq_some, exists_or, exists_and_left]

theorem closedSince_concat {call : HandlerAction sz × HandlerOutput} :
    ClosedSince (tr ++ [call]) i handler ↔
      ClosedSince tr i handler ∨ i < tr.length ∧ ∃ answer, call = (.close handler, answer) := by
  unfold ClosedSince
  constructor
  · rintro ⟨j, answer, hij, hcall⟩
    rcases getElem?_concat_eq_some.mp hcall with hold | ⟨rfl, hnew⟩
    · exact Or.inl ⟨j, answer, hij, hold⟩
    · exact Or.inr ⟨hij, answer, hnew⟩
  · rintro (⟨j, answer, hij, hcall⟩ | ⟨hi, answer, hcall⟩)
    · exact ⟨j, answer, hij, getElem?_concat_eq_some.mpr (Or.inl hcall)⟩
    · exact ⟨tr.length, answer, hi, getElem?_concat_eq_some.mpr (Or.inr ⟨rfl, hcall⟩)⟩

variable {handler' key' : ℕ} {pingImg' : Bool} {caller : Caller sz} {answer : HandlerOutput}

theorem registeredAt_concat_prepare :
    RegisteredAt (tr ++ [(.prepare handler' key' pingImg' caller, .prepared (.ok 0))]) i key
        handler pingImg ↔
      RegisteredAt tr i key handler pingImg ∨
        i = tr.length ∧ key = key' ∧ handler = handler' ∧ pingImg = pingImg' := by
  rw [registeredAt_concat]
  simp only [Prod.mk.injEq, HandlerAction.prepare.injEq, and_true, exists_and_left,
    exists_eq', eq_comm]
  tauto

theorem closedSince_concat_prepare :
    ClosedSince (tr ++ [(.prepare handler' key' pingImg' caller, answer)]) i handler ↔
      ClosedSince tr i handler := by
  rw [closedSince_concat]
  simp

theorem owns_concat_prepare :
    Owns (tr ++ [(.prepare handler' key' pingImg' caller, .prepared (.ok 0))]) i key handler
        pingImg ↔
      Owns tr i key handler pingImg ∨
        i = tr.length ∧ key = key' ∧ handler = handler' ∧ pingImg = pingImg' := by
  rw [Owns, Owns, registeredAt_concat_prepare, closedSince_concat_prepare, or_and_right]
  apply or_congr_right
  rw [and_iff_left_iff_imp]
  rintro ⟨rfl, -⟩
  exact Or.inr (not_closedSince_length tr handler)

theorem registeredAt_concat_close :
    RegisteredAt (tr ++ [(.close handler', answer)]) i key handler pingImg ↔
      RegisteredAt tr i key handler pingImg := by
  rw [registeredAt_concat]
  simp

theorem closedSince_concat_close (hreg : RegisteredAt tr i key handler pingImg) :
    ClosedSince (tr ++ [(.close handler', answer)]) i handler ↔
      ClosedSince tr i handler ∨ handler = handler' := by
  rw [closedSince_concat]
  simp [hreg.lt_length, eq_comm]

theorem owns_concat_close :
    Owns (tr ++ [(.close handler', answer)]) i key handler pingImg ↔
      Owns tr i key handler pingImg ∧ ¬ (handler = handler' ∧ pingImg = false) := by
  rw [Owns, Owns, registeredAt_concat_close]
  constructor
  · rintro ⟨hreg, hstays⟩
    rw [closedSince_concat_close hreg] at hstays
    refine ⟨⟨hreg, ?_⟩, ?_⟩ <;> cases pingImg <;> simp_all
  · rintro ⟨⟨hreg, hstays⟩, hnot⟩
    rw [closedSince_concat_close hreg]
    refine ⟨hreg, ?_⟩
    cases pingImg <;> simp_all

end Trace

/-! ## The invariant -/

/-- How the registry and the handlers follow from the calls made. -/
structure Accounts {sz : ℕ} (s : Kernel sz) (tr : Calls sz) : Prop where
  numbered : ∀ h ∈ s.handlers, h < s.nextHandler
  opened : ∀ {i key h p}, RegisteredAt tr i key h p → h < s.nextHandler
  closed : ∀ {i key h p}, RegisteredAt tr i key h p → (ClosedSince tr i h ↔ h ∉ s.handlers)
  holds : ∀ {key h p}, s.holds h = some (key, p) ↔
    ∃ i, RegisteredAt tr i key h p ∧ ¬ ClosedSince tr i h
  registered : ∀ {key}, key ∈ s.node.registered ↔ ∃ i h p, Owns tr i key h p
  unique : ∀ {key i j h h' p p'}, Owns tr i key h p → Owns tr j key h' p' → i = j

section Steps

variable {cow : Bool} {L : Layout} {sz : ℕ} {s s' : Kernel sz} {tr : Calls sz}

theorem accounts_boot (macId : UInt64) (memory : Memory) (memPool : MemPool sz)
    (dcTargets : List DCTargetMeta) :
    Accounts (Kernel.boot macId memory memPool dcTargets) [] := by
  have hnone : ∀ i key h p, ¬ RegisteredAt ([] : Calls sz) i key h p := by
    rintro i key h p ⟨_, hcall⟩
    simp at hcall
  constructor
  case numbered => simp [Kernel.boot]
  case opened => exact fun h => absurd h (hnone _ _ _ _)
  case closed => exact fun h => absurd h (hnone _ _ _ _)
  case holds => simp [Kernel.boot, Kernel.holds, hnone]
  case registered => simp [Kernel.boot, Owns, hnone]
  case unique => exact fun h => absurd h.1 (hnone _ _ _ _)

/-- A call that neither registers nor closes keeps the accounts, if the registry
and what the handlers hold stay the same and new handlers have new numbers. -/
theorem Accounts.quiet (inv : Accounts s tr) {call : HandlerAction sz × HandlerOutput}
    (hprepare : ∀ h key p caller, call ≠ (.prepare h key p caller, .prepared (.ok 0)))
    (hclose : ∀ h answer, call ≠ (.close h, answer))
    (hnext : s.nextHandler ≤ s'.nextHandler)
    (hhandlers : ∀ h < s.nextHandler, h ∈ s'.handlers ↔ h ∈ s.handlers)
    (hnumbered : ∀ h ∈ s'.handlers, h < s'.nextHandler)
    (hholds : ∀ h, s'.holds h = s.holds h) (hnode : s'.node.registered = s.node.registered) :
    Accounts s' (tr ++ [call]) := by
  have hreg : ∀ i key h p, RegisteredAt (tr ++ [call]) i key h p ↔
      RegisteredAt tr i key h p := by
    intro i key h p
    rw [registeredAt_concat, or_iff_left]
    rintro ⟨-, caller, hcall⟩
    exact hprepare _ _ _ _ hcall
  have hclosed : ∀ i h, ClosedSince (tr ++ [call]) i h ↔ ClosedSince tr i h := by
    intro i h
    rw [closedSince_concat, or_iff_left]
    rintro ⟨-, answer, hcall⟩
    exact hclose _ _ hcall
  have howns : ∀ i key h p, Owns (tr ++ [call]) i key h p ↔ Owns tr i key h p := by
    intro i key h p
    rw [Owns, Owns, hreg, hclosed]
  constructor
  case numbered => exact hnumbered
  case opened => exact fun h => (inv.opened ((hreg _ _ _ _).mp h)).trans_le hnext
  case closed =>
    intro i key h p hat
    have hat := (hreg _ _ _ _).mp hat
    rw [hclosed, inv.closed hat, hhandlers h (inv.opened hat)]
  case holds =>
    intro key h p
    simp only [hholds, hreg, hclosed]
    exact inv.holds
  case registered =>
    intro key
    simp only [hnode, howns]
    exact inv.registered
  case unique =>
    intro key i j h h' p p'
    rw [howns, howns]
    exact inv.unique

theorem Accounts.open (inv : Accounts s tr) :
    Accounts ((handlerMachine cow L).step s .open).1
      (tr ++ [(.open, ((handlerMachine cow L).step s .open).2)]) := by
  obtain ⟨hnext, hnode, hhandlers, hholds⟩ := step_open cow L s
  apply inv.quiet
  case hprepare => simp
  case hclose => simp
  case hnext => omega
  case hhandlers =>
    intro h hlt
    rw [hhandlers, or_iff_right hlt.ne]
  case hnumbered =>
    intro h hmem
    rcases (hhandlers h).mp hmem with rfl | hmem
    · omega
    · have := inv.numbered h hmem
      omega
  case hholds =>
    intro h
    rw [hholds]
    by_cases hh : h = s.nextHandler
    · -- no handler has this number yet, so none holds anything under it
      rw [if_pos hh]
      symm
      rw [Option.eq_none_iff_forall_ne_some]
      rintro ⟨key, p⟩ hkey
      obtain ⟨i, hat, -⟩ := inv.holds.mp hkey
      exact absurd (inv.opened hat) (by omega)
    · rw [if_neg hh]
  case hnode => rw [hnode]

theorem Accounts.register (inv : Accounts s tr) {handler key : ℕ} {pingImg : Bool}
    {caller : Caller sz} {bundler : ProcessBundler sz}
    (hnext : s'.nextHandler = s.nextHandler)
    (hhandlers : ∀ h, h ∈ s'.handlers ↔ h ∈ s.handlers) (hopen : handler ∈ s.handlers)
    (hfree : s.holds handler = none)
    (hholds : ∀ h, s'.holds h = if h = handler then some (key, pingImg) else s.holds h)
    (hreg : Registered L s.node s'.node key bundler) :
    Accounts s' (tr ++ [(.prepare handler key pingImg caller, .prepared (.ok 0))]) := by
  have hnobody : ∀ {i h p}, ¬ Owns tr i key h p :=
    fun hown => hreg.free (inv.registered.mpr ⟨_, _, _, hown⟩)
  constructor
  case numbered =>
    intro h hmem
    rw [hnext]
    exact inv.numbered h ((hhandlers h).mp hmem)
  case opened =>
    intro i key' h p hreg'
    rw [hnext]
    rcases registeredAt_concat_prepare.mp hreg' with hold | ⟨-, -, rfl, -⟩
    · exact inv.opened hold
    · exact inv.numbered h hopen
  case closed =>
    intro i key' h p hreg'
    rw [closedSince_concat_prepare, hhandlers]
    rcases registeredAt_concat_prepare.mp hreg' with hold | ⟨rfl, -, rfl, -⟩
    · exact inv.closed hold
    · exact iff_of_false (not_closedSince_length tr h) (not_not.mpr hopen)
  case holds =>
    intro key' h p
    rw [hholds]
    by_cases hh : h = handler
    · subst hh
      rw [if_pos rfl]
      constructor
      · intro heq
        cases heq
        refine ⟨tr.length, registeredAt_concat_prepare.mpr (Or.inr ⟨rfl, rfl, rfl, rfl⟩), ?_⟩
        rw [closedSince_concat_prepare]
        exact not_closedSince_length tr h
      · rintro ⟨i, hreg', hnot⟩
        rw [closedSince_concat_prepare] at hnot
        rcases registeredAt_concat_prepare.mp hreg' with hold | ⟨-, rfl, -, rfl⟩
        · have hheld := inv.holds.mpr ⟨i, hold, hnot⟩
          rw [hfree] at hheld
          cases hheld
        · rfl
    · rw [if_neg hh, inv.holds]
      apply exists_congr
      intro i
      rw [closedSince_concat_prepare, registeredAt_concat_prepare, or_iff_left]
      exact fun hnew => hh hnew.2.2.1
  case registered =>
    intro key'
    rw [hreg.registered, AList.mem_insert, inv.registered]
    simp only [owns_concat_prepare]
    constructor
    · rintro (rfl | ⟨i, h, p, hown⟩)
      · exact ⟨tr.length, handler, pingImg, Or.inr ⟨rfl, rfl, rfl, rfl⟩⟩
      · exact ⟨i, h, p, Or.inl hown⟩
    · rintro ⟨i, h, p, hown | ⟨-, rfl, -⟩⟩
      · exact Or.inr ⟨i, h, p, hown⟩
      · exact Or.inl rfl
  case unique =>
    intro key' i j h h' p p' hown hown'
    rcases owns_concat_prepare.mp hown with hold | ⟨rfl, rfl, -⟩
    · rcases owns_concat_prepare.mp hown' with hold' | ⟨-, rfl, -⟩
      · exact inv.unique hold hold'
      · exact absurd hold hnobody
    · rcases owns_concat_prepare.mp hown' with hold' | ⟨rfl, -⟩
      · exact absurd hold' hnobody
      · rfl

theorem Accounts.prepare (inv : Accounts s tr) (handler key : ℕ) (pingImg : Bool)
    (caller : Caller sz) :
    Accounts ((handlerMachine cow L).step s (.prepare handler key pingImg caller)).1
      (tr ++ [(.prepare handler key pingImg caller,
        ((handlerMachine cow L).step s (.prepare handler key pingImg caller)).2)]) := by
  obtain ⟨hnext, hhandlers, hcases⟩ :=
    step_prepare_cases cow L s handler key pingImg caller
  have hnumbered : ∀ h ∈ ((handlerMachine cow L).step s
      (.prepare handler key pingImg caller)).1.handlers, h < s.nextHandler :=
    fun h hmem => inv.numbered h ((hhandlers h).mp hmem)
  rcases hcases with ⟨hnode, hrefused, hholds⟩ | ⟨hopen, hfree, hdone, ⟨bundler, hreg⟩, hholds⟩
  · apply inv.quiet
    case hprepare =>
      intro h key' p caller' heq
      exact hrefused (Prod.mk.inj heq).2
    case hclose => simp
    case hnext => exact hnext.ge
    case hhandlers => exact fun h _ => hhandlers h
    case hnumbered => simpa only [hnext] using hnumbered
    case hholds => exact hholds
    case hnode => rw [hnode]
  · rw [hdone]
    exact inv.register hnext hhandlers hopen hfree hholds hreg

/-- A close keeps the accounts: what the handler owned and did not pin is gone from
the registry, and nothing else. -/
theorem Accounts.close (inv : Accounts s tr) (handler : ℕ) :
    Accounts ((handlerMachine cow L).step s (.close handler)).1
      (tr ++ [(.close handler, ((handlerMachine cow L).step s (.close handler)).2)]) := by
  obtain ⟨hnext, hhandlers, hholds, hcases⟩ := step_close_cases cow L s handler
  -- a key that is owned by the closed handler without a pin is what it holds
  have hheld : ∀ {i key}, Owns tr i key handler false → s.holds handler = some (key, false) :=
    fun h => inv.holds.mpr ⟨_, h.1, h.2.resolve_left (by simp)⟩
  constructor
  case numbered =>
    intro h hmem
    rw [hnext]
    exact inv.numbered h ((hhandlers h).mp hmem).2
  case opened =>
    intro i key h p hreg
    rw [hnext]
    exact inv.opened (registeredAt_concat_close.mp hreg)
  case closed =>
    intro i key h p hreg
    have hreg := registeredAt_concat_close.mp hreg
    rw [closedSince_concat_close hreg, hhandlers, inv.closed hreg]
    tauto
  case holds =>
    intro key h p
    rw [hholds]
    by_cases hh : h = handler
    · rw [if_pos hh]
      simp only [reduceCtorEq, false_iff]
      rintro ⟨i, hreg, hnot⟩
      exact hnot ((closedSince_concat_close (registeredAt_concat_close.mp hreg)).mpr (Or.inr hh))
    · rw [if_neg hh, inv.holds]
      apply exists_congr
      intro i
      rw [registeredAt_concat_close, and_congr_right_iff]
      intro hreg
      rw [closedSince_concat_close hreg, or_iff_left hh]
  case registered =>
    intro key
    simp only [owns_concat_close]
    rcases hcases with ⟨hnode, hnone, -⟩ | ⟨held, hhas, -, hnode⟩
    · rw [hnode, inv.registered]
      constructor
      · rintro ⟨i, h, p, hown⟩
        refine ⟨i, h, p, hown, ?_⟩
        rintro ⟨rfl, rfl⟩
        exact hnone _ (hheld hown)
      · rintro ⟨i, h, p, hown, -⟩
        exact ⟨i, h, p, hown⟩
    · rw [hnode, Node.unregister, AList.mem_erase, inv.registered]
      obtain ⟨n, hreg, hnot⟩ := inv.holds.mp hhas
      have hmine : Owns tr n held handler false := ⟨hreg, Or.inr hnot⟩
      constructor
      · rintro ⟨hne, i, h, p, hown⟩
        refine ⟨i, h, p, hown, ?_⟩
        rintro ⟨rfl, rfl⟩
        have hsame := hhas.symm.trans (hheld hown)
        exact hne (Prod.mk.inj (Option.some.inj hsame)).1.symm
      · rintro ⟨i, h, p, hown, hother⟩
        refine ⟨?_, i, h, p, hown⟩
        rintro rfl
        obtain rfl := inv.unique hown hmine
        exact hother (hown.1.eq hreg).2
  case unique =>
    intro key i j h h' p p' hown hown'
    exact inv.unique (owns_concat_close.mp hown).1 (owns_concat_close.mp hown').1

theorem accounts_step (s : Kernel sz) (tr : Calls sz) (a : HandlerAction sz)
    (inv : Accounts s tr) :
    Accounts ((handlerMachine cow L).step s a).1
      (tr ++ [(a, ((handlerMachine cow L).step s a).2)]) := by
  cases a with
  | «open» => exact inv.open
  | prepare handler key pingImg caller => exact inv.prepare handler key pingImg caller
  | close handler => exact inv.close handler

/-- Only the close of the open handler that owns a key without a pin takes it out
of the registry. -/
theorem Accounts.removed (inv : Accounts s tr) {a : HandlerAction sz} {key : ℕ}
    (hmem : key ∈ s.node.registered)
    (hgone : key ∉ ((handlerMachine cow L).step s a).1.node.registered) :
    ∃ i handler, a = .close handler ∧ handler ∈ s.handlers ∧ Owns tr i key handler false := by
  cases a with
  | «open» => exact absurd hmem hgone
  | prepare handler key' pingImg caller =>
    obtain ⟨-, -, hcases⟩ := step_prepare_cases cow L s handler key' pingImg caller
    rcases hcases with ⟨hnode, -⟩ | ⟨-, -, -, ⟨bundler, hreg⟩, -⟩
    · rw [hnode] at hgone
      exact absurd hmem hgone
    · rw [hreg.registered, AList.mem_insert] at hgone
      exact absurd (Or.inr hmem) hgone
  | close handler =>
    obtain ⟨-, -, -, hcases⟩ := step_close_cases cow L s handler
    rcases hcases with ⟨hnode, -⟩ | ⟨held, hheld, -, hnode⟩
    · rw [hnode] at hgone
      exact absurd hmem hgone
    · rw [hnode, Node.unregister, AList.mem_erase, not_and, not_imp_not] at hgone
      obtain rfl := hgone hmem
      obtain ⟨i, hreg, hnot⟩ := inv.holds.mp hheld
      refine ⟨i, handler, rfl, ?_, hreg, Or.inr hnot⟩
      rwa [inv.closed hreg, not_not] at hnot

theorem step_prepare_refused {handler key : ℕ} {pingImg : Bool} {caller : Caller sz}
    (h : ((handlerMachine cow L).step s (.prepare handler key pingImg caller)).2 =
      .prepared (.ok (-1))) :
    ((handlerMachine cow L).step s (.prepare handler key pingImg caller)).1.node = s.node := by
  obtain ⟨-, -, hcases⟩ := step_prepare_cases cow L s handler key pingImg caller
  rcases hcases with ⟨hnode, -⟩ | ⟨-, -, hdone, -⟩
  · exact hnode
  · rw [h] at hdone
    cases hdone

end Steps

/-! ## Every run -/

/-- In every run the registered keys are those that a prepare owns, each owned by
one.  A prepare without a pin owns its key exactly as long as its handler is open, a
pinned key stays, a key is removed only by the close of the handler that owns it, and
a refused prepare leaves the registry and the pools as they were. -/
theorem registered_keys_owned (cow : Bool) (L : Layout) {sz : ℕ} (macId : UInt64)
    (memory : Memory) (memPool : MemPool sz) (dcTargets : List DCTargetMeta)
    (as : List (HandlerAction sz)) :
    let M := handlerMachine cow L
    let s := M.run (Kernel.boot macId memory memPool dcTargets) as
    let tr := M.trace (Kernel.boot macId memory memPool dcTargets) as
    (∀ key, key ∈ s.node.registered ↔ ∃ i handler pingImg, Owns tr i key handler pingImg) ∧
    (∀ key i j h h' p p', Owns tr i key h p → Owns tr j key h' p' → i = j) ∧
    (∀ i key handler, RegisteredAt tr i key handler false →
      (Owns tr i key handler false ↔ handler ∈ s.handlers)) ∧
    (∀ i key handler, RegisteredAt tr i key handler true → key ∈ s.node.registered) ∧
    (∀ a key, key ∈ s.node.registered → key ∉ (M.step s a).1.node.registered →
      ∃ i handler, a = .close handler ∧ handler ∈ s.handlers ∧
        Owns tr i key handler false) ∧
    (∀ handler key pingImg caller,
      (M.step s (.prepare handler key pingImg caller)).2 = .prepared (.ok (-1)) →
      (M.step s (.prepare handler key pingImg caller)).1.node = s.node) := by
  intro M s tr
  have inv : Accounts s tr :=
    Machine.trace_induction Accounts (accounts_boot macId memory memPool dcTargets)
      accounts_step as
  refine ⟨fun key => inv.registered, fun key i j h h' p p' => inv.unique, ?_, ?_, ?_, ?_⟩
  · intro i key handler hreg
    rw [Owns, and_iff_right hreg, inv.closed hreg, not_not]
    simp
  · intro i key handler hreg
    exact inv.registered.mpr ⟨i, handler, true, hreg, Or.inl rfl⟩
  · intro a key hmem hgone
    exact inv.removed hmem hgone
  · intro handler key pingImg caller hrefused
    exact step_prepare_refused hrefused

end Mitosis.Syscall
