import Mitosis.ShadowProcess.Registry
import Mitosis.Syscall.Prepare

/-!
# The pool of DC targets

Each prepared process is bound to a DC target of its own, which is taken from a
pool that is filled once when the module is loaded.  Nothing gives a target back:
unregistering a process drops its target.  So the pool and the registered
processes stay in balance exactly as long as nothing is unregistered, and the
module serves as many prepares in its life as the pool had targets at first.
-/

namespace Mitosis.Syscall

open Support Descriptors Shadow

section Memory

variable {cow : Bool} {L : Layout} {sz : ℕ} {caller : Caller sz} {node : Node sz} {key : ℕ}

/-- The description of the calling process. -/
def newProcess (cow : Bool) (caller : Caller sz) (descriptor : RDMADescriptor) :
    Outcome ShadowProcess :=
  if cow then .ok (newCow caller.space caller.regs descriptor)
  else newCopy caller.alloc caller.space caller.regs descriptor

/-- There is memory for the copy of the process and for its descriptor. -/
def HasMemory (cow : Bool) (caller : Caller sz) (node : Node sz) : Prop :=
  (∃ descriptor process, newProcess cow caller descriptor = .ok process) ∧
    ∃ buf memPool, node.memPool.popOne caller.fresh = .ok (buf, memPool)

theorem describes_newProcess (cow : Bool) (caller : Caller sz) :
    Describes (newProcess cow caller) := by
  cases cow with
  | true => exact describes_newCow _ _
  | false => exact describes_newCopy _ _ _

theorem newProcess_returns {descriptor : RDMADescriptor} {process : ShadowProcess}
    (h : newProcess cow caller descriptor = .ok process) (descriptor' : RDMADescriptor) :
    ∃ process', newProcess cow caller descriptor' = .ok process' := by
  cases cow with
  | true => exact ⟨_, rfl⟩
  | false =>
    obtain ⟨⟨tables, inner⟩, hgenerate, -⟩ := Outcome.bind_eq_ok.mp h
    exact ⟨_, Outcome.bind_eq_ok.mpr ⟨(tables, inner), hgenerate, rfl⟩⟩

theorem addMyself_eq (cow : Bool) (L : Layout) (caller : Caller sz) (node : Node sz) (key : ℕ) :
    addMyself cow L caller node key =
      node.addMyself L (newProcess cow caller) caller.fresh key := by
  cases cow <;> rfl

theorem addMyself_returns_iff (hkey : key ∉ node.registered) :
    (∃ r, addMyself cow L caller node key = .ok r) ↔
      node.dcTargets ≠ [] ∧ HasMemory cow caller node := by
  rw [addMyself_eq]
  have hnew := describes_newProcess cow caller
  constructor
  · rintro ⟨⟨node', result⟩, hadd⟩
    rcases Shadow.addMyself_cases hnew hadd with ⟨hmem, -⟩ | ⟨b, hreg, -, hpop, d, hprocess⟩
    · exact absurd hmem hkey
    · obtain ⟨target, htargets, -⟩ := hreg.targets
      exact ⟨by simp [htargets], ⟨d, _, hprocess⟩, _, _, hpop⟩
  · rintro ⟨htargets, ⟨d, process, hprocess⟩, hpop⟩
    obtain ⟨node', hadd⟩ := addMyself_returns (L := L) hnew hkey htargets
      (newProcess_returns hprocess) hpop
    exact ⟨_, hadd⟩

end Memory

/-! ## One call -/

section Step

variable {cow : Bool} {L : Layout} {sz : ℕ} {s : Kernel sz} {handler key : ℕ} {pingImg : Bool}
  {caller : Caller sz}

/-- The prepare would register one more process. -/
def Registering (s : Kernel sz) (handler key : ℕ) : Prop :=
  handler ∈ s.handlers ∧ s.holds handler = none ∧ key ∉ s.node.registered

/-- A call that panics. -/
def Panics (cow : Bool) (L : Layout) (s : Kernel sz) (a : HandlerAction sz) : Prop :=
  ∃ stop, ((handlerMachine cow L).step s a).2 = .prepared (.error stop)

theorem not_panics_of_not_registering (h : ¬ Registering s handler key) :
    ¬ Panics cow L s (.prepare handler key pingImg caller) := by
  rintro ⟨stop, hpanic⟩
  dsimp only [handlerMachine] at hpanic
  cases hdata : s.handlers.lookup handler with
  | none => simp [hdata] at hpanic
  | some data =>
    simp only [hdata] at hpanic
    by_cases hprepared : data.preparedKey.isSome = true
    · simp [syscallPrepare, hprepared] at hpanic
    · have hnone : data.preparedKey = none := by simpa using hprepared
      have hheld : s.holds handler = none := by
        rw [holds_of_lookup hdata, CallerData.held, hnone]
        rfl
      have hmem : key ∈ s.node.registered := by
        by_contra hkey
        exact h ⟨mem_of_lookup hdata, hheld, hkey⟩
      have hadd : addMyself cow L caller s.node key = .ok (s.node, none) := by
        rw [addMyself_eq, Node.addMyself, if_pos hmem]
      simp [syscallPrepare, hnone, hadd] at hpanic

/-- A prepare that has something to register panics unless there is a DC target and
memory. -/
theorem not_panics_iff (h : Registering s handler key) :
    ¬ Panics cow L s (.prepare handler key pingImg caller) ↔
      s.node.dcTargets ≠ [] ∧ HasMemory cow caller s.node := by
  obtain ⟨hopen, hfree, hkey⟩ := h
  rw [← addMyself_returns_iff (L := L) hkey]
  obtain ⟨data, hdata⟩ := Option.isSome_iff_exists.mp (AList.lookup_isSome.mpr hopen)
  have hnone : data.preparedKey = none := by
    rw [holds_of_lookup hdata, CallerData.held, Option.map_eq_none_iff] at hfree
    exact hfree
  dsimp only [Panics, handlerMachine]
  simp only [hdata, syscallPrepare, hnone, Option.isSome_none, Bool.false_eq_true, if_false]
  cases hadd : addMyself cow L caller s.node key with
  | error stop => simp
  | ok r =>
    obtain ⟨node', result⟩ := r
    cases result <;> simp

end Step

/-! ## Every run -/

section Runs

variable {cow : Bool} {L : Layout} {sz N : ℕ} {s : Kernel sz}

/-- The targets in the pool and the registered processes. -/
def bound (node : Node sz) : ℕ := node.dcTargets.length + node.registered.keys.length

/-- At most `N` processes are registered after the call, should it succeed. -/
def AtMost (N : ℕ) (s : Kernel sz) : HandlerAction sz → Prop
  | .prepare handler key _ _ =>
    Registering s handler key → s.node.registered.keys.length < N
  | _ => True

/-- The call does not panic, and afterwards every target is in the pool or with a
registered process. -/
def Balanced (cow : Bool) (L : Layout) (N : ℕ) (s : Kernel sz) (a : HandlerAction sz) : Prop :=
  ¬ Panics cow L s a ∧ bound ((handlerMachine cow L).step s a).1.node = N

/-- There is memory for every process that is to be registered, and a handler that
holds an image which is not pinned is not closed. -/
def NothingReleased (cow : Bool) (s : Kernel sz) : HandlerAction sz → Prop
  | .open => True
  | .prepare handler key _ caller => Registering s handler key → HasMemory cow caller s.node
  | .close handler => ∀ key, s.holds handler ≠ some (key, false)

theorem bound_of_registered {node node' : Node sz} {key : ℕ} {bundler : ProcessBundler sz}
    (h : Registered L node node' key bundler) : bound node' = bound node := by
  obtain ⟨target, htargets, -⟩ := h.targets
  have hfree : key ∉ node.registered.keys := h.free
  rw [bound, bound, h.registered, AList.keys_insert, List.erase_of_not_mem hfree,
    htargets]
  simp only [List.length_cons]
  omega

theorem bound_unregister {node : Node sz} {key : ℕ} (h : key ∈ node.registered) :
    bound (node.unregister key) + 1 = bound node := by
  have hmem : key ∈ node.registered.keys := h
  have hpos := List.length_pos_of_mem hmem
  simp only [bound, Node.unregister, AList.keys_erase, List.length_erase_of_mem hmem]
  omega

/-- What a run keeps: the balance, and that a held key is registered. -/
structure Kept (N : ℕ) (s : Kernel sz) : Prop where
  balance : bound s.node = N
  held : ∀ h key p, s.holds h = some (key, p) → key ∈ s.node.registered

theorem Kept.balanced_iff (inv : Kept N s) {a : HandlerAction sz} (ha : AtMost N s a) :
    Balanced cow L N s a ↔ NothingReleased cow s a := by
  cases a with
  | «open» =>
    refine iff_of_true ⟨?_, inv.balance⟩ trivial
    rintro ⟨stop, hstop⟩
    cases hstop
  | prepare handler key pingImg caller =>
    obtain ⟨-, -, hcases⟩ := step_prepare_cases cow L s handler key pingImg caller
    have hbound : bound ((handlerMachine cow L).step s
        (.prepare handler key pingImg caller)).1.node = N := by
      rcases hcases with ⟨hnode, -⟩ | ⟨-, -, -, ⟨bundler, hreg⟩, -⟩
      · rw [hnode, inv.balance]
      · rw [bound_of_registered hreg, inv.balance]
    rw [Balanced, and_iff_left hbound, NothingReleased]
    by_cases hregistering : Registering s handler key
    · have htargets : s.node.dcTargets ≠ [] := by
        intro hnil
        have hlt := ha hregistering
        have hbalance := inv.balance
        rw [bound, hnil, List.length_nil] at hbalance
        omega
      rw [not_panics_iff hregistering]
      exact ⟨fun h _ => h.2, fun h => ⟨htargets, h hregistering⟩⟩
    · exact iff_of_true (not_panics_of_not_registering hregistering)
        fun h => absurd h hregistering
  | close handler =>
    obtain ⟨-, -, -, hcases⟩ := step_close_cases cow L s handler
    have hreturns : ¬ Panics cow L s (.close handler) := by
      rintro ⟨stop, hstop⟩
      dsimp only [handlerMachine] at hstop
      split at hstop <;> cases hstop
    rw [Balanced, and_iff_right hreturns, NothingReleased]
    rcases hcases with ⟨hnode, hnone, -⟩ | ⟨key, hheld, -, hnode⟩
    · rw [hnode]
      exact iff_of_true inv.balance hnone
    · refine iff_of_false ?_ (fun h => h key hheld)
      have hless := bound_unregister (inv.held handler key false hheld)
      rw [hnode, ← inv.balance]
      omega

theorem Kept.step (inv : Kept N s) {a : HandlerAction sz} (ha : NothingReleased cow s a) :
    Kept N ((handlerMachine cow L).step s a).1 := by
  cases a with
  | «open» =>
    obtain ⟨-, hnode, -, hholds⟩ := step_open cow L s
    refine ⟨inv.balance, fun h key p hheld => ?_⟩
    rw [hholds] at hheld
    split at hheld
    · cases hheld
    · exact inv.held h key p hheld
  | prepare handler key pingImg caller =>
    obtain ⟨-, -, hcases⟩ := step_prepare_cases cow L s handler key pingImg caller
    rcases hcases with ⟨hnode, -, hholds⟩ | ⟨-, -, -, ⟨bundler, hreg⟩, hholds⟩
    · refine ⟨hnode ▸ inv.balance, fun h key' p hheld => ?_⟩
      rw [hholds] at hheld
      rw [hnode]
      exact inv.held h key' p hheld
    · refine ⟨(bound_of_registered hreg).trans inv.balance, fun h key' p hheld => ?_⟩
      rw [hholds] at hheld
      rw [hreg.registered, AList.mem_insert]
      split at hheld
      · cases hheld
        exact Or.inl rfl
      · exact Or.inr (inv.held h key' p hheld)
  | close handler =>
    obtain ⟨-, -, hholds, hcases⟩ := step_close_cases cow L s handler
    rcases hcases with ⟨hnode, -⟩ | ⟨key, hheld, -⟩
    · refine ⟨hnode ▸ inv.balance, fun h key p hheld => ?_⟩
      rw [hholds] at hheld
      rw [hnode]
      split at hheld
      · cases hheld
      · exact inv.held h key p hheld
    · exact absurd hheld (ha key)

end Runs

/-- In every run that never asks for more processes than the pool had targets at
first, no call panics and the balance stays exactly if there is memory for every
process and no registered process is released. -/
theorem targets_balanced_iff (cow : Bool) (L : Layout) {sz : ℕ} (macId : UInt64)
    (memory : Memory) (memPool : MemPool sz) (dcTargets : List DCTargetMeta)
    {as : List (HandlerAction sz)}
    (has : (handlerMachine cow L).Always (AtMost dcTargets.length)
      (Kernel.boot macId memory memPool dcTargets) as) :
    (handlerMachine cow L).Always (Balanced cow L dcTargets.length)
        (Kernel.boot macId memory memPool dcTargets) as ↔
      (handlerMachine cow L).Always (NothingReleased cow)
        (Kernel.boot macId memory memPool dcTargets) as := by
  have hboot : Kept dcTargets.length (Kernel.boot macId memory memPool dcTargets) := by
    constructor
    case balance => simp [bound, Kernel.boot]
    case held => simp [Kernel.holds, Kernel.boot]
  exact Machine.always_iff_of_invariant (Kept dcTargets.length)
    (fun s a inv ha => inv.balanced_iff ha) (fun s a inv _ ha => inv.step ha) hboot has

def emptyCaller : Caller 4096 where
  alloc := fun _ => none
  space := .empty
  regs := default
  fresh := fun _ => ⟨0x20000, by decide⟩

def oneTarget : Kernel 4096 :=
  .boot 1 (fun _ => 0) ⟨[Shadow.pageBuffer], 1⟩ [⟨1, (2, 3), 4, 5, 73, 6⟩]

/-- A pinned image may be closed. -/
theorem targets_balanced_pinned :
    (handlerMachine false Layout.packed).Always (Balanced false Layout.packed 1) oneTarget
      [.open, .prepare 0 7 true emptyCaller, .close 0] := by
  have has : (handlerMachine false Layout.packed).Always (AtMost 1) oneTarget
      [.open, .prepare 0 7 true emptyCaller, .close 0] :=
    ⟨trivial, fun _ => by decide, trivial, trivial⟩
  have hheld : ((handlerMachine false Layout.packed).run oneTarget
      [.open, .prepare 0 7 true emptyCaller]).holds 0 = some (7, true) := by
    decide +kernel
  have hnothing : (handlerMachine false Layout.packed).Always (NothingReleased false) oneTarget
      [.open, .prepare 0 7 true emptyCaller, .close 0] := by
    refine ⟨trivial, fun _ => ⟨⟨default, _, rfl⟩, _, _, rfl⟩, fun key hkey => ?_, trivial⟩
    cases hheld.symm.trans hkey
  exact (targets_balanced_iff false Layout.packed 1 (fun _ => 0) _ _ has).mpr hnothing

/-- The second of two processes that are prepared one after the other finds the pool
empty, although none is registered any more. -/
theorem second_prepare_panics :
    let as : List (HandlerAction 4096) := [.open, .prepare 0 1 false emptyCaller, .close 0,
      .open, .prepare 1 2 false emptyCaller]
    let M := handlerMachine false Layout.packed
    M.Always (AtMost 1) oneTarget as ∧
      M.outputs oneTarget as = [.opened 0, .prepared (.ok 0), .closed (some 1), .opened 1,
        .prepared (.error .panicked)] ∧
      (M.run oneTarget as).node.dcTargets.length +
        (M.run oneTarget as).node.registered.keys.length = 0 := by
  refine ⟨⟨trivial, fun _ => ?_, trivial, trivial, fun _ => ?_, trivial⟩, ?_, ?_⟩
  · decide
  · decide +kernel
  · decide +kernel
  · decide +kernel

end Mitosis.Syscall
