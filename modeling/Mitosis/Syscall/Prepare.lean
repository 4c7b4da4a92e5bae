import Mitosis.ShadowProcess.Service
import Mitosis.Support.Machine

/-!
# Preparing and closing

Each open of the device has a `MitosisSysCallHandler`.  `Prepare` and
`PreparePing` register the calling process under a key; closing the device drops
the handler, which unregisters the key again unless the image was pinned.  The
key and the pin are data of the handler, the registry is shared by all of them.

A handler is known by a number, and no number is used twice.
-/

namespace Mitosis.Syscall

open Support Descriptors Shadow

/-- What a handler remembers of its own prepare. -/
structure CallerData where
  pingImg : Bool
  preparedKey : Option ℕ
deriving DecidableEq, Repr

/-- The process that calls prepare, and where the kernel puts new buffers. -/
structure Caller (sz : ℕ) where
  alloc : ℕ → Option ℕ
  space : AddressSpace
  regs : RegDescriptor
  fresh : ℕ → RMemory sz

/-- The registry with its pools, and the open handlers. -/
structure Kernel (sz : ℕ) where
  node : Node sz
  handlers : AList fun _ : ℕ => CallerData
  nextHandler : ℕ

/-- After the module was loaded. -/
def Kernel.boot {sz : ℕ} (macId : UInt64) (memory : Memory) (memPool : MemPool sz)
    (dcTargets : List DCTargetMeta) : Kernel sz where
  node := ⟨macId, memory, memPool, dcTargets, ∅⟩
  handlers := ∅
  nextHandler := 0

section Calls

variable (cow : Bool) (L : Layout) {sz : ℕ}

/-- `add_myself_cow` with the `cow` feature, `add_myself_copy` otherwise. -/
def addMyself (caller : Caller sz) (node : Node sz) (key : ℕ) :
    Outcome (Node sz × Option ℕ) :=
  if cow then node.addMyselfCow L caller.space caller.regs caller.fresh key
  else node.addMyselfCopy L caller.alloc caller.space caller.regs caller.fresh key

def syscallPrepare (caller : Caller sz) (node : Node sz) (data : CallerData) (key : ℕ)
    (pingImg : Bool) : Outcome (Node sz × CallerData × ℤ) :=
  if data.preparedKey.isSome then .ok (node, data, -1)
  else do
    let data := { data with pingImg := pingImg }
    let (node, res) ← addMyself cow L caller node key
    match res with
    | none => .ok (node, data, -1)
    | some _ => .ok (node, { data with preparedKey := some key }, 0)

/-- The key that dropping a handler unregisters. -/
def CallerData.unregisters (data : CallerData) : Option ℕ :=
  if data.pingImg then none else data.preparedKey

/-- `MitosisSysCallHandler::drop`, as far as the registry goes. -/
def drop (node : Node sz) (data : CallerData) : Node sz :=
  match data.unregisters with
  | none => node
  | some key => node.unregister key

end Calls

inductive HandlerAction (sz : ℕ) where
  | open
  | prepare (handler key : ℕ) (pingImg : Bool) (caller : Caller sz)
  | close (handler : ℕ)

/-- What a call answers; a close also logs the key it unregisters. -/
inductive HandlerOutput where
  | opened (handler : ℕ)
  | prepared (result : Outcome ℤ)
  | closed (unregistered : Option ℕ)
  | badHandler
deriving DecidableEq

def handlerMachine (cow : Bool) (L : Layout) {sz : ℕ} :
    Machine (Kernel sz) (HandlerAction sz) HandlerOutput where
  step s
    | .open =>
      (⟨s.node, s.handlers.insert s.nextHandler ⟨false, none⟩, s.nextHandler + 1⟩,
        .opened s.nextHandler)
    | .prepare handler key pingImg caller =>
      match s.handlers.lookup handler with
      | none => (s, .badHandler)
      | some data =>
        match syscallPrepare cow L caller s.node data key pingImg with
        | .ok (node, data, code) =>
          (⟨node, s.handlers.insert handler data, s.nextHandler⟩, .prepared (.ok code))
        | .error stop => (s, .prepared (.error stop))
    | .close handler =>
      match s.handlers.lookup handler with
      | none => (s, .badHandler)
      | some data =>
        (⟨drop s.node data, s.handlers.erase handler, s.nextHandler⟩,
          .closed data.unregisters)

/-! ## What a call can do -/

section Cases

variable {cow : Bool} {L : Layout} {sz : ℕ} {s : Kernel sz}

theorem addMyself_cases {caller : Caller sz} {node node' : Node sz} {key : ℕ}
    {result : Option ℕ} (h : addMyself cow L caller node key = .ok (node', result)) :
    (key ∈ node.registered ∧ node' = node ∧ result = none) ∨
      ∃ bundler, Registered L node node' key bundler ∧ result = some sz ∧
        node.memPool.popOne caller.fresh = .ok (bundler.serializedBuf, node'.memPool) := by
  cases cow with
  | true =>
    rcases Shadow.addMyself_cases (describes_newCow _ _) h with hnone | ⟨b, hb, hres, hpop, -⟩
    · exact Or.inl hnone
    · exact Or.inr ⟨b, hb, hres, hpop⟩
  | false =>
    rcases Shadow.addMyself_cases (describes_newCopy _ _ _) h with
      hnone | ⟨b, hb, hres, hpop, -⟩
    · exact Or.inl hnone
    · exact Or.inr ⟨b, hb, hres, hpop⟩

/-- What a handler has registered, and whether it was pinned. -/
def CallerData.held (data : CallerData) : Option (ℕ × Bool) :=
  data.preparedKey.map fun key => (key, data.pingImg)

/-- What the handler with a number has registered. -/
def Kernel.holds (s : Kernel sz) (handler : ℕ) : Option (ℕ × Bool) :=
  (s.handlers.lookup handler).bind CallerData.held

/-- A prepare that returns was refused and changed nothing but the pin of a
handler that holds no key, or has registered the key for a handler without one. -/
theorem syscallPrepare_cases {caller : Caller sz} {node node' : Node sz}
    {data data' : CallerData} {key : ℕ} {pingImg : Bool} {code : ℤ}
    (h : syscallPrepare cow L caller node data key pingImg = .ok (node', data', code)) :
    (node' = node ∧ data'.held = data.held ∧ code = -1) ∨
      (data.held = none ∧ data'.held = some (key, pingImg) ∧ code = 0 ∧
        ∃ bundler, Registered L node node' key bundler) := by
  unfold syscallPrepare at h
  by_cases hprepared : data.preparedKey.isSome = true
  · rw [if_pos hprepared] at h
    cases h
    exact Or.inl ⟨rfl, rfl, rfl⟩
  rw [if_neg hprepared, Outcome.bind_eq_ok] at h
  have hnone : data.preparedKey = none := by simpa using hprepared
  have hheld : data.held = none := by rw [CallerData.held, hnone]; rfl
  obtain ⟨⟨added, result⟩, hadd, h⟩ := h
  rcases addMyself_cases hadd with ⟨-, rfl, rfl⟩ | ⟨bundler, hreg, rfl, -⟩
  · cases h
    refine Or.inl ⟨rfl, ?_, rfl⟩
    rw [hheld, CallerData.held, hnone]
    rfl
  · cases h
    exact Or.inr ⟨hheld, rfl, rfl, bundler, hreg⟩

theorem drop_cases (node : Node sz) (data : CallerData) :
    ((∀ key, data.held ≠ some (key, false)) ∧ data.unregisters = none ∧
        drop node data = node) ∨
      ∃ key, data.held = some (key, false) ∧ data.unregisters = some key ∧
        drop node data = node.unregister key := by
  obtain ⟨pingImg, preparedKey⟩ := data
  cases preparedKey with
  | none => cases pingImg <;> exact Or.inl ⟨by simp [CallerData.held], rfl, rfl⟩
  | some key =>
    cases pingImg with
    | true => exact Or.inl ⟨by simp [CallerData.held], rfl, rfl⟩
    | false => exact Or.inr ⟨key, rfl, rfl, rfl⟩

theorem holds_insert {node : Node sz} {n handler : ℕ} {data : CallerData} (h : ℕ) :
    (⟨node, s.handlers.insert handler data, n⟩ : Kernel sz).holds h =
      if h = handler then data.held else s.holds h := by
  unfold Kernel.holds
  rw [lookup_insert_eq]
  by_cases hh : h = handler
  · rw [if_pos hh, if_pos hh]
    rfl
  · rw [if_neg hh, if_neg hh]

theorem holds_of_lookup {handler : ℕ} {data : CallerData}
    (h : s.handlers.lookup handler = some data) : s.holds handler = data.held := by
  rw [Kernel.holds, h]
  rfl

variable (cow L s)

theorem step_open :
    let r := (handlerMachine cow L).step s .open
    r.1.nextHandler = s.nextHandler + 1 ∧ r.1.node = s.node ∧
      (∀ h, h ∈ r.1.handlers ↔ h = s.nextHandler ∨ h ∈ s.handlers) ∧
      ∀ h, r.1.holds h = if h = s.nextHandler then none else s.holds h :=
  ⟨rfl, rfl, fun _ => AList.mem_insert _, fun h => holds_insert h⟩

/-- A prepare is refused or panics and changes neither the registry nor what a
handler holds, or it registers the key for an open handler that held none. -/
theorem step_prepare_cases (handler key : ℕ) (pingImg : Bool) (caller : Caller sz) :
    let r := (handlerMachine cow L).step s (.prepare handler key pingImg caller)
    r.1.nextHandler = s.nextHandler ∧
    (∀ h, h ∈ r.1.handlers ↔ h ∈ s.handlers) ∧
    ((r.1.node = s.node ∧ r.2 ≠ .prepared (.ok 0) ∧ ∀ h, r.1.holds h = s.holds h) ∨
      (handler ∈ s.handlers ∧ s.holds handler = none ∧ r.2 = .prepared (.ok 0) ∧
        (∃ bundler, Registered L s.node r.1.node key bundler) ∧
        ∀ h, r.1.holds h = if h = handler then some (key, pingImg) else s.holds h)) := by
  dsimp only [handlerMachine]
  cases hdata : s.handlers.lookup handler with
  | none => exact ⟨rfl, fun _ => Iff.rfl, Or.inl ⟨rfl, by simp, fun _ => rfl⟩⟩
  | some data =>
    dsimp only
    cases hcall : syscallPrepare cow L caller s.node data key pingImg with
    | error stop => exact ⟨rfl, fun _ => Iff.rfl, Or.inl ⟨rfl, by simp, fun _ => rfl⟩⟩
    | ok r =>
      obtain ⟨node', data', code⟩ := r
      have hopen := mem_of_lookup hdata
      refine ⟨rfl, mem_insert_of_mem hopen data', ?_⟩
      rcases syscallPrepare_cases hcall with ⟨rfl, hheld, rfl⟩ | ⟨hfree, hheld, rfl, hreg⟩
      · refine Or.inl ⟨rfl, by simp, fun h => (holds_insert h).trans ?_⟩
        by_cases hh : h = handler
        · rw [if_pos hh, hh, hheld, holds_of_lookup hdata]
        · rw [if_neg hh]
      · refine Or.inr ⟨hopen, (holds_of_lookup hdata).trans hfree, rfl, hreg, fun h => ?_⟩
        rw [← hheld]
        exact holds_insert h

theorem step_close_cases (handler : ℕ) :
    let r := (handlerMachine cow L).step s (.close handler)
    r.1.nextHandler = s.nextHandler ∧
    (∀ h, h ∈ r.1.handlers ↔ h ≠ handler ∧ h ∈ s.handlers) ∧
    (∀ h, r.1.holds h = if h = handler then none else s.holds h) ∧
    ((r.1.node = s.node ∧ (∀ key, s.holds handler ≠ some (key, false)) ∧
        ∀ key, r.2 ≠ .closed (some key)) ∨
      ∃ key, s.holds handler = some (key, false) ∧ r.2 = .closed (some key) ∧
        r.1.node = s.node.unregister key) := by
  dsimp only [handlerMachine]
  cases hdata : s.handlers.lookup handler with
  | none =>
    have hclosed : handler ∉ s.handlers := AList.lookup_eq_none.mp hdata
    have hfree : s.holds handler = none := by rw [Kernel.holds, hdata]; rfl
    refine ⟨rfl, fun h => ?_, fun h => ?_, Or.inl ⟨rfl, by simp [hfree], by simp⟩⟩
    · exact ⟨fun hh => ⟨fun heq => hclosed (heq ▸ hh), hh⟩, And.right⟩
    · by_cases hh : h = handler
      · rw [if_pos hh, hh, hfree]
      · rw [if_neg hh]
  | some data =>
    dsimp only
    refine ⟨rfl, fun h => AList.mem_erase, fun h => ?_, ?_⟩
    · unfold Kernel.holds
      rw [lookup_erase_eq]
      by_cases hh : h = handler
      · rw [if_pos hh, if_pos hh]
        rfl
      · rw [if_neg hh, if_neg hh]
    · rw [holds_of_lookup hdata]
      rcases drop_cases s.node data with ⟨hheld, hnone, hnode⟩ | ⟨key, hheld, hkey, hnode⟩
      · exact Or.inl ⟨hnode, hheld, by simp [hnone]⟩
      · exact Or.inr ⟨key, hheld, congrArg _ hkey, hnode⟩

end Cases

end Mitosis.Syscall
