import Mitosis.Descriptors.RoundTrip
import Mitosis.ShadowProcess.Basic
import Mitosis.Support.KeyedMap

/-!
# The shadow process service

`ShadowProcessService` keeps the prepared processes of a machine by key.  A
process is registered with a serialized copy of its descriptor, in a buffer from
a pool whose buffers all have the size `MAX_KMALLOC_SZ`, and with a DC target
from another pool.  Unregistering drops both; neither goes back to its pool.

The size of the buffers is a parameter.  Where the kernel puts new buffers is an
input of the call that fills the pool.
-/

namespace Mitosis.Shadow

open Support Descriptors OsNetwork RemoteMapping

/-! ## The pools -/

/-- A buffer of `sz` bytes of kernel memory. -/
structure RMemory (sz : ℕ) where
  ptr : ℕ
  inAddressSpace : ptr + sz ≤ 2 ^ 64
deriving DecidableEq

namespace RMemory

variable {sz : ℕ}

def len (_ : RMemory sz) : ℕ := sz

/-- The first `len` bytes. -/
def bytes (b : RMemory sz) (len : ℕ) (h : len ≤ sz) : BytesMut :=
  ⟨b.ptr, len, (Nat.add_le_add_left h _).trans b.inAddressSpace⟩

def getBytesMut (b : RMemory sz) : BytesMut := b.bytes sz le_rfl

/-- An address of the buffer. -/
def Covers (b : RMemory sz) (a : ℕ) : Prop := b.ptr ≤ a ∧ a < b.ptr + sz

/-- Two buffers that share no address. -/
def Apart (b b' : RMemory sz) : Prop := ∀ a, b.Covers a → ¬ b'.Covers a

theorem Apart.symm {b b' : RMemory sz} (h : Apart b b') : Apart b' b :=
  fun a ha' ha => h a ha ha'

end RMemory

/-- The pool of serialization buffers, the next one first. -/
structure MemPool (sz : ℕ) where
  pool : List (RMemory sz)
  capacity : ℕ

namespace MemPool

variable {sz : ℕ}

/-- Push as many buffers as the pool has capacity, where the kernel puts them. -/
def fillUp (p : MemPool sz) (fresh : ℕ → RMemory sz) : MemPool sz :=
  { p with pool := ((List.range p.capacity).map fresh).reverse ++ p.pool }

/-- Get one buffer; an empty pool is filled first. -/
def popOne (p : MemPool sz) (fresh : ℕ → RMemory sz) :
    Outcome (RMemory sz × MemPool sz) :=
  let p := if p.pool.isEmpty then p.fillUp fresh else p
  match p.pool with
  | [] => .error .panicked
  | b :: rest => .ok (b, { p with pool := rest })

end MemPool

/-- A DC target with the metadata of its pool entry. -/
structure DCTargetMeta where
  portNum : UInt8
  gid : UInt64 × UInt64
  lid : UInt16
  rkey : UInt32
  dcKey : UInt64
  dctNum : UInt32
deriving DecidableEq

/-! ## The service -/

structure ProcessBundler (sz : ℕ) where
  process : ShadowProcess
  serializedBuf : RMemory sz
  serializedBufLen : ℕ
  boundDcTargets : List DCTargetMeta

/-- A machine as far as preparing processes goes: its memory, the two pools and
the registered processes. -/
structure Node (sz : ℕ) where
  macId : UInt64
  memory : Memory
  memPool : MemPool sz
  dcTargets : List DCTargetMeta
  registered : AList fun _ : ℕ => ProcessBundler sz

/-- `RDMADescriptor::new_from_dc_target_pool`. -/
def newFromDcTargetPool (macId : UInt64) :
    List DCTargetMeta → Outcome (List DCTargetMeta × DCTargetMeta × RDMADescriptor)
  | [] => .error .panicked
  | target :: rest =>
    .ok (rest, target, ⟨0, target.portNum, target.gid, target.lid, target.rkey,
      target.dcKey, target.dctNum, macId⟩)

namespace Node

variable (L : Layout) {sz : ℕ}

/-- `ProcessBundler::new`: the result of `serialize` is not looked at. -/
def newBundler (s : Node sz) (fresh : ℕ → RMemory sz) (process : ShadowProcess)
    (target : DCTargetMeta) : Outcome (ProcessBundler sz × Memory × MemPool sz) := do
  let len := process.descriptor.serializationBufLen L
  let (buf, memPool) ← s.memPool.popOne fresh
  let written ← process.descriptor.serialize L buf.getBytesMut s.memory
  .ok (⟨process, buf, len, [target]⟩, written.memory, memPool)

/-- Register the calling process, described by `newProcess`, and return the size
of its buffer. -/
def addMyself (newProcess : RDMADescriptor → Outcome ShadowProcess)
    (fresh : ℕ → RMemory sz) (s : Node sz) (key : ℕ) : Outcome (Node sz × Option ℕ) :=
  if key ∈ s.registered then
    -- the key has already been taken
    .ok (s, none)
  else do
    let (dcTargets, target, descriptor) ← newFromDcTargetPool s.macId s.dcTargets
    let process ← newProcess descriptor
    let (bundler, memory, memPool) ← s.newBundler L fresh process target
    .ok (⟨s.macId, memory, memPool, dcTargets, s.registered.insert key bundler⟩,
      some bundler.serializedBuf.len)

def addMyselfCopy (alloc : ℕ → Option ℕ) (space : AddressSpace) (regs : RegDescriptor)
    (fresh : ℕ → RMemory sz) (s : Node sz) (key : ℕ) : Outcome (Node sz × Option ℕ) :=
  addMyself L (newCopy alloc space regs) fresh s key

def addMyselfCow (space : AddressSpace) (regs : RegDescriptor)
    (fresh : ℕ → RMemory sz) (s : Node sz) (key : ℕ) : Outcome (Node sz × Option ℕ) :=
  addMyself L (fun descriptor => .ok (newCow space regs descriptor)) fresh s key

def unregister (s : Node sz) (key : ℕ) : Node sz :=
  { s with registered := s.registered.erase key }

def queryDescriptorBuf (s : Node sz) (key : ℕ) : Option (RMemory sz × ℕ) :=
  (s.registered.lookup key).map fun b => (b.serializedBuf, b.serializedBufLen)

def queryDescriptor (s : Node sz) (key : ℕ) : Option ParentDescriptor :=
  (s.registered.lookup key).map fun b => b.process.descriptor

/-- The buffers that are in the pool or belong to a registered process. -/
def buffers (s : Node sz) : List (RMemory sz) :=
  s.memPool.pool ++ s.registered.entries.map fun e => e.2.serializedBuf

end Node

/-! ## What registering does -/

/-- New buffers are apart from each other and from those in use. -/
structure FreshBuffers {sz : ℕ} (s : Node sz) (fresh : ℕ → RMemory sz) : Prop where
  distinct : ∀ i j, i < s.memPool.capacity → j < s.memPool.capacity → i ≠ j →
    (fresh i).Apart (fresh j)
  unused : ∀ i < s.memPool.capacity, ∀ b ∈ s.buffers, (fresh i).Apart b

/-- A process descriptor has a table for each area. -/
def Describes (newProcess : RDMADescriptor → Outcome ShadowProcess) : Prop :=
  ∀ descriptor process, newProcess descriptor = .ok process →
    process.descriptor.vma.length = process.descriptor.pageTable.length

theorem describes_newCow (space : AddressSpace) (regs : RegDescriptor) :
    Describes fun descriptor => .ok (newCow space regs descriptor) := by
  intro descriptor process h
  cases h
  rw [newCow_tables, List.length_map, List.length_map]

theorem describes_newCopy (alloc : ℕ → Option ℕ) (space : AddressSpace)
    (regs : RegDescriptor) : Describes (newCopy alloc space regs) := by
  intro descriptor process h
  rw [(newCopy_tables h).2, List.length_map, List.length_map]

section Register

variable {L : Layout} {sz : ℕ} {s s' : Node sz} {fresh : ℕ → RMemory sz} {key : ℕ}
  {newProcess : RDMADescriptor → Outcome ShadowProcess}

theorem popOne_eq_ok {p p' : MemPool sz} {buf : RMemory sz}
    (h : p.popOne fresh = .ok (buf, p')) :
    p'.capacity = p.capacity ∧
      (p.pool = buf :: p'.pool ∨
        p.pool = [] ∧ ((List.range p.capacity).map fresh).reverse = buf :: p'.pool) := by
  unfold MemPool.popOne at h
  by_cases hempty : p.pool = []
  · simp only [hempty, List.isEmpty_nil, if_true, MemPool.fillUp, List.append_nil] at h
    split at h
    · cases h
    · next b rest hpool =>
        cases h
        exact ⟨rfl, Or.inr ⟨hempty, hpool⟩⟩
  · have hnot : ¬ p.pool.isEmpty = true := by simpa using hempty
    simp only [if_neg hnot] at h
    split at h
    · cases h
    · next b rest hpool =>
        cases h
        exact ⟨rfl, Or.inl hpool⟩

/-- What was registered: the process with a buffer from the pool, which holds the
serialized descriptor if it fits. -/
structure Registered (L : Layout) (s s' : Node sz) (key : ℕ) (bundler : ProcessBundler sz) :
    Prop where
  free : key ∉ s.registered
  registered : s'.registered = s.registered.insert key bundler
  targets : ∃ target, s.dcTargets = target :: s'.dcTargets ∧ bundler.boundDcTargets = [target]
  length : bundler.serializedBufLen = bundler.process.descriptor.serializationBufLen L
  tables : bundler.process.descriptor.vma.length =
    bundler.process.descriptor.pageTable.length
  capacity : s'.memPool.capacity = s.memPool.capacity
  written : bundler.serializedBufLen ≤ sz →
    s'.memory = writeBytes s.memory bundler.serializedBuf.ptr
      (bundler.process.descriptor.image L)
  outside : ∀ a, ¬ bundler.serializedBuf.Covers a → s'.memory a = s.memory a

theorem serialize_into {d : ParentDescriptor} (hd : d.vma.length = d.pageTable.length)
    (buf : RMemory sz) (m : Memory) :
    ∃ r, d.serialize L buf.getBytesMut m = .ok r ∧
      (d.serializationBufLen L ≤ sz → r.memory = writeBytes m buf.ptr (d.image L)) ∧
      ∀ a, ¬ buf.Covers a → r.memory a = m a := by
  by_cases hlen : d.serializationBufLen L ≤ sz
  · refine ⟨_, ParentDescriptor.serialize_eq hd hlen m, fun _ => rfl, fun a ha => ?_⟩
    apply writeBytes_outside
    have himage := ParentDescriptor.length_image (L := L) hd
    have hptr : buf.getBytesMut.ptr = buf.ptr := rfl
    rw [RMemory.Covers, not_and_or] at ha
    omega
  · have hshort : buf.getBytesMut.len < d.serializationBufLen L := Nat.lt_of_not_le hlen
    refine ⟨⟨m, false, []⟩, ?_, fun h => absurd h hlen, fun _ _ => rfl⟩
    rw [ParentDescriptor.serialize, if_pos hshort]

/-- A call of `add_myself_*` that returns has found the key taken and changed
nothing, or has registered the process. -/
theorem addMyself_cases (hnew : Describes newProcess) {result : Option ℕ}
    (h : s.addMyself L newProcess fresh key = .ok (s', result)) :
    (key ∈ s.registered ∧ s' = s ∧ result = none) ∨
      ∃ bundler, Registered L s s' key bundler ∧ result = some sz ∧
        s.memPool.popOne fresh = .ok (bundler.serializedBuf, s'.memPool) ∧
        ∃ descriptor, newProcess descriptor = .ok bundler.process := by
  unfold Node.addMyself at h
  by_cases htaken : key ∈ s.registered
  · rw [if_pos htaken] at h
    cases h
    exact Or.inl ⟨htaken, rfl, rfl⟩
  rw [if_neg htaken, Outcome.bind_eq_ok] at h
  obtain ⟨⟨dcTargets, target, descriptor⟩, htarget, h⟩ := h
  obtain ⟨process, hprocess, h⟩ := Outcome.bind_eq_ok.mp h
  obtain ⟨⟨bundler, memory, memPool⟩, hbundler, h⟩ := Outcome.bind_eq_ok.mp h
  cases h
  rw [Node.newBundler, Outcome.bind_eq_ok] at hbundler
  obtain ⟨⟨buf, memPool⟩, hpop, hbundler⟩ := hbundler
  obtain ⟨written, hwritten, hbundler⟩ := Outcome.bind_eq_ok.mp hbundler
  cases hbundler
  have htables := hnew descriptor process hprocess
  obtain ⟨r, hr, himage, houtside⟩ := serialize_into (L := L) htables buf s.memory
  rw [hr] at hwritten
  cases hwritten
  refine Or.inr ⟨⟨process, buf, process.descriptor.serializationBufLen L, [target]⟩, ?_, rfl,
    hpop, descriptor, hprocess⟩
  constructor
  case free => exact htaken
  case registered => rfl
  case targets =>
    cases htargets : s.dcTargets with
    | nil =>
      rw [htargets] at htarget
      cases htarget
    | cons first rest =>
      rw [htargets] at htarget
      cases htarget
      exact ⟨target, rfl, rfl⟩
  case length => rfl
  case tables => exact htables
  case capacity => exact (popOne_eq_ok hpop).1
  case written => exact himage
  case outside => exact houtside

theorem addMyself_returns (hnew : Describes newProcess) (hfree : key ∉ s.registered)
    (htargets : s.dcTargets ≠ []) (hdescribed : ∀ descriptor, ∃ process,
      newProcess descriptor = .ok process)
    (hpop : ∃ buf memPool, s.memPool.popOne fresh = .ok (buf, memPool)) :
    ∃ s', s.addMyself L newProcess fresh key = .ok (s', some sz) := by
  obtain ⟨target, rest, htargets⟩ := List.exists_cons_of_ne_nil htargets
  obtain ⟨buf, memPool, hpop⟩ := hpop
  obtain ⟨process, hprocess⟩ := hdescribed ⟨0, target.portNum, target.gid, target.lid,
    target.rkey, target.dcKey, target.dctNum, s.macId⟩
  obtain ⟨r, hr, -⟩ := serialize_into (L := L) (hnew _ _ hprocess) buf s.memory
  rw [Node.addMyself, if_neg hfree, htargets]
  simp only [newFromDcTargetPool, Outcome.ok_bind, hprocess, Node.newBundler, hpop, hr]
  exact ⟨_, rfl⟩

end Register

end Mitosis.Shadow
