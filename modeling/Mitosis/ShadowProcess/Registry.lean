import Mitosis.ShadowProcess.Service
import Mitosis.Support.Machine

/-!
# The advertised buffer of a registered process

Another machine reads `serialized_buf_len` bytes from the buffer of a registered
process.  The service registers a process whether or not its descriptor fits the
buffer.  The machine below runs the calls of the service, and lets everybody
else write to memory outside the buffers.
-/

namespace Mitosis.Shadow

open Support Descriptors OsNetwork RemoteMapping

inductive ServiceAction (sz : ℕ) where
  | addMyselfCopy (key : ℕ) (alloc : ℕ → Option ℕ) (space : AddressSpace)
      (regs : RegDescriptor) (fresh : ℕ → RMemory sz)
  | addMyselfCow (key : ℕ) (space : AddressSpace) (regs : RegDescriptor)
      (fresh : ℕ → RMemory sz)
  | unregister (key : ℕ)
  | write (memory : Memory)

section Machine

variable (L : Layout) {sz : ℕ}

/-- The state after a call: a call that panics does not return. -/
def Node.after (s : Node sz) :
    Outcome (Node sz × Option ℕ) → Node sz × Outcome (Option ℕ)
  | .ok (s', result) => (s', .ok result)
  | .error stop => (s, .error stop)

def serviceMachine : Machine (Node sz) (ServiceAction sz) (Outcome (Option ℕ)) where
  step s
    | .addMyselfCopy key alloc space regs fresh =>
      s.after (s.addMyselfCopy L alloc space regs fresh key)
    | .addMyselfCow key space regs fresh => s.after (s.addMyselfCow L space regs fresh key)
    | .unregister key => (s.unregister key, .ok none)
    | .write memory => ({ s with memory := memory }, .ok none)

/-- The kernel allocates buffers from free memory, and nobody else writes to a
buffer. -/
def Respects (s : Node sz) : ServiceAction sz → Prop
  | .addMyselfCopy _ _ _ _ fresh => FreshBuffers s fresh
  | .addMyselfCow _ _ _ fresh => FreshBuffers s fresh
  | .unregister _ => True
  | .write memory => ∀ b ∈ s.buffers, ∀ a, b.Covers a → memory a = s.memory a

end Machine

/-- Buffers do not overlap, and the buffer of a registered process holds its
descriptor if that fits. -/
structure Sound (L : Layout) {sz : ℕ} (s : Node sz) : Prop where
  apart : s.buffers.Pairwise RMemory.Apart
  length : ∀ key b, s.registered.lookup key = some b →
    b.serializedBufLen = b.process.descriptor.serializationBufLen L
  tables : ∀ key b, s.registered.lookup key = some b →
    b.process.descriptor.vma.length = b.process.descriptor.pageTable.length
  holds : ∀ key b, s.registered.lookup key = some b → b.serializedBufLen ≤ sz →
    Holds s.memory b.serializedBuf.ptr (b.process.descriptor.image L)

section Steps

variable {L : Layout} {sz : ℕ} {s s' : Node sz} {fresh : ℕ → RMemory sz} {key : ℕ}
  {bundler : ProcessBundler sz}

theorem mem_buffers_of_lookup (h : s.registered.lookup key = some bundler) :
    bundler.serializedBuf ∈ s.registered.entries.map fun e => e.2.serializedBuf :=
  List.mem_map.mpr ⟨⟨key, bundler⟩, AList.mem_lookup_iff.mp h, rfl⟩

theorem Sound.holds_of_unchanged (hs : Sound L s) {m : Memory}
    (hb : s.registered.lookup key = some bundler) (hfits : bundler.serializedBufLen ≤ sz)
    (hm : ∀ a, bundler.serializedBuf.Covers a → m a = s.memory a) :
    Holds m bundler.serializedBuf.ptr (bundler.process.descriptor.image L) := by
  have hholds := hs.holds key bundler hb hfits
  have himage := ParentDescriptor.length_image (L := L) (hs.tables key bundler hb)
  rw [hs.length key bundler hb] at hfits
  refine (readBytes_congr fun a hle hlt => hm a ⟨hle, ?_⟩).trans hholds
  omega

theorem apart_popOne {buf : RMemory sz} {memPool : MemPool sz}
    (hpop : s.memPool.popOne fresh = .ok (buf, memPool)) (hfresh : FreshBuffers s fresh)
    (hs : s.buffers.Pairwise RMemory.Apart) :
    (buf :: (memPool.pool ++
      s.registered.entries.map fun e => e.2.serializedBuf)).Pairwise RMemory.Apart := by
  obtain ⟨-, hpool | ⟨hempty, hfilled⟩⟩ := popOne_eq_ok hpop
  · rwa [Node.buffers, hpool, List.cons_append] at hs
  · rw [Node.buffers, hempty, List.nil_append] at hs
    rw [← List.cons_append, ← hfilled, List.pairwise_append]
    refine ⟨?_, hs, ?_⟩
    · rw [List.pairwise_reverse, List.pairwise_map]
      refine List.pairwise_lt_range.imp_of_mem fun {i j} hi hj hlt => ?_
      exact hfresh.distinct j i (List.mem_range.mp hj) (List.mem_range.mp hi) hlt.ne'
    · intro b hb b' hb'
      obtain ⟨i, hi, rfl⟩ := List.mem_map.mp (List.mem_reverse.mp hb)
      exact hfresh.unused i (List.mem_range.mp hi) b' (List.mem_append_right _ hb')

theorem Registered.sound (h : Registered L s s' key bundler)
    (hpop : s.memPool.popOne fresh = .ok (bundler.serializedBuf, s'.memPool))
    (hfresh : FreshBuffers s fresh) (hs : Sound L s) : Sound L s' := by
  have hbuffers := apart_popOne hpop hfresh hs.apart
  have hlookup : ∀ k b, s'.registered.lookup k = some b →
      (k = key ∧ b = bundler) ∨ s.registered.lookup k = some b := by
    intro k b hb
    rw [h.registered] at hb
    exact (lookup_insert_cases hb).imp_left (And.imp_right Eq.symm)
  constructor
  case apart =>
    rw [Node.buffers, h.registered, AList.entries_insert_of_notMem h.free, List.map_cons]
    exact (List.perm_middle.pairwise_iff RMemory.Apart.symm).mpr hbuffers
  case length =>
    intro k b hb
    obtain ⟨-, rfl⟩ | hb := hlookup k b hb
    · exact h.length
    · exact hs.length k b hb
  case tables =>
    intro k b hb
    obtain ⟨-, rfl⟩ | hb := hlookup k b hb
    · exact h.tables
    · exact hs.tables k b hb
  case holds =>
    intro k b hb hfits
    obtain ⟨-, rfl⟩ | hb := hlookup k b hb
    · rw [h.written hfits]
      exact holds_writeBytes _ _ _
    · refine hs.holds_of_unchanged hb hfits fun a ha => h.outside a fun hcovers => ?_
      have hapart := (List.pairwise_cons.mp hbuffers).1 b.serializedBuf
        (List.mem_append_right _ (mem_buffers_of_lookup hb))
      exact hapart a hcovers ha

theorem sound_addMyself {newProcess : RDMADescriptor → Outcome ShadowProcess}
    (hnew : Describes newProcess) (hfresh : FreshBuffers s fresh) (hs : Sound L s) :
    Sound L (s.after (s.addMyself L newProcess fresh key)).1 := by
  cases hadd : s.addMyself L newProcess fresh key with
  | error stop => exact hs
  | ok r =>
    obtain ⟨s', result⟩ := r
    rcases addMyself_cases hnew hadd with ⟨-, rfl, -⟩ | ⟨bundler, hregistered, -, hpop, -⟩
    · exact hs
    · exact hregistered.sound hpop hfresh hs

theorem sound_unregister (hs : Sound L s) (key : ℕ) : Sound L (s.unregister key) := by
  have hlookup : ∀ k b, (s.unregister key).registered.lookup k = some b →
      s.registered.lookup k = some b :=
    fun k b hb => lookup_of_erase hb
  constructor
  case apart =>
    refine hs.apart.sublist (List.Sublist.append_left (List.Sublist.map _ ?_) _)
    exact List.kerase_sublist key _
  case length => exact fun k b hb => hs.length k b (hlookup k b hb)
  case tables => exact fun k b hb => hs.tables k b (hlookup k b hb)
  case holds => exact fun k b hb => hs.holds k b (hlookup k b hb)

theorem sound_step (a : ServiceAction sz) (hs : Sound L s) (ha : Respects s a) :
    Sound L ((serviceMachine L).step s a).1 := by
  cases a with
  | addMyselfCopy key alloc space regs fresh =>
    exact sound_addMyself (describes_newCopy alloc space regs) ha hs
  | addMyselfCow key space regs fresh =>
    exact sound_addMyself (describes_newCow space regs) ha hs
  | unregister key => exact sound_unregister hs key
  | write memory =>
    constructor
    case apart => exact hs.apart
    case length => exact hs.length
    case tables => exact hs.tables
    case holds =>
      intro k b hb hfits
      refine hs.holds_of_unchanged hb hfits fun a hcovers => ?_
      exact ha b.serializedBuf (List.mem_append_right _ (mem_buffers_of_lookup hb)) a hcovers

theorem sound_start (hempty : s.registered = ∅)
    (hpool : s.memPool.pool.Pairwise RMemory.Apart) : Sound L s := by
  have hnone : ∀ k b, s.registered.lookup k ≠ some b := by
    intro k b hb
    rw [hempty, AList.lookup_empty] at hb
    cases hb
  constructor
  case apart => simpa [Node.buffers, hempty] using hpool
  case length => exact fun k b hb => absurd hb (hnone k b)
  case tables => exact fun k b hb => absurd hb (hnone k b)
  case holds => exact fun k b hb => absurd hb (hnone k b)

end Steps

/-- In every run of the service, the advertised bytes of a registered process lie
in its buffer and are its serialized descriptor, if and only if the descriptor
fits a buffer of the pool. -/
theorem registered_buffer_sound_iff (L : Layout) {sz : ℕ} {start : Node sz}
    (hempty : start.registered = ∅) (hpool : start.memPool.pool.Pairwise RMemory.Apart)
    {as : List (ServiceAction sz)} (has : (serviceMachine L).Always Respects start as)
    {key len : ℕ} {buf : RMemory sz} {d : ParentDescriptor}
    (hbuf : ((serviceMachine L).run start as).queryDescriptorBuf key = some (buf, len))
    (hd : ((serviceMachine L).run start as).queryDescriptor key = some d) :
    (∃ h : len ≤ buf.len, ParentDescriptor.deserialize L (buf.bytes len h)
        ((serviceMachine L).run start as).memory = .ok d) ↔
      d.serializationBufLen L ≤ sz := by
  have hs : Sound L ((serviceMachine L).run start as) :=
    Machine.invariant (Sound L) (fun s a => sound_step a) (sound_start hempty hpool) has
  obtain ⟨b, hb, hpair⟩ := Option.map_eq_some_iff.mp hbuf
  obtain ⟨b', hb', rfl⟩ := Option.map_eq_some_iff.mp hd
  obtain rfl : b = b' := Option.some.inj (hb.symm.trans hb')
  cases hpair
  have hlength := hs.length key b hb
  constructor
  · rintro ⟨hle, -⟩
    rwa [hlength] at hle
  · intro hfits
    rw [← hlength] at hfits
    refine ⟨hfits, ParentDescriptor.deserialize_of_holds (hs.tables key b hb) ?_
      (hs.holds key b hb hfits)⟩
    have himage := ParentDescriptor.length_image (L := L) (hs.tables key b hb)
    rw [← hlength] at himage
    exact Nat.le_of_add_right_le himage.le

/-! ## Processes of different sizes -/

theorem toNat_pages {n : ℕ} (hn : n ≤ 2 ^ 35) : (UInt64.ofNat (n * 4096)).toNat = n * 4096 := by
  rw [UInt64.toNat_ofNat']
  exact Nat.mod_eq_of_lt (by omega)

/-- An area of `n` present pages from address zero on. -/
def pagesArea (n : ℕ) (hn : n ≤ 2 ^ 35) : Area where
  vma := ⟨(0, .ofNat (n * 4096)), 0x3, 0x25, true⟩
  ptes := (List.range n).map fun i => ⟨i * 4096, 0x5067⟩
  startAligned := rfl
  endAligned := by
    rw [VMADescriptor.getEnd, toNat_pages hn]
    exact Nat.mul_mod_left n 4096
  user := by
    rw [VMADescriptor.getEnd, toNat_pages hn]
    omega
  inside := by
    intro p hp
    obtain ⟨i, hi, rfl⟩ := List.mem_map.mp hp
    have hlt := List.mem_range.mp hi
    rw [VMADescriptor.getEnd, toNat_pages hn]
    refine ⟨Nat.zero_le _, ?_, Nat.mul_mod_left i 4096⟩
    dsimp only
    omega
  distinct := by
    rw [List.map_map, List.nodup_map_iff]
    · exact List.nodup_range
    · intro i j h
      simpa using h

def pagesSpace (n : ℕ) (hn : n ≤ 2 ^ 35) : AddressSpace := ⟨[pagesArea n hn], by simp⟩

/-- A machine with one DC target and one buffer. -/
def sampleNode (sz : ℕ) (hsz : sz ≤ 2 ^ 32) : Node sz where
  macId := 1
  memory := fun _ => 0
  memPool := ⟨[⟨0x10000, by omega⟩], 1⟩
  dcTargets := [⟨1, (2, 3), 4, 5, 73, 6⟩]
  registered := ∅

def pageBuffer : RMemory 4096 := ⟨0x10000, by decide⟩

/-- Where the kernel puts the next buffer. -/
def nextBuffer (sz : ℕ) (hsz : sz ≤ 2 ^ 32) : RMemory sz := ⟨0x10000 + sz, by omega⟩

theorem freshBuffers_sample (sz : ℕ) (hsz : sz ≤ 2 ^ 32) :
    FreshBuffers (sampleNode sz hsz) fun _ => nextBuffer sz hsz where
  distinct i j hi hj hne := absurd ((Nat.lt_one_iff.mp hi).trans (Nat.lt_one_iff.mp hj).symm) hne
  unused i _ b hb a hcovers hcovers' := by
    obtain rfl : b = ⟨0x10000, by omega⟩ := by simpa [Node.buffers, sampleNode] using hb
    obtain ⟨hle, -⟩ := hcovers
    obtain ⟨-, hlt⟩ := hcovers'
    simp only [nextBuffer] at hle hlt
    omega

theorem length_table_pagesArea (word : Area → PteEntry → ℕ) (n : ℕ) (hn : n ≤ 2 ^ 35) :
    (tableOf word (pagesArea n hn)).innerPgTable.length = n := by
  have hpresent : ∀ i, PteEntry.present ⟨i * 4096, 0x5067⟩ = true := by
    have hpos : 0 < pmemGetPhyFromPte 0x5067 := by decide
    exact fun _ => decide_eq_true hpos
  simp [tableOf, pagesArea, List.filter_map, Function.comp_def, hpresent]

/-- Preparing the process of `n` pages on the sample machine. -/
def samplePrepare (sz : ℕ) (hsz : sz ≤ 2 ^ 32) (n : ℕ) (hn : n ≤ 2 ^ 35) :
    ServiceAction sz :=
  .addMyselfCow 7 (pagesSpace n hn) default fun _ => nextBuffer sz hsz

theorem samplePrepare_registers (L : Layout) {sz : ℕ} (hsz : sz ≤ 2 ^ 32) {n : ℕ}
    (hn : n ≤ 2 ^ 35) :
    ∃ s' b, (serviceMachine L).step (sampleNode sz hsz) (samplePrepare sz hsz n hn) =
        (s', .ok (some sz)) ∧
      s'.registered.lookup 7 = some b ∧
      b.serializedBufLen = b.process.descriptor.serializationBufLen L ∧
      ∃ rdma, b.process.descriptor = ⟨default, [tableOf cowWord (pagesArea n hn)],
        [(pagesArea n hn).vma], rdma⟩ := by
  have hnew := describes_newCow (pagesSpace n hn) default
  obtain ⟨s', hs'⟩ : ∃ s', (sampleNode sz hsz).addMyself L
      (fun descriptor => .ok (newCow (pagesSpace n hn) default descriptor))
      (fun _ => nextBuffer sz hsz) 7 = .ok (s', some sz) :=
    addMyself_returns hnew (by simp [sampleNode]) (by simp [sampleNode]) (fun _ => ⟨_, rfl⟩)
      ⟨_, _, rfl⟩
  rcases addMyself_cases hnew hs' with ⟨-, -, hnone⟩ | ⟨b, hregistered, -, -, rdma, hprocess⟩
  · cases hnone
  · refine ⟨s', b, ?_, ?_, hregistered.length, rdma, ?_⟩
    · dsimp only [serviceMachine, samplePrepare, Node.addMyselfCow]
      rw [hs']
      rfl
    · rw [hregistered.registered, AList.lookup_insert]
    · rw [← Except.ok.inj hprocess]
      exact newCow_tables _ _ _

theorem serializationBufLen_pages (L : Layout) {n : ℕ} (hn : n ≤ 2 ^ 35)
    (rdma : RDMADescriptor) :
    ParentDescriptor.serializationBufLen L ⟨default, [tableOf cowWord (pagesArea n hn)],
      [(pagesArea n hn).vma], rdma⟩ =
      L.regs.size + (8 + (if n % 2 = 1 then 8 + n * 12 + 4 else 8 + n * 12)) + 8 + L.vma.size +
        L.rdma.size := by
  have hlength := length_table_pagesArea cowWord n hn
  simp [ParentDescriptor.serializationBufLen, ParentDescriptor.vmaPgTableSerializationBufLen,
    CompactPageTable.serializationBufLen, CompactPageTable.tableLen, hlength,
    Codec.u64, Codec.u32]

/-- A process of one page and buffers of one page. -/
theorem registered_buffer_sound_iff_one_page :
    let s := (serviceMachine Layout.packed).run (sampleNode 4096 (by decide))
      [samplePrepare 4096 (by decide) 1 (by decide)]
    ∃ buf len d, s.queryDescriptorBuf 7 = some (buf, len) ∧ s.queryDescriptor 7 = some d ∧
      ∃ h : len ≤ buf.len,
        ParentDescriptor.deserialize Layout.packed (buf.bytes len h) s.memory = .ok d := by
  intro s
  obtain ⟨s', b, hstep, hlookup, -, rdma, hd⟩ := samplePrepare_registers Layout.packed
    (show 4096 ≤ 2 ^ 32 by decide) (show 1 ≤ 2 ^ 35 by decide)
  have hs : s = s' := congrArg Prod.fst hstep
  have hbuf : s.queryDescriptorBuf 7 = some (b.serializedBuf, b.serializedBufLen) := by
    rw [hs, Node.queryDescriptorBuf, hlookup]
    rfl
  have hdes : s.queryDescriptor 7 = some b.process.descriptor := by
    rw [hs, Node.queryDescriptor, hlookup]
    rfl
  have has : (serviceMachine Layout.packed).Always Respects (sampleNode 4096 (by decide))
      [samplePrepare 4096 (by decide) 1 (by decide)] :=
    ⟨freshBuffers_sample 4096 (by decide), trivial⟩
  refine ⟨_, _, _, hbuf, hdes, (registered_buffer_sound_iff Layout.packed rfl
    (List.pairwise_singleton _ _) has hbuf hdes).mpr ?_⟩
  rw [hd, serializationBufLen_pages]
  decide

/-- A process of 2 GiB is registered with a buffer of 4 MiB: the advertised length
is larger than the buffer. -/
theorem oversized_descriptor_registered :
    ∃ buf len, ((serviceMachine Layout.packed).run (sampleNode 4194304 (by decide))
      [samplePrepare 4194304 (by decide) 524288 (by decide)]).queryDescriptorBuf 7 =
        some (buf, len) ∧ buf.len < len := by
  obtain ⟨s', b, hstep, hlookup, hlen, rdma, hd⟩ := samplePrepare_registers Layout.packed
    (show 4194304 ≤ 2 ^ 32 by decide) (show 524288 ≤ 2 ^ 35 by decide)
  rw [Machine.run_cons, Machine.run_nil, hstep]
  refine ⟨b.serializedBuf, b.serializedBufLen, ?_, ?_⟩
  · rw [Node.queryDescriptorBuf, hlookup]
    rfl
  · rw [hlen, hd, serializationBufLen_pages, RMemory.len]
    decide

end Mitosis.Shadow
