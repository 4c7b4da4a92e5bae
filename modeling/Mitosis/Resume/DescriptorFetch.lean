import Mitosis.Resume.Syscall
import Mitosis.ShadowProcess.Registry

/-!
# Fetching a descriptor

A child learns from the reply to a `Query` where the descriptor of a key lies, and
reads it with a one-sided READ afterwards.  Nothing holds the buffer in between: the
READ goes through a DC target of the whole machine, so it succeeds although the
process has been unregistered, its own target destroyed and its buffer freed.  What it
finds then is whatever the memory was reused for.

The machine below interleaves the calls of the service at the parent with any number
of children, each of which is before or between its two steps.
-/

namespace Mitosis.Resume

open Support Descriptors OsNetwork RemoteMapping PageFault
open Shadow (Node RMemory DCTargetMeta ServiceAction serviceMachine Respects Sound FreshBuffers)

/-! ## The two steps -/

/-- The handler of a `Query`.  There is a null reply if the key is not registered.  The
coordinates are those of a target of the whole machine. -/
def handleDescriptorAddrLookup {sz : ℕ} (dcTarget : List DCTargetMeta) (cpu : ℕ)
    (s : Node sz) (key : ℕ) : Outcome (Option DescriptorLookupReply) :=
  match s.queryDescriptorBuf key with
  | none => .ok none
  | some (buf, len) =>
    match dcTarget[cpu % dcTarget.length]? with
    | none => .error .panicked
    | some target =>
      .ok (some ⟨buf.ptr, len, true, target.rkey, target.lid.toUInt32, target.gid,
        target.dctNum, target.dcKey⟩)

/-- The child's side of the READ: the address of its buffer, if one of the size can be
allocated, its memory, and how the READ fails, if it does. -/
structure Landing where
  ptr : Option ℕ
  memory : Memory
  failure : Option Stop

/-- `remote_descriptor_fetch`: read `d.sz` bytes at `d.pa` into a buffer of that size.
`UDMsg::new` expects its memory to be there. -/
def remoteDescriptorFetch (remote : Memory) (d : DescriptorLookupReply) (l : Landing) :
    Outcome (BytesMut × Memory) :=
  match l.ptr, l.failure with
  | none, _ => .error .panicked
  | some _, some stop => .error stop
  | some ptr, none =>
    if h : ptr + d.sz ≤ 2 ^ 64 then
      .ok (⟨ptr, d.sz, h⟩, writeBytes l.memory ptr (readBytes remote d.pa d.sz))
    else .error .panicked

/-! ## A parent with its children -/

/-- The parent's machine with its own DC targets, and the children that have a reply:
the key each one asked for and the answer. -/
structure ForkState (sz : ℕ) where
  parent : Node sz
  dcTarget : List DCTargetMeta
  replies : AList fun _ : ℕ => ℕ × DescriptorLookupReply

/-- A call of the service or another write at the parent, the first step of a child, or
its second step.  The second one also depends on the child's machine. -/
inductive ForkAction (sz : ℕ) where
  | service (a : ServiceAction sz)
  | query (child cpu key : ℕ)
  | fetch (child : ℕ) (landing : Landing) (cache : RemotePageTableCache) (pool : DCPool)
      (machineId : ℕ) (env : ResumeEnv)

inductive ForkOutput where
  | service (result : Outcome (Option ℕ))
  | replied (reply : Outcome (Option DescriptorLookupReply))
  | resumed (key : ℕ) (bytes : List UInt8) (result : Outcome ℤ)
  | refused
deriving DecidableEq

/-- A child that fetches reports the key it asked for, the bytes at the place named in
the reply, and how its system call ends. -/
def forkMachine (f : Features) (L : Layout) {sz : ℕ} :
    Machine (ForkState sz) (ForkAction sz) ForkOutput where
  step s
    | .service a =>
      let (parent, result) := (serviceMachine L).step s.parent a
      ({ s with parent := parent }, .service result)
    | .query child cpu key =>
      if child ∈ s.replies then (s, .refused)
      else
        match handleDescriptorAddrLookup s.dcTarget cpu s.parent key with
        | .ok (some d) =>
          ({ s with replies := s.replies.insert child (key, d) }, .replied (.ok (some d)))
        | r => (s, .replied r)
    | .fetch child landing cache pool machineId env =>
      match s.replies.lookup child with
      | none => (s, .refused)
      | some (key, d) =>
        let env := { env with
          reply := some d
          fetched := remoteDescriptorFetch s.parent.memory d landing }
        let (_, _, result) := syscallResumeWRpc f L cache pool none machineId key env
        ({ s with replies := s.replies.erase child },
          .resumed key (readBytes s.parent.memory d.pa d.sz) result)

/-- Some process that was registered under the key, in a state of the run, has its
serialized descriptor at the beginning of the bytes. -/
def WrittenFor (f : Features) (L : Layout) {sz : ℕ} (start : ForkState sz)
    (as : List (ForkAction sz)) (key : ℕ) (bytes : List UInt8) : Prop :=
  ∃ pre, pre <+: as ∧ ∃ b, ((forkMachine f L).run start pre).parent.registered.lookup key =
    some b ∧ b.serializedBufLen ≤ sz ∧ b.process.descriptor.image L <+: bytes

/-- A descriptor whose place is told to a child fits its buffer, and nothing writes to
the bytes that a child is about to read. -/
def Undisturbed (L : Layout) {sz : ℕ} (s : ForkState sz) : ForkAction sz → Prop
  | .service a => Respects s.parent a ∧
      ∀ child key d, s.replies.lookup child = some (key, d) →
        readBytes ((serviceMachine L).step s.parent a).1.memory d.pa d.sz =
          readBytes s.parent.memory d.pa d.sz
  | .query _ _ key => ∀ b, s.parent.registered.lookup key = some b → b.serializedBufLen ≤ sz
  | .fetch _ _ _ _ _ _ => True

/-! ## Every run -/

section Runs

variable {f : Features} {L : Layout} {sz : ℕ} {start s : ForkState sz}
  {as : List (ForkAction sz)} {key : ℕ} {bytes : List UInt8}

theorem WrittenFor.concat (h : WrittenFor f L start as key bytes) (a : ForkAction sz) :
    WrittenFor f L start (as ++ [a]) key bytes := by
  obtain ⟨pre, hpre, hb⟩ := h
  exact ⟨pre, hpre.trans (List.prefix_append as [a]), hb⟩

theorem handleDescriptorAddrLookup_eq_some {dcTarget : List DCTargetMeta} {cpu : ℕ}
    {parent : Node sz} {d : DescriptorLookupReply}
    (h : handleDescriptorAddrLookup dcTarget cpu parent key = .ok (some d)) :
    ∃ b, parent.registered.lookup key = some b ∧ d.pa = b.serializedBuf.ptr ∧
      d.sz = b.serializedBufLen := by
  unfold handleDescriptorAddrLookup at h
  split at h
  · cases h
  · next buf len hbuf =>
      split at h
      · cases h
      · cases h
        obtain ⟨b, hb, hpair⟩ := Option.map_eq_some_iff.mp hbuf
        cases hpair
        exact ⟨b, hb, rfl, rfl⟩

theorem image_prefix_of_sound {parent : Node sz} {b : Shadow.ProcessBundler sz}
    (hs : Sound L parent) (hb : parent.registered.lookup key = some b)
    (hfits : b.serializedBufLen ≤ sz) :
    b.process.descriptor.image L <+:
      readBytes parent.memory b.serializedBuf.ptr b.serializedBufLen := by
  have himage := ParentDescriptor.length_image (L := L) (hs.tables key b hb)
  rw [← hs.length key b hb] at himage
  have hholds : readBytes parent.memory b.serializedBuf.ptr
      (b.process.descriptor.image L).length = b.process.descriptor.image L :=
    hs.holds key b hb hfits
  rw [← himage, readBytes_add, hholds]
  exact List.prefix_append _ _

/-- What a run keeps: the buffers of the parent are sound, and the bytes that a child is
about to read were written for its key. -/
structure Granted (f : Features) (L : Layout) (start : ForkState sz)
    (as : List (ForkAction sz)) (s : ForkState sz) : Prop where
  sound : Sound L s.parent
  written : ∀ child key d, s.replies.lookup child = some (key, d) →
    WrittenFor f L start as key (readBytes s.parent.memory d.pa d.sz)

theorem Granted.concat (h : Granted f L start as s) (a : ForkAction sz) :
    Granted f L start (as ++ [a]) s where
  sound := h.sound
  written child key d hd := (h.written child key d hd).concat a

theorem Granted.service (h : Granted f L start as s) {a : ServiceAction sz}
    (ha : Undisturbed L s (.service a)) :
    Granted f L start as ((forkMachine f L).step s (.service a)).1 where
  sound := Shadow.sound_step a h.sound ha.1
  written child key d hd := by
    have hsame := ha.2 child key d hd
    have hwritten := h.written child key d hd
    rwa [← hsame] at hwritten

theorem Granted.query (h : Granted f L start as ((forkMachine f L).run start as))
    {child cpu key : ℕ}
    (ha : Undisturbed L ((forkMachine f L).run start as) (.query child cpu key)) :
    Granted f L start as
      ((forkMachine f L).step ((forkMachine f L).run start as) (.query child cpu key)).1 := by
  generalize hs : (forkMachine f L).run start as = s at h ha ⊢
  dsimp only [forkMachine]
  split
  · exact h
  · split
    · next d hd =>
        refine ⟨h.sound, fun child' key' d' hd' => ?_⟩
        rcases lookup_insert_cases hd' with ⟨-, hnew⟩ | hold
        · cases hnew
          obtain ⟨b, hb, hpa, hsz⟩ := handleDescriptorAddrLookup_eq_some hd
          have hfits := ha b hb
          refine ⟨as, List.prefix_refl as, b, by rwa [hs], hfits, ?_⟩
          rw [hpa, hsz]
          exact image_prefix_of_sound h.sound hb hfits
        · exact h.written child' key' d' hold
    · exact h

theorem Granted.fetch (h : Granted f L start as s) (child : ℕ) (landing : Landing)
    (cache : RemotePageTableCache) (pool : DCPool) (machineId : ℕ) (env : ResumeEnv) :
    Granted f L start as
      ((forkMachine f L).step s (.fetch child landing cache pool machineId env)).1 := by
  dsimp only [forkMachine]
  split
  · exact h
  · exact ⟨h.sound, fun child' key' d' hd' => h.written child' key' d' (lookup_of_erase hd')⟩

/-- After every undisturbed run, the children are about to read what was written for
their keys. -/
theorem granted_run (hempty : start.parent.registered = ∅)
    (hpool : start.parent.memPool.pool.Pairwise RMemory.Apart) (hreplies : start.replies = ∅)
    (has : (forkMachine f L).Always (Undisturbed L) start as) :
    Granted f L start as ((forkMachine f L).run start as) := by
  induction as using List.reverseRecOn with
  | nil =>
    refine ⟨Shadow.sound_start hempty hpool, fun child key d hd => ?_⟩
    rw [Machine.run_nil, hreplies, AList.lookup_empty] at hd
    cases hd
  | append_singleton as a ih =>
    obtain ⟨has, ha⟩ := Machine.always_concat.mp has
    have h := ih has
    rw [Machine.run_concat]
    apply Granted.concat
    cases a with
    | service a => exact h.service ha
    | query child cpu key => exact h.query ha
    | fetch child landing cache pool machineId env =>
      exact h.fetch child landing cache pool machineId env

end Runs

/-- In every interleaving of the parent's steps with its children in which a descriptor
that is told of fits its buffer, and nothing writes to advertised bytes between the
reply and the READ, every descriptor that a child applies is built from bytes that were
written for the key it asked for, while that key was registered.  With the page cache the
table of a descriptor is replaced after it was decoded, by the one that the cache has for the
key, if it has one. -/
theorem fetched_bytes_written {f : Features} {L : Layout} {sz : ℕ} {start : ForkState sz}
    (hempty : start.parent.registered = ∅)
    (hpool : start.parent.memPool.pool.Pairwise RMemory.Apart) (hreplies : start.replies = ∅)
    {as : List (ForkAction sz)} (has : (forkMachine f L).Always (Undisturbed L) start as)
    {a : ForkAction sz} {key : ℕ} {bytes : List UInt8}
    (ha : ((forkMachine f L).step ((forkMachine f L).run start as) a).2 =
      .resumed key bytes (.ok 0)) :
    WrittenFor f L start as key bytes := by
  have h := granted_run hempty hpool hreplies has
  cases a with
  | service a => cases ha
  | query child cpu key' =>
    dsimp only [forkMachine] at ha
    split at ha
    · cases ha
    · split at ha <;> cases ha
  | fetch child landing cache pool machineId env =>
    dsimp only [forkMachine] at ha
    split at ha
    · cases ha
    · next key' d hd =>
        simp only [ForkOutput.resumed.injEq] at ha
        obtain ⟨rfl, rfl, -⟩ := ha
        exact h.written child _ d hd

/-! ## A parent that exits between the two steps -/

/-- A parent with one buffer and two DC targets. -/
def forkStart : ForkState 4096 where
  parent := { Shadow.sampleNode 4096 (by decide) with
    dcTargets := [⟨1, (2, 3), 4, 5, 73, 6⟩, ⟨1, (2, 3), 4, 5, 73, 7⟩] }
  dcTarget := [⟨1, (2, 3), 4, 5, 73, 0⟩]
  replies := ∅

/-- A process without memory areas is prepared; `fs` tells it from others. -/
def prepareAt (key : ℕ) (fs : UInt64) (fresh : RMemory 4096) : ForkAction 4096 :=
  .service (.addMyselfCow key .empty { (default : RegDescriptor) with fs := fs }
    fun _ => fresh)

/-- A child fetches, and nothing fails. -/
def fetchBy (child : ℕ) : ForkAction 4096 :=
  .fetch child ⟨some 0x20000, fun _ => 0, none⟩ ⟨∅⟩ ⟨[]⟩ 1
    ⟨none, .error .absent, none, some ⟨0, 0, 0⟩, some ⟨0, 0, 0⟩, true⟩

theorem freshBuffers_forkStart : FreshBuffers forkStart.parent
    fun _ => Shadow.nextBuffer 4096 (by decide) :=
  have h := Shadow.freshBuffers_sample 4096 (by decide)
  ⟨h.distinct, h.unused⟩

/-- The parent and its children without further features. -/
abbrev plainFork : Machine (ForkState 4096) (ForkAction 4096) ForkOutput :=
  forkMachine ⟨false, false, false⟩ Layout.packed

/-- A process is prepared under key 7, and a child asks for it. -/
def askedRun : List (ForkAction 4096) :=
  [prepareAt 7 1 (Shadow.nextBuffer 4096 (by decide)), .query 0 0 7]

theorem undisturbed_askedRun :
    plainFork.Always (Undisturbed Layout.packed) forkStart askedRun := by
  refine ⟨⟨freshBuffers_forkStart, fun child key d hd => (nomatch hd)⟩, fun b hb => ?_, trivial⟩
  have hfits : ((plainFork.step forkStart (prepareAt 7 1 (Shadow.nextBuffer 4096
      (by decide)))).1.parent.registered.lookup 7).all
        (fun b => decide (b.serializedBufLen ≤ 4096)) = true := by
    decide +kernel
  rw [hb] at hfits
  exact of_decide_eq_true hfits

/-- The process is registered when the child fetches. -/
theorem fetched_bytes_written_registered :
    ∃ bytes, (plainFork.step (plainFork.run forkStart askedRun) (fetchBy 0)).2 =
        .resumed 7 bytes (.ok 0) ∧
      WrittenFor ⟨false, false, false⟩ Layout.packed forkStart askedRun 7 bytes := by
  have hresumed : (plainFork.step (plainFork.run forkStart askedRun) (fetchBy 0)).2 =
      .resumed 7 (readBytes (plainFork.run forkStart askedRun).parent.memory 0x10000 256)
        (.ok 0) := by
    decide +kernel
  exact ⟨_, hresumed, fetched_bytes_written rfl (List.pairwise_singleton _ _) rfl
    undisturbed_askedRun hresumed⟩

/-- The parent exits before the child fetches. -/
def freedRun : List (ForkAction 4096) := askedRun ++ [.service (.unregister 7)]

/-- Another process is prepared then, whose buffer the kernel puts into the freed
memory. -/
def reusedRun : List (ForkAction 4096) := freedRun ++ [prepareAt 8 2 Shadow.pageBuffer]

theorem freshBuffers_freedRun : FreshBuffers (plainFork.run forkStart freedRun).parent
    fun _ => Shadow.pageBuffer := by
  have hcapacity : (plainFork.run forkStart freedRun).parent.memPool.capacity = 1 := by
    decide +kernel
  have hbuffers : (plainFork.run forkStart freedRun).parent.buffers.isEmpty = true := by
    decide +kernel
  constructor
  · intro i j hi hj hne
    rw [hcapacity] at hi hj
    exact absurd ((Nat.lt_one_iff.mp hi).trans (Nat.lt_one_iff.mp hj).symm) hne
  · intro i _ b hb
    rw [List.isEmpty_iff.mp hbuffers] at hb
    cases hb

/-- The kernel never hands out memory that is in use, and yet the child that asked for
key 7 resumes from bytes that were written for key 8. -/
theorem fetched_bytes_of_another_process :
    plainFork.Always (fun s a => ∀ call, a = .service call → Respects s.parent call)
        forkStart reusedRun ∧
      ∃ bytes, (plainFork.step (plainFork.run forkStart reusedRun) (fetchBy 0)).2 =
          .resumed 7 bytes (.ok 0) ∧
        WrittenFor ⟨false, false, false⟩ Layout.packed forkStart reusedRun 8 bytes ∧
        ¬ WrittenFor ⟨false, false, false⟩ Layout.packed forkStart reusedRun 7 bytes := by
  constructor
  · refine ⟨?_, nofun, ?_, ?_, trivial⟩
    · intro call hcall
      obtain rfl := ForkAction.service.inj hcall
      exact freshBuffers_forkStart
    · intro call hcall
      obtain rfl := ForkAction.service.inj hcall
      trivial
    · intro call hcall
      obtain rfl := ForkAction.service.inj hcall
      exact freshBuffers_freedRun
  · refine ⟨readBytes (plainFork.run forkStart reusedRun).parent.memory 0x10000 256,
      by decide +kernel, ?_, ?_⟩
    · have hlast : ((plainFork.run forkStart reusedRun).parent.registered.lookup 8).any
          (fun b => decide (b.serializedBufLen ≤ 4096 ∧ b.process.descriptor.image Layout.packed <+:
            readBytes (plainFork.run forkStart reusedRun).parent.memory 0x10000 256)) = true := by
        decide +kernel
      obtain ⟨b, hb, hcond⟩ := (Option.any_eq_true _ _).mp hlast
      exact ⟨reusedRun, List.prefix_refl _, b, hb, of_decide_eq_true hcond⟩
    · rintro ⟨pre, hpre, b, hb, -, himage⟩
      have hother : ∀ pre ∈ reusedRun.inits,
          ((plainFork.run forkStart pre).parent.registered.lookup 7).all (fun b =>
            decide (¬ b.process.descriptor.image Layout.packed <+:
              readBytes (plainFork.run forkStart reusedRun).parent.memory 0x10000 256)) =
            true := by
        decide +kernel
      have hnot := hother pre ((List.mem_inits pre reusedRun).mpr hpre)
      rw [hb] at hnot
      exact of_decide_eq_true hnot himage

end Mitosis.Resume
