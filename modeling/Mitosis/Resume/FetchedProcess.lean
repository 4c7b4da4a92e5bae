import Mitosis.Resume.DescriptorFetch
import Mitosis.Resume.ForkedMemory

/-!
# The process that a fetched descriptor is of

A child gets from its key to a running process in three steps: the reply to its `Query`,
the READ of the bytes, and `syscall_resume_w_rpc`.  In between the parent prepares and
unregisters processes, and other children do the same.  If nothing writes to the bytes
that a child was told of, the child runs a process that was prepared under its key: it has
the registers and the areas, and each fault reads the frame that the prepare recorded.
-/

namespace Mitosis.Resume

open Support Descriptors OsNetwork Prefetcher RemoteMapping PageFault Shadow

/-! ## What a prepare records -/

/-- What the descriptor of a prepared process records: its areas and registers, and for each
page a word that a child decodes to the frame it has to read. -/
structure Records (space : AddressSpace) (regs : RegDescriptor) (frame : PteEntry → ℕ)
    (word : Area → PteEntry → ℕ) (d : ParentDescriptor) : Prop where
  describes : ∃ rdma, Describes space word regs rdma d
  fits : WordsFit space word
  remote : RemoteWords space word
  decoded : ∀ a ∈ space.areas, ∀ p ∈ a.ptes, p.present = true →
    PhysAddr.decode (word a p) = frame p

section Prepared

variable {space : AddressSpace} {regs : RegDescriptor} {rdma : RDMADescriptor}

theorem records_newCow :
    Records space regs PteEntry.frame cowWord (newCow space regs rdma).descriptor where
  describes := ⟨rdma, newCow_tables space regs rdma⟩
  fits := cowWord_fits space
  remote := remoteWords_cow space
  decoded a _ p _ _ := decode_cowWord a p

theorem records_newCopy {alloc : ℕ → Option ℕ} {sp : ShadowProcess} (halloc : AllocatesPages alloc)
    (h : newCopy alloc space regs rdma = .ok sp) :
    Records space regs (fun p => (alloc p.addr).getD 0) (copyWord alloc) sp.descriptor := by
  obtain ⟨hall, htables⟩ := newCopy_tables h
  constructor
  case describes => exact ⟨rdma, htables⟩
  case fits => exact copyWord_fits halloc hall
  case remote => exact remoteWords_copy halloc hall
  case decoded =>
    intro a ha p hp hpres
    obtain ⟨-, haligned, hlt⟩ := copyWord_page halloc hall ha hp hpres
    exact PhysAddr.decode_of_aligned (by omega) hlt

end Prepared

section Runs

variable {f : Features} {L : Layout} {sz : ℕ}

/-- The action prepares a process under the key; `frame` is where a child reads a page of
it: its copy, or the page itself. -/
inductive Prepares (key : ℕ) (space : AddressSpace) (regs : RegDescriptor) :
    (PteEntry → ℕ) → ForkAction sz → Prop where
  | copy (alloc : ℕ → Option ℕ) (fresh : ℕ → RMemory sz) :
      Prepares key space regs (fun p => (alloc p.addr).getD 0)
        (.service (.addMyselfCopy key alloc space regs fresh))
  | cow (fresh : ℕ → RMemory sz) :
      Prepares key space regs PteEntry.frame (.service (.addMyselfCow key space regs fresh))

/-- The kernel allocates pages for copies. -/
def CopiesToPages : ForkAction sz → Prop
  | .service (.addMyselfCopy _ alloc _ _ _) => AllocatesPages alloc
  | _ => True

/-- Some prepare of the run has registered this process under the key. -/
def PreparedIn (f : Features) (L : Layout) (start : ForkState sz) (as : List (ForkAction sz))
    (key : ℕ) (space : AddressSpace) (regs : RegDescriptor) (frame : PteEntry → ℕ) : Prop :=
  ∃ pre act, pre ++ [act] <+: as ∧ Prepares key space regs frame act ∧
    key ∉ ((forkMachine f L).run start pre).parent.registered ∧
    key ∈ ((forkMachine f L).run start (pre ++ [act])).parent.registered

variable {start : ForkState sz} {as : List (ForkAction sz)} {key : ℕ}

theorem PreparedIn.concat {space : AddressSpace} {regs : RegDescriptor} {frame : PteEntry → ℕ}
    (h : PreparedIn f L start as key space regs frame) (a : ForkAction sz) :
    PreparedIn f L start (as ++ [a]) key space regs frame := by
  obtain ⟨pre, act, hpre, hrest⟩ := h
  exact ⟨pre, act, hpre.trans (List.prefix_append as [a]), hrest⟩

theorem parent_query (s : ForkState sz) (child cpu k : ℕ) :
    ((forkMachine f L).step s (.query child cpu k)).1.parent = s.parent := by
  dsimp only [forkMachine]
  split
  · rfl
  · split <;> rfl

theorem parent_fetch (s : ForkState sz) (child : ℕ) (landing : Landing)
    (cache : RemotePageTableCache) (pool : DCPool) (machineId : ℕ) (env : ResumeEnv) :
    ((forkMachine f L).step s (.fetch child landing cache pool machineId env)).1.parent =
      s.parent := by
  dsimp only [forkMachine]
  split <;> rfl

/-! ## Registered processes -/

variable {b : ProcessBundler sz} {s : ForkState sz} {a : ForkAction sz}

theorem lookup_addMyself {s : Node sz} {newProcess : RDMADescriptor → Outcome ShadowProcess}
    {fresh : ℕ → RMemory sz} {k : ℕ} (hnew : Shadow.Describes newProcess)
    (hb : (s.after (s.addMyself L newProcess fresh k)).1.registered.lookup key = some b) :
    s.registered.lookup key = some b ∨
      k = key ∧ key ∉ s.registered ∧ ∃ rdma, newProcess rdma = .ok b.process := by
  cases hadd : s.addMyself L newProcess fresh k with
  | error stop =>
    rw [hadd] at hb
    exact .inl hb
  | ok r =>
    obtain ⟨s', result⟩ := r
    rw [hadd] at hb
    rcases addMyself_cases hnew hadd with ⟨-, rfl, -⟩ | ⟨bundler, hregistered, -, -, hprocess⟩
    · exact .inl hb
    · dsimp only [Node.after] at hb
      rw [hregistered.registered] at hb
      rcases lookup_insert_cases hb with ⟨rfl, rfl⟩ | hold
      · exact .inr ⟨rfl, hregistered.free, hprocess⟩
      · exact .inl hold

theorem lookup_step (ha : CopiesToPages a)
    (hb : ((forkMachine f L).step s a).1.parent.registered.lookup key = some b) :
    s.parent.registered.lookup key = some b ∨ key ∉ s.parent.registered ∧
      ∃ space regs frame word, Prepares key space regs frame a ∧
        Records space regs frame word b.process.descriptor := by
  cases a with
  | service a =>
    cases a with
    | addMyselfCopy k alloc space regs fresh =>
      refine (lookup_addMyself (describes_newCopy alloc space regs) hb).imp_right ?_
      rintro ⟨rfl, hfree, rdma, hnew⟩
      exact ⟨hfree, space, regs, _, _, .copy alloc fresh, records_newCopy ha hnew⟩
    | addMyselfCow k space regs fresh =>
      refine (lookup_addMyself (describes_newCow space regs) hb).imp_right ?_
      rintro ⟨rfl, hfree, rdma, hnew⟩
      exact ⟨hfree, space, regs, _, _, .cow fresh, Except.ok.inj hnew ▸ records_newCow⟩
    | unregister k => exact .inl (lookup_of_erase hb)
    | write memory => exact .inl hb
  | query child cpu k =>
    rw [parent_query] at hb
    exact .inl hb
  | fetch child landing cache pool machineId env =>
    rw [parent_fetch] at hb
    exact .inl hb

theorem records_run (hempty : start.parent.registered = ∅)
    (has : (forkMachine f L).Always (fun _ a => CopiesToPages a) start as)
    (hb : ((forkMachine f L).run start as).parent.registered.lookup key = some b) :
    ∃ space regs frame word, PreparedIn f L start as key space regs frame ∧
      Records space regs frame word b.process.descriptor := by
  induction as using List.reverseRecOn with
  | nil =>
    rw [Machine.run_nil, hempty, AList.lookup_empty] at hb
    cases hb
  | append_singleton as a ih =>
    obtain ⟨hrun, ha⟩ := Machine.always_concat.mp has
    have hmem := AList.lookup_isSome.mp (Option.isSome_of_eq_some hb)
    rw [Machine.run_concat] at hb
    obtain hold | ⟨hfree, space, regs, frame, word, hprepares, hrecords⟩ := lookup_step ha hb
    · obtain ⟨space, regs, frame, word, hin, hrecords⟩ := ih hrun hold
      exact ⟨space, regs, frame, word, hin.concat a, hrecords⟩
    · exact ⟨space, regs, frame, word,
        ⟨as, a, List.prefix_refl _, hprepares, hfree, hmem⟩, hrecords⟩

/-! ## What the children are told of -/

/-- The bytes that a reply tells of hold the whole descriptor of a process that the run has
prepared under the key. -/
def Told (f : Features) (L : Layout) (start : ForkState sz) (as : List (ForkAction sz)) (key : ℕ)
    (memory : Memory) (reply : DescriptorLookupReply) : Prop :=
  ∃ space regs frame word d, PreparedIn f L start as key space regs frame ∧
    Records space regs frame word d ∧ d.serializationBufLen L ≤ reply.sz ∧
    d.image L <+: readBytes memory reply.pa reply.sz

variable {reply : DescriptorLookupReply} {child : ℕ}

theorem Told.concat {memory : Memory}
    (h : Told f L start as key memory reply) (a : ForkAction sz) :
    Told f L start (as ++ [a]) key memory reply := by
  obtain ⟨space, regs, frame, word, d, hin, hrest⟩ := h
  exact ⟨space, regs, frame, word, d, hin.concat a, hrest⟩

theorem reply_step (h : ((forkMachine f L).step s a).1.replies.lookup child = some (key, reply)) :
    s.replies.lookup child = some (key, reply) ∨
      ∃ cpu b, a = .query child cpu key ∧ s.parent.registered.lookup key = some b ∧
        reply.pa = b.serializedBuf.ptr ∧ reply.sz = b.serializedBufLen := by
  cases a with
  | service a => exact .inl h
  | query child' cpu k =>
    dsimp only [forkMachine] at h
    split at h
    · exact .inl h
    · split at h
      · next reply' hanswer =>
          rcases lookup_insert_cases h with ⟨rfl, hpair⟩ | hold
          · cases hpair
            obtain ⟨b, hb, hplace⟩ := handleDescriptorAddrLookup_eq_some hanswer
            exact .inr ⟨cpu, b, rfl, hb, hplace⟩
          · exact .inl hold
      · exact .inl h
  | fetch child' landing cache pool machineId env =>
    dsimp only [forkMachine] at h
    split at h
    · exact .inl h
    · exact .inl (lookup_of_erase h)

theorem readBytes_step (ha : Undisturbed L s a)
    (h : s.replies.lookup child = some (key, reply)) :
    readBytes ((forkMachine f L).step s a).1.parent.memory reply.pa reply.sz =
      readBytes s.parent.memory reply.pa reply.sz := by
  cases a with
  | service a => exact ha.2 child key reply h
  | query child' cpu k => rw [parent_query]
  | fetch child' landing cache pool machineId env => rw [parent_fetch]

/-- After every undisturbed run, the descriptors that the children are about to read lie where
they were told. -/
theorem told_run (hempty : start.parent.registered = ∅)
    (hpool : start.parent.memPool.pool.Pairwise RMemory.Apart) (hreplies : start.replies = ∅)
    (has : (forkMachine f L).Always (Undisturbed L) start as)
    (hcopies : (forkMachine f L).Always (fun _ a => CopiesToPages a) start as)
    (hreply : ((forkMachine f L).run start as).replies.lookup child = some (key, reply)) :
    Told f L start as key ((forkMachine f L).run start as).parent.memory reply := by
  induction as using List.reverseRecOn with
  | nil =>
    rw [Machine.run_nil, hreplies, AList.lookup_empty] at hreply
    cases hreply
  | append_singleton as a ih =>
    obtain ⟨hrun, ha⟩ := Machine.always_concat.mp has
    obtain ⟨hbefore, -⟩ := Machine.always_concat.mp hcopies
    rw [Machine.run_concat] at hreply ⊢
    apply Told.concat
    obtain hold | ⟨cpu, b, rfl, hb, hpa, hsz⟩ := reply_step hreply
    · rw [Told, readBytes_step ha hold]
      exact ih hrun hbefore hold
    · -- the reply tells of the buffer of the process that is registered now
      have hsound := (granted_run hempty hpool hreplies hrun).sound
      obtain ⟨space, regs, frame, word, hin, hrecords⟩ := records_run hempty hbefore hb
      refine ⟨space, regs, frame, word, _, hin, hrecords, ?_, ?_⟩
      · rw [hsz, hsound.length key b hb]
      · rw [parent_query, hpa, hsz]
        exact image_prefix_of_sound hsound hb (ha b hb)

end Runs

/-! ## The child that runs -/

section Child

variable {f : Features} {L : Layout} {sz : ℕ} {s : ForkState sz} {cache : RemotePageTableCache}
  {pool : DCPool} {machineId key : ℕ} {env : ResumeEnv} {reply : DescriptorLookupReply}
  {landing : Landing} {r : ResumeData}

/-- The environment of a child's system call as the machine's `fetch` has it. -/
def fetchEnv (s : ForkState sz) (reply : DescriptorLookupReply) (landing : Landing)
    (env : ResumeEnv) : ResumeEnv :=
  { env with
    reply := some reply
    fetched := remoteDescriptorFetch s.parent.memory reply landing }

theorem remoteDescriptorFetch_holds {remote : Memory} {d : ParentDescriptor} {b : BytesMut}
    {m : Memory} (hlies : d.image L <+: readBytes remote reply.pa reply.sz)
    (h : remoteDescriptorFetch remote reply landing = .ok (b, m)) :
    b.len = reply.sz ∧ Support.Holds m b.ptr (d.image L) := by
  unfold remoteDescriptorFetch at h
  split at h
  · cases h
  · cases h
  · split at h
    · cases h
      exact ⟨rfl, (holds_writeBytes _ _ _).of_isPrefix hlies⟩
    · cases h

theorem resumesFrom_fetch {d : ParentDescriptor} (hlen : d.serializationBufLen L ≤ reply.sz)
    (hlies : d.image L <+: readBytes s.parent.memory reply.pa reply.sz)
    (huncached : f.pageCache = true → cache.lookup machineId key = none)
    (hkept : (syscallResumeWRpc f L cache pool none machineId key
      (fetchEnv s reply landing env)).2.1 = some r) :
    ResumesFrom f L cache pool machineId key (fetchEnv s reply landing env) d r := by
  refine ⟨?_, huncached, hkept⟩
  obtain ⟨-, -, -, -, ⟨b, m, hfetched, -⟩, -⟩ := eq_of_syscallResumeWRpc hkept
  obtain ⟨hb, hholds⟩ := remoteDescriptorFetch_holds hlies hfetched
  exact ⟨b, m, hfetched, hb ▸ hlen, hholds⟩

end Child

/-- In every interleaving of the parent's calls with any number of children in which a
descriptor that is told of fits its buffer and nothing writes to advertised bytes between the
reply and the READ, a child whose system call succeeds in fetching has the registers and the
areas of a process that was registered under its key.  Every fault of it on a page that the
process had reads the frame that the prepare recorded, the page itself or its copy, and every
other fault finds no page. -/
theorem fetched_child_runs_prepared {f : Features} {L : Layout} {sz : ℕ} {start : ForkState sz}
    (hempty : start.parent.registered = ∅)
    (hpool : start.parent.memPool.pool.Pairwise RMemory.Apart) (hreplies : start.replies = ∅)
    {as : List (ForkAction sz)} (has : (forkMachine f L).Always (Undisturbed L) start as)
    (hcopies : (forkMachine f L).Always (fun _ a => CopiesToPages a) start as)
    {child key : ℕ} {reply : DescriptorLookupReply}
    (hreply : ((forkMachine f L).run start as).replies.lookup child = some (key, reply))
    {cache : RemotePageTableCache} {pool : DCPool} {machineId : ℕ} {landing : Landing}
    {env : ResumeEnv} {r : ResumeData}
    (huncached : f.pageCache = true → cache.lookup machineId key = none)
    (hkept : (syscallResumeWRpc f L cache pool none machineId key
      (fetchEnv ((forkMachine f L).run start as) reply landing env)).2.1 = some r) :
    ∃ space regs frame, PreparedIn f L start as key space regs frame ∧
      (OffsetsFit space → ∀ alloc actions,
        (childMachine f alloc).Always (ReadsSucceed f alloc) r.child actions →
        (childMachine f alloc).Always (NotRevisited f) r.child actions →
        ShowsProcess f alloc space regs (fun _ _ => True)
          (fun p report => report = .installed (.remote (frame p))) r.child actions) := by
  obtain ⟨space, regs, frame, word, d, hin, hrecords, hlen, hlies⟩ :=
    told_run hempty hpool hreplies has hcopies hreply
  have hresumes := resumesFrom_fetch hlen hlies huncached hkept
  obtain ⟨rdma, hdescribes⟩ := hrecords.describes
  refine ⟨space, regs, frame, hin, fun hfit alloc actions hreads hfresh => ?_⟩
  refine hresumes.showsProcess hdescribes hrecords.fits hrecords.remote hfit hreads hfresh ?_
  intro a ha p hp hpres _
  rw [hrecords.decoded a ha p hp hpres]

end Mitosis.Resume
