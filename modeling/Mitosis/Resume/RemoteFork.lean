import Mitosis.Resume.FetchedProcess
import Mitosis.Support.Components

/-!
# Fork from another machine

The parent's machine as a whole: its service, which registers the prepared processes and
tells children where their descriptors lie, and the memory of its processes, whose frames the
children READ.  A prepare is one step of both.  Unregistering takes the process out of the
service at once and starts to give its pages back.

In every run, a child that was told of a descriptor, fetched it and resumed shows the memory
of a process of this machine, as it was when that process was prepared under the child's key.
-/

namespace Mitosis.Resume

open Support Descriptors OsNetwork Prefetcher RemoteMapping PageFault Shadow

/-- The machine of the parents: the service with the children that have a reply, the memory
with what is kept of the prepared processes, and the target that each key is bound to. -/
structure ParentSite (α : Type) (sz : ℕ) where
  fork : ForkState sz
  pages : ParentNode α
  targets : AList fun _ : ℕ => ℕ

/-- The calls of the service and the steps of dropping a process, what the kernel and other
processes do to memory, and the steps of the children. -/
inductive SiteAction {α : Type} (K : MemoryKernel ProcessPage ℕ α) (sz : ℕ) where
  | addMyselfCopy (pid key : ℕ) (alloc : ℕ → Option ℕ) (space : AddressSpace)
      (regs : RegDescriptor) (fresh : ℕ → RMemory sz)
  | addMyselfCow (pid key : ℕ) (space : AddressSpace) (regs : RegDescriptor)
      (fresh : ℕ → RMemory sz)
  | unregister (key : ℕ)
  | dropPage (target : ℕ)
  | dropTarget (target : ℕ)
  | kernel (a : K.Step)
  | write (memory : Memory)
  | query (child cpu key : ℕ)
  | fetch (child : ℕ) (landing : Landing) (cache : RemotePageTableCache) (pool : DCPool)
      (machineId : ℕ) (env : ResumeEnv)
  | read (target frame : ℕ)

inductive SiteOutput (α : Type) where
  | pages (o : ParentOutput α)
  | fork (o : ForkOutput)
deriving DecidableEq

def SiteOutput.isPrepared {α : Type} : SiteOutput α → Bool
  | .pages (.prepared _) => true
  | _ => false

/-- How a child reaches the target of a registered process. -/
def ForkState.machineInfo {sz : ℕ} (s : ForkState sz) (key : ℕ) : RDMADescriptor :=
  ((s.parent.queryDescriptor key).map ParentDescriptor.machineInfo).getD default

section Machine

variable (f : Features) (L : Layout) {α : Type} (K : MemoryKernel ProcessPage ℕ α) {sz : ℕ}

namespace ParentSite

/-- A prepare takes effect if the service registers the process and the walk through its
pages is the one of a process. -/
def prepare (s : ParentSite α sz) (key : ℕ) (a : ServiceAction sz)
    (walk : RDMADescriptor → ParentAction K) : ParentSite α sz × SiteOutput α :=
  match (forkMachine f L).step s.fork (.service a) with
  | (fork, .service (.ok (some _))) =>
    match (parentMachine K).step s.pages (walk (fork.machineInfo key)) with
    | (pages, .prepared t) => (⟨fork, pages, s.targets.insert key t⟩, .pages (.prepared t))
    | (_, o) => (s, .pages o)
  | (_, o) => (s, .fork o)

def onFork (s : ParentSite α sz) (a : ForkAction sz) : ParentSite α sz × SiteOutput α :=
  let (fork, o) := (forkMachine f L).step s.fork a
  ({ s with fork := fork }, .fork o)

def onPages (s : ParentSite α sz) (a : ParentAction K) : ParentSite α sz × SiteOutput α :=
  let (pages, o) := (parentMachine K).step s.pages a
  ({ s with pages := pages }, .pages o)

end ParentSite

def siteMachine : Machine (ParentSite α sz) (SiteAction K sz) (SiteOutput α) where
  step s
    | .addMyselfCopy pid key alloc space regs fresh =>
      s.prepare f L K key (.addMyselfCopy key alloc space regs fresh)
        (.prepareCopy pid space alloc regs)
    | .addMyselfCow pid key space regs fresh =>
      s.prepare f L K key (.addMyselfCow key space regs fresh) (.prepareCow pid space regs)
    | .unregister key =>
      let (fork, o) := (forkMachine f L).step s.fork (.service (.unregister key))
      match s.targets.lookup key with
      | none => ({ s with fork := fork }, .fork o)
      | some t =>
        (⟨fork, ((parentMachine K).step s.pages (.unregister t)).1, s.targets.erase key⟩,
          .fork o)
    | .dropPage target => s.onPages K (.dropPage target)
    | .dropTarget target => s.onPages K (.dropTarget target)
    | .kernel a => s.onPages K (.kernel a)
    | .write memory => s.onFork f L (.service (.write memory))
    | .query child cpu key => s.onFork f L (.query child cpu key)
    | .fetch child landing cache pool machineId env =>
      s.onFork f L (.fetch child landing cache pool machineId env)
    | .read target frame => s.onPages K (.read target frame)

/-! ## The two components -/

/-- What a step makes the service and the children do. -/
def forkPart (s : ParentSite α sz) : SiteAction K sz → Option (ForkAction sz)
  | .addMyselfCopy pid key alloc space regs fresh =>
    let a := ServiceAction.addMyselfCopy key alloc space regs fresh
    if (s.prepare f L K key a (.prepareCopy pid space alloc regs)).2.isPrepared then
      some (.service a)
    else none
  | .addMyselfCow pid key space regs fresh =>
    let a := ServiceAction.addMyselfCow key space regs fresh
    if (s.prepare f L K key a (.prepareCow pid space regs)).2.isPrepared then some (.service a)
    else none
  | .unregister key => some (.service (.unregister key))
  | .write memory => some (.service (.write memory))
  | .query child cpu key => some (.query child cpu key)
  | .fetch child landing cache pool machineId env =>
    some (.fetch child landing cache pool machineId env)
  | .dropPage _ | .dropTarget _ | .kernel _ | .read _ _ => none

/-- What a step does to the memory of the processes. -/
def pagesPart (s : ParentSite α sz) : SiteAction K sz → Option (ParentAction K)
  | .addMyselfCopy pid key alloc space regs fresh =>
    let a := ServiceAction.addMyselfCopy key alloc space regs fresh
    if (s.prepare f L K key a (.prepareCopy pid space alloc regs)).2.isPrepared then
      some (.prepareCopy pid space alloc regs
        (((forkMachine f L).step s.fork (.service a)).1.machineInfo key))
    else none
  | .addMyselfCow pid key space regs fresh =>
    let a := ServiceAction.addMyselfCow key space regs fresh
    if (s.prepare f L K key a (.prepareCow pid space regs)).2.isPrepared then
      some (.prepareCow pid space regs
        (((forkMachine f L).step s.fork (.service a)).1.machineInfo key))
    else none
  | .unregister key => (s.targets.lookup key).map .unregister
  | .dropPage target => some (.dropPage target)
  | .dropTarget target => some (.dropTarget target)
  | .kernel a => some (.kernel a)
  | .read target frame => some (.read target frame)
  | .write _ | .query _ _ _ | .fetch _ _ _ _ _ _ => none

variable {f L K} {s : ParentSite α sz} {key : ℕ} {a : ServiceAction sz}
  {walk : RDMADescriptor → ParentAction K}

theorem prepare_cases :
    (∃ o, s.prepare f L K key a walk = (s, o) ∧ o.isPrepared = false) ∨
      ∃ t, ((parentMachine K).step s.pages
          (walk (((forkMachine f L).step s.fork (.service a)).1.machineInfo key))).2 =
            .prepared t ∧
        s.prepare f L K key a walk =
          (⟨((forkMachine f L).step s.fork (.service a)).1,
            ((parentMachine K).step s.pages
              (walk (((forkMachine f L).step s.fork (.service a)).1.machineInfo key))).1,
            s.targets.insert key t⟩, .pages (.prepared t)) := by
  unfold ParentSite.prepare
  split
  · next fork n hfork =>
      rw [hfork]
      split
      · next pages t hpages =>
          rw [hpages]
          exact .inr ⟨t, rfl, rfl⟩
      · next pages o hnot hpages =>
          refine .inl ⟨_, rfl, ?_⟩
          cases o with
          | prepared t => exact absurd rfl (hnot t)
          | _ => rfl
  · exact .inl ⟨_, rfl, rfl⟩

theorem exists_of_isPrepared (h : (s.prepare f L K key a walk).2.isPrepared = true) :
    ∃ t, (s.prepare f L K key a walk).2 = .pages (.prepared t) ∧
      ∃ rdma, ((parentMachine K).step s.pages (walk rdma)).2 = .prepared t ∧
        (s.prepare f L K key a walk).1.pages = ((parentMachine K).step s.pages (walk rdma)).1 := by
  rcases prepare_cases (s := s) (f := f) (L := L) with ⟨o, heq, ho⟩ | ⟨t, hpages, heq⟩
  · rw [heq, ho] at h
    cases h
  · rw [heq]
    exact ⟨t, rfl, _, hpages, rfl⟩

theorem fork_prepare :
    (s.prepare f L K key a walk).1.fork = (forkMachine f L).run s.fork
      (if (s.prepare f L K key a walk).2.isPrepared then some (.service a) else none).toList := by
  rcases prepare_cases (s := s) (f := f) (L := L) with ⟨o, heq, ho⟩ | ⟨t, -, heq⟩
  · rw [heq, ho]
    rfl
  · rw [heq]
    rfl

theorem pages_prepare :
    (s.prepare f L K key a walk).1.pages = (parentMachine K).run s.pages
      (if (s.prepare f L K key a walk).2.isPrepared then
        some (walk (((forkMachine f L).step s.fork (.service a)).1.machineInfo key))
      else none).toList := by
  rcases prepare_cases (s := s) (f := f) (L := L) with ⟨o, heq, ho⟩ | ⟨t, -, heq⟩
  · rw [heq, ho]
    rfl
  · rw [heq]
    rfl

variable (f L K)

/-- The service and the children are a component. -/
def forkComponent :
    Component (siteMachine f L K : Machine (ParentSite α sz) _ _)
      (forkMachine f L : Machine (ForkState sz) _ _) where
  state := ParentSite.fork
  part := forkPart f L K
  state_step s a := by
    cases a with
    | addMyselfCopy pid key alloc space regs fresh => exact fork_prepare
    | addMyselfCow pid key space regs fresh => exact fork_prepare
    | unregister key =>
      dsimp only [siteMachine, forkPart]
      split <;> rfl
    | _ => rfl

/-- The memory of the processes is a component. -/
def pagesComponent :
    Component (siteMachine f L K : Machine (ParentSite α sz) _ _)
      (parentMachine K) where
  state := ParentSite.pages
  part := pagesPart f L K
  state_step s a := by
    cases a with
    | addMyselfCopy pid key alloc space regs fresh => exact pages_prepare
    | addMyselfCow pid key space regs fresh => exact pages_prepare
    | unregister key =>
      dsimp only [siteMachine, pagesPart]
      cases s.targets.lookup key with
      | none => rfl
      | some t => rfl
    | _ => rfl

end Machine

/-! ## Prepares of the whole machine -/

section Runs

variable {f : Features} {L : Layout} {α : Type} {K : MemoryKernel ProcessPage ℕ α} {sz : ℕ}

/-- The action prepares the process `pid` under the key.  What a child shows of it are all
pages of a copy, and of a process that is copied on write those that may be written and are
not of a file. -/
inductive SitePrepares (s : ParentSite α sz) (pid key : ℕ) (space : AddressSpace)
    (regs : RegDescriptor) : (Area → PteEntry → Prop) → SiteAction K sz → Prop where
  | copy (alloc : ℕ → Option ℕ) (fresh : ℕ → RMemory sz) :
      SitePrepares s pid key space regs (fun _ _ => True)
        (.addMyselfCopy pid key alloc space regs fresh)
  | cow (fresh : ℕ → RMemory sz) :
      SitePrepares s pid key space regs
        (fun a p => hasWritePermission a.vma = true ∧ s.pages.memory.ofFile p.frame = false)
        (.addMyselfCow pid key space regs fresh)

/-- The target keeps what the process saw in its pages, as far as `covered` goes, at the
frames that a child reads. -/
def Keeps (s s' : ParentSite α sz) (pid t : ℕ) (space : AddressSpace) (frame : PteEntry → ℕ)
    (covered : Area → PteEntry → Prop) : Prop :=
  ∀ a ∈ space.areas, ∀ p ∈ a.ptes, p.present = true → covered a p →
    ∃ c, sees s.pages.memory pid p.addr = some c ∧ Shadow.Holds t (frame p) c s'.pages

theorem keeps_of_prepares {s : ParentSite α sz} (hs : Accounted s.pages) {key : ℕ}
    {space : AddressSpace} {regs : RegDescriptor} {frame : PteEntry → ℕ} {act : ForkAction sz}
    (hprepares : Prepares key space regs frame act) (hcopies : CopiesToPages act)
    {a : SiteAction K sz} (ha : act ∈ forkPart f L K s a) :
    ∃ pid t covered, SitePrepares s pid key space regs covered a ∧
      ((siteMachine f L K).step s a).2 = .pages (.prepared t) ∧
      Keeps s ((siteMachine f L K).step s a).1 pid t space frame covered := by
  cases hprepares with
  | copy alloc fresh =>
    cases a with
    | addMyselfCopy pid key alloc space regs fresh =>
      obtain ⟨hprepared, heq⟩ := Option.ite_none_right_eq_some.mp ha
      cases heq
      obtain ⟨t, hout, rdma, hpages, hstep⟩ := exists_of_isPrepared hprepared
      refine ⟨pid, t, _, .copy alloc fresh, hout, fun a ha p hp hpres _ => ?_⟩
      obtain ⟨c, hsees, hholds⟩ := hs.holds_prepareCopy hcopies hpages ha hp hpres
      obtain ⟨-, sp, hnew, -⟩ := step_prepareCopy hpages
      rw [(records_newCopy hcopies hnew).decoded a ha p hp hpres, ← hstep] at hholds
      exact ⟨c, hsees, hholds⟩
    | addMyselfCow pid key space regs fresh =>
      cases (Option.ite_none_right_eq_some.mp ha).2
    | _ => cases ha
  | cow fresh =>
    cases a with
    | addMyselfCow pid key space regs fresh =>
      obtain ⟨hprepared, heq⟩ := Option.ite_none_right_eq_some.mp ha
      cases heq
      obtain ⟨t, hout, rdma, hpages, hstep⟩ := exists_of_isPrepared hprepared
      refine ⟨pid, t, _, .cow fresh, hout, fun a ha p hp hpres hcovered => ?_⟩
      obtain ⟨c, hsees, hholds⟩ :=
        hs.holds_prepareCow hpages ha hp hpres hcovered.1 hcovered.2
      rw [← hstep] at hholds
      exact ⟨c, hsees, hholds⟩
    | addMyselfCopy pid key alloc space regs fresh =>
      cases (Option.ite_none_right_eq_some.mp ha).2
    | _ => cases ha

theorem eq_dropPage_of_mem_part {s : ParentSite α sz} {a : SiteAction K sz} {t : ℕ}
    (h : .dropPage t ∈ pagesPart f L K s a) : a = .dropPage t := by
  cases a with
  | addMyselfCopy pid key alloc space regs fresh =>
    cases (Option.ite_none_right_eq_some.mp h).2
  | addMyselfCow pid key space regs fresh => cases (Option.ite_none_right_eq_some.mp h).2
  | unregister key =>
    obtain ⟨t', -, heq⟩ := Option.map_eq_some_iff.mp h
    cases heq
  | dropPage target =>
    cases h
    rfl
  | _ => cases h

/-- A frame that is kept is found by every READ through the target, as long as the process
gives no page back. -/
theorem keeps_reads {s : ParentSite α sz} (hs : Accounted s.pages) {t frame : ℕ} {c : α}
    (h : Shadow.Holds t frame c s.pages) {as : List (SiteAction K sz)}
    (has : .dropPage t ∉ as) :
    (siteMachine f L K).Always (fun u act => act = .read t frame →
      ((siteMachine f L K).step u act).2 = .pages (.read (some c))) s as := by
  have hparts : .dropPage t ∉ (pagesComponent f L K).parts s as := by
    intro hmem
    obtain ⟨s', a, ha, hpart⟩ := (pagesComponent f L K).exists_of_mem_parts hmem
    exact has (eq_dropPage_of_mem_part hpart ▸ ha)
  have hreads := (pagesComponent f L K).always_parts.mp (h.reads hs hparts)
  refine Machine.always_of_invariant (fun _ => True) (fun u act _ hact => ⟨trivial, ?_⟩) trivial
    hreads
  rintro rfl
  exact congrArg SiteOutput.pages (hact _ rfl rfl)

end Runs

/-! ## From the key to the pages -/

theorem ShowsProcess.mono {f : Features} {alloc : PageAllocator} {space : AddressSpace}
    {regs : RegDescriptor} {covered covered' : Area → PteEntry → Prop}
    {shows shows' : PteEntry → FaultReport → Prop} {c₀ : Child} {actions : List ChildAction}
    (h : ShowsProcess f alloc space regs covered shows c₀ actions)
    (hmono : ∀ a ∈ space.areas, ∀ p ∈ a.ptes, p.present = true → covered' a p →
      covered a p ∧ ∀ report, shows p report → shows' p report) :
    ShowsProcess f alloc space regs covered' shows' c₀ actions where
  regs := h.regs
  vma := h.vma
  page := by
    refine Machine.always_of_invariant (fun _ => True) (fun c act _ hact => ⟨trivial, ?_⟩)
      trivial h.page
    intro fault env heq a ha p hp hpres hpage hcovered
    obtain ⟨hcov, hshows⟩ := hmono a ha p hp hpres hcovered
    exact hshows _ (hact fault env heq a ha p hp hpres hpage hcov)
  noPage := h.noPage

/-- A parent's machine on which nothing runs yet. -/
def ParentSite.boot {α : Type} {sz : ℕ} (start : ForkState sz) (content : ℕ → α)
    (ofFile : ℕ → Bool) : ParentSite α sz :=
  ⟨start, .boot content ofFile, ∅⟩

theorem accounted_pages {f : Features} {L : Layout} {α : Type} {K : MemoryKernel ProcessPage ℕ α}
    {sz : ℕ} (start : ForkState sz) (content : ℕ → α) (ofFile : ℕ → Bool)
    (as : List (SiteAction K sz)) :
    Accounted ((siteMachine f L K).run (.boot start content ofFile) as).pages := by
  have hpages := (pagesComponent f L K).state_run (.boot start content ofFile) as
  change ((siteMachine f L K).run _ as).pages = _ at hpages
  rw [hpages]
  exact accounted_run content ofFile _

/-- A descriptor that is told of fits its buffer, nothing writes to advertised bytes between a
reply and its READ, and copies are put into pages. -/
def Quiet (f : Features) (L : Layout) {α : Type} {K : MemoryKernel ProcessPage ℕ α} {sz : ℕ}
    (s : ParentSite α sz) (a : SiteAction K sz) : Prop :=
  ∀ b ∈ forkPart f L K s a, Undisturbed L s.fork b ∧ CopiesToPages b

/-- The report of a fault shows what a process saw in its page in the state `s`: every READ of
the reported frame through the target, from the state `s'` on, finds that. -/
def SiteShows (f : Features) (L : Layout) {α : Type} {K : MemoryKernel ProcessPage ℕ α} {sz : ℕ}
    (s s' : ParentSite α sz) (later : List (SiteAction K sz)) (target pid addr : ℕ)
    (report : FaultReport) : Prop :=
  ∃ frame, report = .installed (.remote frame) ∧
    (siteMachine f L K).Always (fun u act => act = .read target frame →
      ((siteMachine f L K).step u act).2 = .pages (.read (sees s.pages.memory pid addr))) s' later

/-- The parent's machine without further features. -/
abbrev plainSite :
    Machine (ParentSite ℕ 4096) (SiteAction sampleMemoryKernel 4096) (SiteOutput ℕ) :=
  siteMachine ⟨false, false, false⟩ Layout.packed sampleMemoryKernel

def siteStart : ParentSite ℕ 4096 := .boot forkStart (fun _ => 0) fun _ => false

/-- A process touches a page, which then has the content 7. -/
def siteTouch : SiteAction sampleMemoryKernel 4096 := .kernel (.touch ⟨1, 0x10000000000⟩ 0x5000 7)

theorem pageBuffer_inMemory : 4096 ≤ 2 ^ 32 := by decide

/-- It is prepared under key 7. -/
def sitePrepare : SiteAction sampleMemoryKernel 4096 :=
  .addMyselfCow 1 7 sampleSpace sampleRegs fun _ => nextBuffer 4096 pageBuffer_inMemory

/-- A child asks for the key. -/
def siteRun : List (SiteAction sampleMemoryKernel 4096) := [siteTouch, sitePrepare, .query 0 0 7]

/-- The process writes to its page and unmaps it, and the child READs the frame. -/
def siteWrites : List (SiteAction sampleMemoryKernel 4096) :=
  [.kernel (.write ⟨1, 0x10000000000⟩ (fun _ => 8) 0x6000), .read 0 0x5000,
    .kernel (.unmap ⟨1, 0x10000000000⟩), .read 0 0x5000]

def siteReply : DescriptorLookupReply := ⟨0x10000, 320, true, 5, 4, (2, 3), 0, 73⟩

theorem lookup_siteRun :
    (plainSite.run siteStart siteRun).fork.replies.lookup 0 = some (7, siteReply) := by
  decide +kernel

/-- What the handler of the child keeps, if anything. -/
abbrev siteKept : Option ResumeData :=
  (syscallResumeWRpc ⟨false, false, false⟩ Layout.packed ⟨∅⟩ ⟨[]⟩ none 1 7
    (fetchEnv (plainSite.run siteStart siteRun).fork siteReply ⟨some 0x20000, fun _ => 0, none⟩
      ⟨none, .error .absent, none, some ⟨0, 0, 0⟩, some ⟨0, 0, 0⟩, true⟩)).2.1

theorem isSome_siteKept : siteKept.isSome = true := by
  decide +kernel

theorem quiet_siteRun :
    plainSite.Always (Quiet ⟨false, false, false⟩ Layout.packed) siteStart siteRun := by
  refine ⟨fun b hb => ?_, fun b hb => ?_, fun b hb => ?_, trivial⟩
  · cases hb
  · rw [sitePrepare, forkPart] at hb
    cases (Option.ite_none_right_eq_some.mp hb).2
    refine ⟨⟨freshBuffers_forkStart, fun child key d hd => ?_⟩, trivial⟩
    cases hd
  · cases hb
    refine ⟨fun b hb => ?_, trivial⟩
    have hfits : ((plainSite.run siteStart [siteTouch, sitePrepare]).fork.parent.registered.lookup
        7).all (fun b => decide (b.serializedBufLen ≤ 4096)) = true := by
      decide +kernel
    rw [show (plainSite.run siteStart [siteTouch, sitePrepare]).fork.parent.registered.lookup 7 =
      some b from hb] at hfits
    exact of_decide_eq_true hfits

end Mitosis.Resume
