import Mitosis.Support.Processes

/-!
# Caching namespaces

A process between enters new namespaces and forks a process that only keeps them; it reports
that process's number through a pipe.  Here the first process closes the write end before it
reads, so it does not wait for a process that is gone: the read comes to the end of the pipe,
nobody looks, and what is returned was never set.
-/

namespace Mitosis.LeanContainer

open Mitosis.Support

inductive SysCall where
  | unshare
  | chroot
  | mountProc
  | waitAny
deriving DecidableEq, Repr

/-- Programs with numbers in the pipes, which return a number unless the variable was never
set. -/
abbrev Program := Prog SysCall ℤ (Option ℤ)

/-- The end of `unshare_and_fork`. -/
def reportAndExit (q : ℕ) (pid : ℤ) : Program := .write q pid (.close .write q .exit)

/-- The process that keeps the namespaces. -/
def keepNamespaces (q : ℕ) (rootfs : Bool) : Program :=
  .close .write q (if rootfs then .call .mountProc fun _ => .pause else .pause)

/-- The part of `unshare_and_fork` behind `chroot`. -/
def unshareThenFork (q : ℕ) (rootfs : Bool) : Program :=
  .call .unshare fun unshared =>
    if unshared then
      .fork (keepNamespaces q rootfs) fun
        | none => reportAndExit q (-1)
        | some pid => reportAndExit q pid
    else reportAndExit q (-1)

/-- `unshare_and_fork`; the assertion behind it ends the process if `chroot` fails. -/
def unshareAndFork (q : ℕ) (rootfs : Bool) : Program :=
  .close .read q
    (if rootfs then
      .call .chroot fun changed => if changed then unshareThenFork q rootfs else .exit
    else unshareThenFork q rootfs)

/-- `setup_cached_namespace`; if the fork fails its result is not 0 either. -/
def setupCachedNamespace (rootfs : Bool) : Program :=
  .pipe fun
    | none => .done (some (-1))
    | some q =>
      .fork (unshareAndFork q rootfs) fun
        | none => .close .write q (.read q fun target =>
          .call .waitAny fun _ => .close .read q (.done target))
        | some pid => .close .write q (.read q fun target =>
          .wait pid fun _ => .close .read q (.done target))

/-- What has happened when a process starts such a program. -/
abbrev ran (prog : Program) (as : List ProcAction) : ProcSystem SysCall ℤ (Option ℤ) :=
  (procMachine SysCall ℤ (Option ℤ)).run (ProcSystem.start prog) as

/-! ## What is reported -/

abbrev Log := ProcLog SysCall ℤ

theorem prefix_record {p : ℕ} {log log' : Log} (h : Later p log log')
    (e : ProcEvent SysCall ℤ) : log <+: log' ++ [(p, e)] :=
  h.1.trans (List.prefix_append _ _)

/-- What the first `chroot` of a process returned. -/
def firstChroot (log : Log) (pid : ℕ) : Option Bool :=
  (own pid log).findSome? fun
    | .called .chroot ok => some ok
    | _ => none

theorem firstChroot_mono {log log' : Log} (h : log <+: log') {pid : ℕ} {ok : Bool}
    (hok : firstChroot log pid = some ok) : firstChroot log' pid = some ok :=
  findSome?_mono (own_mono h pid) hok

/-- A process is in the new root, if there is one. -/
def InRoot (rootfs : Bool) (m : ℕ) (log : Log) : Prop :=
  rootfs = true → firstChroot log m = some true

theorem InRoot.mono {rootfs : Bool} {m : ℕ} {log log' : Log} (h : InRoot rootfs m log)
    (hl : log <+: log') : InRoot rootfs m log' :=
  fun hr => firstChroot_mono hl (h hr)

/-- The process between reports that it failed, or the process that it has forked in new
namespaces. -/
def NamespaceReport (rootfs : Bool) (v : ℤ) (log : Log) : Prop :=
  ∃ m, firstFork log 0 = some m ∧ InRoot rootfs m log ∧
    (v = -1 ∨ ∃ c : ℕ, v = c ∧ firstFork log m = some c ∧ .called .unshare true ∈ own m log)

theorem NamespaceReport.mono {rootfs : Bool} {v : ℤ} {log log' : Log}
    (h : NamespaceReport rootfs v log) (hl : log <+: log') : NamespaceReport rootfs v log' := by
  obtain ⟨m, hm, hroot, hv⟩ := h
  refine ⟨m, firstFork_mono hl hm, hroot.mono hl, hv.imp id ?_⟩
  rintro ⟨c, rfl, hc, hunshare⟩
  exact ⟨c, rfl, firstFork_mono hl hc, (own_mono hl m).subset hunshare⟩

def namespaceProtocol (rootfs : Bool) : Protocol SysCall ℤ (Option ℤ) where
  carries _ v log := NamespaceReport rootfs v log
  carries_mono hl h := h.mono hl
  post pid r log := pid = 0 →
    r = none ∨ (r = some (-1) ∧ firstFork log 0 = none) ∨
      ∃ v, r = some v ∧ NamespaceReport rootfs v log

section Parts

variable {rootfs : Bool} {m q : ℕ} {ends : Finset (PipeEnd × ℕ)} {log : Log}

theorem safe_reportAndExit {v : ℤ} (h : NamespaceReport rootfs v log) :
    Safe (namespaceProtocol rootfs) (reportAndExit q v) m ends log :=
  fun _ hl => ⟨fun _ => ⟨h.mono (prefix_record hl _), trivial⟩, fun _ => trivial⟩

theorem safe_keepNamespaces :
    Safe (namespaceProtocol rootfs) (keepNamespaces q rootfs) m ends log := by
  rw [keepNamespaces, Safe]
  split
  · exact fun _ _ _ => trivial
  · exact trivial

theorem safe_unshareThenFork (hm : firstFork log 0 = some m) (hroot : InRoot rootfs m log)
    (hnone : firstFork log m = none) :
    Safe (namespaceProtocol rootfs) (unshareThenFork q rootfs) m ends log := by
  intro log₁ hl₁ unshared
  have hrecord := prefix_record hl₁ (.called .unshare unshared)
  have hfail : ∀ log', log <+: log' → NamespaceReport rootfs (-1) log' := fun log' hp =>
    ⟨m, firstFork_mono hp hm, hroot.mono hp, .inl rfl⟩
  cases unshared with
  | false => exact safe_reportAndExit (hfail _ hrecord)
  | true =>
    intro log₂ hl₂
    refine ⟨safe_reportAndExit (hfail _ (hrecord.trans hl₂.1)), fun c _ _ _ =>
      ⟨safe_keepNamespaces, safe_reportAndExit ?_⟩⟩
    have hp := hrecord.trans (prefix_record hl₂ (.forked c))
    refine ⟨m, firstFork_mono hp hm, hroot.mono hp, .inr ⟨c, rfl, ?_, ?_⟩⟩
    · rw [firstFork] at hnone ⊢
      rw [own_record, hl₂.2, own_record, hl₁.2, List.findSome?_append, List.findSome?_append,
        hnone]
      rfl
    · rw [own_record, hl₂.2, own_record]
      simp

theorem safe_unshareAndFork (hm : firstFork log 0 = some m) (hown : own m log = []) :
    Safe (namespaceProtocol rootfs) (unshareAndFork q rootfs) m ends log := by
  rw [unshareAndFork, Safe]
  cases rootfs with
  | false =>
    refine safe_unshareThenFork hm (fun h => absurd h Bool.false_ne_true) ?_
    rw [firstFork, hown]
    rfl
  | true =>
    intro log₁ hl₁ changed
    cases changed with
    | false => exact trivial
    | true =>
      refine safe_unshareThenFork (firstFork_mono (prefix_record hl₁ _) hm)
        (fun _ => ?_) ?_
      · rw [firstChroot, own_record, hl₁.2, hown]
        rfl
      · rw [firstFork, own_record, hl₁.2, hown]
        rfl

end Parts

theorem safe_setupCachedNamespace (rootfs : Bool) :
    Safe (namespaceProtocol rootfs) (setupCachedNamespace rootfs) 0 ∅ [] := by
  have hreturn : ∀ log, Safe (namespaceProtocol rootfs) (.done none) 0 ∅ log :=
    fun _ _ _ _ => .inl rfl
  intro log₁ hl₁
  have hown₁ : own 0 log₁ = [] := hl₁.2
  constructor
  · refine fun log' hl _ => .inr (.inl ⟨rfl, ?_⟩)
    rw [firstFork_of_later hl, firstFork, hown₁]
    rfl
  intro q _ log₂ hl₂
  have hown₂ : own 0 log₂ = [.piped q] := by rw [hl₂.2, own_record, hown₁, List.nil_append]
  constructor
  · -- Nothing is reported to a process that has not forked.
    intro log₃ hl₃
    refine ⟨fun v hv => ?_, fun _ log' _ _ => hreturn _, fun log' _ _ => hreturn _⟩
    obtain ⟨m, hm, -⟩ := hv
    rw [firstFork, hl₃.2, hown₂] at hm
    exact absurd hm.symm (Option.some_ne_none _)
  intro m hpos _ hnew
  constructor
  · refine safe_unshareAndFork ?_ ?_
    · rw [firstFork, own_record, hown₂]
      rfl
    · rw [own_record_of_ne hpos.ne, own_eq_nil hnew]
  · exact fun log₃ hl₃ => ⟨fun v hv _ log' hl _ => .inr (.inr ⟨v, rfl, hv.mono hl.1⟩),
      fun _ _ => hreturn _, fun _ => hreturn _⟩

/-- In every order of the steps, and whoever is killed: a number that is returned is -1 or that
of a process which was forked in new namespaces, behind a `chroot` that succeeded.  If `chroot`
fails, whatever is returned was never set. -/
theorem cached_namespace_returned (rootfs : Bool) (as : List ProcAction) :
    (∀ v, (ran (setupCachedNamespace rootfs) as).Returned 0 (some v) → v = -1 ∨
        ∃ m c : ℕ, v = c ∧ firstFork (ran (setupCachedNamespace rootfs) as).log m = some c ∧
          .called .unshare true ∈ own m (ran (setupCachedNamespace rootfs) as).log ∧
          InRoot rootfs m (ran (setupCachedNamespace rootfs) as).log) ∧
      (rootfs = true → ∀ m, firstFork (ran (setupCachedNamespace rootfs) as).log 0 = some m →
        firstChroot (ran (setupCachedNamespace rootfs) as).log m = some false →
        ∀ r bs, (ran (setupCachedNamespace rootfs) (as ++ bs)).Returned 0 r → r = none) := by
  have hpost : ∀ {as pid r}, (ran (setupCachedNamespace rootfs) as).Returned pid r →
      (namespaceProtocol rootfs).post pid r (ran (setupCachedNamespace rootfs) as).log :=
    ProcSystem.post_of_returned (safe_setupCachedNamespace rootfs)
  refine ⟨fun v h => ?_, fun hrootfs m hm hchroot r bs h => ?_⟩
  · obtain hr | ⟨hr, -⟩ | ⟨v', hr, m, -, hroot, hv⟩ := hpost h rfl
    · exact absurd hr (Option.some_ne_none _)
    · exact .inl (Option.some.inj hr)
    · cases Option.some.inj hr
      refine hv.imp id ?_
      rintro ⟨c, rfl, hc, hunshare⟩
      exact ⟨m, c, rfl, hc, hunshare, hroot⟩
  · have hrun : ran (setupCachedNamespace rootfs) (as ++ bs) =
        (procMachine _ _ _).run (ran (setupCachedNamespace rootfs) as) bs :=
      Machine.run_append ..
    have hpre := hrun ▸ ProcSystem.log_prefix_run _ bs
    have hm' := firstFork_mono hpre hm
    obtain hr | ⟨-, hnone⟩ | ⟨v, -, m', hfork, hroot, -⟩ := hpost h rfl
    · exact hr
    · exact absurd (hm'.symm.trans hnone) (Option.some_ne_none _)
    · cases Option.some.inj (hm'.symm.trans hfork)
      have := (hroot hrootfs).symm.trans (firstChroot_mono hpre hchroot)
      simp at this

/-- `chroot` fails, and the first process returns. -/
def sampleChrootFails : List ProcAction :=
  [.step 0 true, .step 0 true, .step 1 true, .step 1 false, .step 1 true, .step 0 true,
    .step 0 true, .step 0 true, .step 0 true]

theorem cached_namespace_returned_unset :
    (ran (setupCachedNamespace true) sampleChrootFails).Returned 0 none ∧
      ∀ r bs, (ran (setupCachedNamespace true) (sampleChrootFails ++ bs)).Returned 0 r →
        r = none :=
  ⟨by decide +kernel, (cached_namespace_returned true sampleChrootFails).2 rfl 1
    (by decide +kernel) (by decide +kernel)⟩

end Mitosis.LeanContainer
