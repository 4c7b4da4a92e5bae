import Mathlib.Data.Finset.Basic
import Mitosis.Support.Machine

/-!
# Processes that talk through pipes

Processes fork, make system calls, and read and write pipes whose ends they hold.  A process
is what it has left to do; the system takes one step of one process at a time, and which calls
succeed is for the environment to say; a read may be interrupted as well.  A process may be
killed at any time.

Every step that others can rely on is recorded.  `Safe` says of a program, by its structure,
that it does right whatever the other processes do in between: a process knows its own records
and that no record goes away, a value that it reads carries what the pipe promises, and a value
that it writes must.  It does not come to the end of a pipe while it holds the write end itself,
but it may go on without a value because its read was interrupted, and then it knows that.  If
the first program is safe, then whoever returns does so with its postcondition.
-/

namespace Mitosis.Support

/-! ## Programs -/

inductive PipeEnd where
  | read
  | write
deriving DecidableEq, Repr

/-- What a process has left to do, with calls `C` to the environment, values `V` in the pipes
and results `R`. -/
inductive Prog (C V R : Type) where
  | call (c : C) (k : Bool → Prog C V R)
  | pipe (k : Option ℕ → Prog C V R)
  | fork (child : Prog C V R) (parent : Option ℕ → Prog C V R)
  | write (q : ℕ) (v : V) (k : Prog C V R)
  | read (q : ℕ) (k : Option V → Prog C V R)
  | close (e : PipeEnd) (q : ℕ) (k : Prog C V R)
  | wait (pid : ℕ) (k : Bool → Prog C V R)
  | pause
  | exit
  | done (r : R)

/-- What is recorded of a step. -/
inductive ProcEvent (C V : Type) where
  | called (c : C) (ok : Bool)
  | piped (q : ℕ)
  | forked (child : ℕ)
  | wrote (q : ℕ) (v : V)
  | interrupted (q : ℕ)
deriving DecidableEq

/-- The records, each with the process it is of. -/
abbrev ProcLog (C V : Type) := List (ℕ × ProcEvent C V)

variable {C V R : Type}

structure Process (C V R : Type) where
  prog : Prog C V R
  ends : Finset (PipeEnd × ℕ)

/-- The processes by number, of which some have ended, the pipes by number with what is in
them, and the records. -/
structure ProcSystem (C V R : Type) where
  procs : List (Option (Process C V R))
  pipes : List (List V)
  log : ProcLog C V

namespace ProcSystem

/-- One process and nothing else. -/
def start (prog : Prog C V R) : ProcSystem C V R := ⟨[some ⟨prog, ∅⟩], [], []⟩

/-- A process that has not ended. -/
def Alive (s : ProcSystem C V R) (pid : ℕ) (p : Process C V R) : Prop :=
  s.procs[pid]? = some (some p)

def Returned (s : ProcSystem C V R) (pid : ℕ) (r : R) : Prop :=
  ∃ ends, s.Alive pid ⟨.done r, ends⟩

def result (s : ProcSystem C V R) (pid : ℕ) : Option R :=
  match s.procs[pid]? with
  | some (some ⟨.done r, _⟩) => some r
  | _ => none

theorem returned_iff {s : ProcSystem C V R} {pid : ℕ} {r : R} :
    s.Returned pid r ↔ s.result pid = some r := by
  unfold Returned Alive result
  constructor
  · rintro ⟨ends, h⟩
    rw [h]
  · split
    · next r' ends h =>
        rintro ⟨⟩
        exact ⟨ends, h⟩
    · exact fun h => absurd h.symm (Option.some_ne_none r)

instance [DecidableEq R] (s : ProcSystem C V R) (pid : ℕ) (r : R) :
    Decidable (s.Returned pid r) :=
  decidable_of_iff _ returned_iff.symm

def holdsEnd (s : ProcSystem C V R) (e : PipeEnd) (q : ℕ) : Bool :=
  s.procs.any fun p => p.any fun p => decide ((e, q) ∈ p.ends)

def goto (s : ProcSystem C V R) (pid : ℕ) (p : Process C V R) : ProcSystem C V R :=
  { s with procs := s.procs.set pid (some p) }

/-- A process ends; its ends of pipes are closed. -/
def kill (s : ProcSystem C V R) (pid : ℕ) : ProcSystem C V R :=
  { s with procs := s.procs.set pid none }

def record (s : ProcSystem C V R) (pid : ℕ) (e : ProcEvent C V) : ProcSystem C V R :=
  { s with log := s.log ++ [(pid, e)] }

def addProc (s : ProcSystem C V R) (p : Process C V R) : ProcSystem C V R :=
  { s with procs := s.procs ++ [some p] }

def addPipe (s : ProcSystem C V R) : ProcSystem C V R := { s with pipes := s.pipes ++ [[]] }

def changePipe (s : ProcSystem C V R) (q : ℕ) (f : List V → List V) : ProcSystem C V R :=
  { s with pipes := s.pipes.modify q f }

/-- A step of a process.  A read waits while the pipe is empty and somebody can write, unless
it is interrupted, and a write that nobody can read ends the process. -/
def stepProc (s : ProcSystem C V R) (pid : ℕ) (ok : Bool) (p : Process C V R) :
    ProcSystem C V R :=
  match p.prog with
  | .call c k => (s.goto pid ⟨k ok, p.ends⟩).record pid (.called c ok)
  | .pipe k =>
    if ok then
      (s.addPipe.goto pid ⟨k (some s.pipes.length), insert (.read, s.pipes.length)
        (insert (.write, s.pipes.length) p.ends)⟩).record pid (.piped s.pipes.length)
    else s.goto pid ⟨k none, p.ends⟩
  | .fork child parent =>
    if ok then
      ((s.goto pid ⟨parent (some s.procs.length), p.ends⟩).record pid
        (.forked s.procs.length)).addProc ⟨child, p.ends⟩
    else s.goto pid ⟨parent none, p.ends⟩
  | .write q v k =>
    if (.write, q) ∈ p.ends then
      if s.holdsEnd .read q then
        ((s.goto pid ⟨k, p.ends⟩).record pid (.wrote q v)).changePipe q (· ++ [v])
      else s.kill pid
    else s.goto pid ⟨k, p.ends⟩
  | .read q k =>
    if ok then
      if (.read, q) ∈ p.ends then
        match s.pipes[q]? with
        | some (v :: _) => (s.goto pid ⟨k (some v), p.ends⟩).changePipe q List.tail
        | _ => if s.holdsEnd .write q then s else s.goto pid ⟨k none, p.ends⟩
      else s.goto pid ⟨k none, p.ends⟩
    else (s.goto pid ⟨k none, p.ends⟩).record pid (.interrupted q)
  | .close e q k => s.goto pid ⟨k, p.ends.erase (e, q)⟩
  | .wait c k =>
    if ok then
      match s.procs[c]? with
      | some none => s.goto pid ⟨k true, p.ends⟩
      | _ => s
    else s.goto pid ⟨k false, p.ends⟩
  | .pause => s
  | .exit => s.kill pid
  | .done _ => s

end ProcSystem

/-- A process takes a step, and its call succeeds or not, or a process is killed. -/
inductive ProcAction where
  | step (pid : ℕ) (ok : Bool)
  | kill (pid : ℕ)

def procMachine (C V R : Type) : Machine (ProcSystem C V R) ProcAction Unit where
  step s
    | .step pid ok =>
      match s.procs[pid]? with
      | some (some p) => (s.stepProc pid ok p, ())
      | _ => (s, ())
    | .kill pid => (s.kill pid, ())

/-! ## What a process knows of the records -/

def own (pid : ℕ) (log : ProcLog C V) : List (ProcEvent C V) :=
  log.filterMap fun e => if e.1 = pid then some e.2 else none

theorem own_append (pid : ℕ) (log ext : ProcLog C V) :
    own pid (log ++ ext) = own pid log ++ own pid ext :=
  List.filterMap_append

@[simp] theorem own_record (pid : ℕ) (log : ProcLog C V) (e : ProcEvent C V) :
    own pid (log ++ [(pid, e)]) = own pid log ++ [e] := by
  rw [own_append]
  simp [own]

theorem own_record_of_ne {pid pid' : ℕ} (h : pid' ≠ pid) (log : ProcLog C V)
    (e : ProcEvent C V) : own pid (log ++ [(pid', e)]) = own pid log := by
  rw [own_append]
  simp [own, h]

/-- Others have gone on. -/
def Later (pid : ℕ) (log log' : ProcLog C V) : Prop :=
  log <+: log' ∧ own pid log' = own pid log

variable {pid : ℕ} {log log' : ProcLog C V}

theorem Later.refl (pid : ℕ) (log : ProcLog C V) : Later pid log log :=
  ⟨List.prefix_rfl, rfl⟩

theorem Later.trans {l₁ l₂ l₃ : ProcLog C V} (h : Later pid l₁ l₂)
    (h' : Later pid l₂ l₃) : Later pid l₁ l₃ :=
  ⟨h.1.trans h'.1, h'.2.trans h.2⟩

theorem later_record {pid pid' : ℕ} (h : pid' ≠ pid) (log : ProcLog C V) (e : ProcEvent C V) :
    Later pid log (log ++ [(pid', e)]) :=
  ⟨List.prefix_append _ _, own_record_of_ne h log e⟩

theorem own_mono (h : log <+: log') (pid : ℕ) :
    own pid log <+: own pid log' := by
  obtain ⟨ext, rfl⟩ := h
  rw [own_append]
  exact List.prefix_append _ _

theorem own_eq_nil {log : ProcLog C V} (h : ∀ e ∈ log, e.1 ≠ pid) :
    own pid log = [] := by
  rw [own, List.filterMap_eq_nil_iff]
  intro e he
  rw [if_neg (h e he)]

/-- The first process that a process has forked. -/
def firstFork (log : ProcLog C V) (pid : ℕ) : Option ℕ :=
  (own pid log).findSome? fun
    | .forked child => some child
    | _ => none

theorem firstFork_of_later (h : Later pid log log') :
    firstFork log' pid = firstFork log pid := by
  rw [firstFork, h.2, firstFork]

theorem findSome?_mono {α β : Type} {f : α → Option β} {l l' : List α} (h : l <+: l') {x : β}
    (hx : l.findSome? f = some x) : l'.findSome? f = some x := by
  obtain ⟨ext, rfl⟩ := h
  rw [List.findSome?_append, hx]
  rfl

theorem firstFork_mono (h : log <+: log') {pid c : ℕ}
    (hc : firstFork log pid = some c) : firstFork log' pid = some c :=
  findSome?_mono (own_mono h pid) hc

/-! ## Safe programs -/

/-- What the pipes promise of the values in them, and what a process has to return with. -/
structure Protocol (C V R : Type) where
  carries : ℕ → V → ProcLog C V → Prop
  carries_mono : ∀ {q v log log'}, log <+: log' → carries q v log → carries q v log'
  post : ℕ → R → ProcLog C V → Prop

/-- A process with this program does right, whatever the others do before each of its
steps. -/
def Safe (P : Protocol C V R) :
    Prog C V R → ℕ → Finset (PipeEnd × ℕ) → ProcLog C V → Prop
  | .call c k, pid, ends, log => ∀ log', Later pid log log' → ∀ ok,
      Safe P (k ok) pid ends (log' ++ [(pid, .called c ok)])
  | .pipe k, pid, ends, log => ∀ log', Later pid log log' →
      Safe P (k none) pid ends log' ∧
        ∀ q, (∀ e ∈ log', e.2 ≠ .piped q) →
          Safe P (k (some q)) pid (insert (.read, q) (insert (.write, q) ends))
            (log' ++ [(pid, .piped q)])
  | .fork child parent, pid, ends, log => ∀ log', Later pid log log' →
      Safe P (parent none) pid ends log' ∧
        ∀ c, 0 < c → c ≠ pid → (∀ e ∈ log', e.1 ≠ c) →
          Safe P child c ends (log' ++ [(pid, .forked c)]) ∧
            Safe P (parent (some c)) pid ends (log' ++ [(pid, .forked c)])
  | .write q v k, pid, ends, log => ∀ log', Later pid log log' →
      ((.write, q) ∈ ends → P.carries q v (log' ++ [(pid, .wrote q v)]) ∧
          Safe P k pid ends (log' ++ [(pid, .wrote q v)])) ∧
        ((.write, q) ∉ ends → Safe P k pid ends log')
  | .read q k, pid, ends, log => ∀ log', Later pid log log' →
      (∀ v, P.carries q v log' → Safe P (k (some v)) pid ends log') ∧
        ((.read, q) ∉ ends ∨ (.write, q) ∉ ends → Safe P (k none) pid ends log') ∧
          Safe P (k none) pid ends (log' ++ [(pid, .interrupted q)])
  | .close e q k, pid, ends, log => Safe P k pid (ends.erase (e, q)) log
  | .wait _ k, pid, ends, log => ∀ ok, Safe P (k ok) pid ends log
  | .pause, _, _, _ => True
  | .exit, _, _, _ => True
  | .done r, pid, _, log => ∀ log', Later pid log log' → P.post pid r log'

variable {prog : Prog C V R}

theorem Safe.later {P : Protocol C V R}
    {ends : Finset (PipeEnd × ℕ)} (h : Safe P prog pid ends log)
    (hl : Later pid log log') : Safe P prog pid ends log' := by
  induction prog generalizing ends log log' with
  | call c k ih => exact fun l hl' ok => h l (hl.trans hl') ok
  | pipe k ih => exact fun l hl' => h l (hl.trans hl')
  | fork child parent ihc ihp => exact fun l hl' => h l (hl.trans hl')
  | write q v k ih => exact fun l hl' => h l (hl.trans hl')
  | read q k ih => exact fun l hl' => h l (hl.trans hl')
  | close e q k ih => exact ih h hl
  | wait c k ih => exact fun ok => ih ok (h ok) hl
  | pause => trivial
  | exit => trivial
  | done r => exact fun l hl' => h l (hl.trans hl')

/-! ## Runs of safe programs -/

/-- Every process is safe, the pipes hold what they promise, and the records are of processes
and pipes that there are. -/
structure ProcSystem.Good (P : Protocol C V R) (s : ProcSystem C V R) : Prop where
  procs : ∀ pid p, s.Alive pid p → Safe P p.prog pid p.ends s.log
  pipes : ∀ q vs, s.pipes[q]? = some vs → ∀ v ∈ vs, P.carries q v s.log
  pids : ∀ e ∈ s.log, e.1 < s.procs.length
  opened : ∀ pid q, (pid, .piped q) ∈ s.log → q < s.pipes.length

namespace ProcSystem

variable {P : Protocol C V R} {s : ProcSystem C V R} {pid : ℕ} {p : Process C V R}

variable {p' : Process C V R}

theorem Alive.lt (h : s.Alive pid p) : pid < s.procs.length :=
  (List.getElem?_eq_some_iff.mp h).1

theorem holdsEnd_of_mem (h : s.Alive pid p) {e : PipeEnd} {q : ℕ} (he : (e, q) ∈ p.ends) :
    s.holdsEnd e q = true := by
  rw [holdsEnd, List.any_eq_true]
  exact ⟨some p, List.mem_of_getElem? h, by simpa using he⟩

theorem alive_set {s' : ProcSystem C V R} {x : Option (Process C V R)} {pid' : ℕ}
    (hs : s'.procs = s.procs.set pid x) (h : s'.Alive pid' p') :
    (pid' = pid ∧ x = some p') ∨ (pid' ≠ pid ∧ s.Alive pid' p') := by
  rw [Alive, hs, List.getElem?_set] at h
  split_ifs at h with heq hlt
  · exact .inl ⟨heq.symm, Option.some.inj h⟩
  · exact .inr ⟨fun hh => heq hh.symm, h⟩

theorem Good.goto (h : s.Good P) (hp' : Safe P p'.prog pid p'.ends s.log) :
    (s.goto pid p').Good P where
  procs pid' p'' halive := by
    obtain ⟨rfl, hx⟩ | ⟨-, hold⟩ := alive_set rfl halive
    · cases hx
      exact hp'
    · exact h.procs pid' p'' hold
  pipes := h.pipes
  pids e he := (h.pids e he).trans_eq (List.length_set ..).symm
  opened := h.opened

theorem Good.kill (h : s.Good P) (pid : ℕ) : (s.kill pid).Good P where
  procs pid' p' halive := by
    obtain ⟨-, hx⟩ | ⟨-, hold⟩ := alive_set rfl halive
    · cases hx
    · exact h.procs pid' p' hold
  pipes := h.pipes
  pids e he := (h.pids e he).trans_eq (List.length_set ..).symm
  opened := h.opened

theorem Good.gotoRecord (h : s.Good P) (hpid : pid < s.procs.length)
    {e : ProcEvent C V} (he : ∀ q, e = .piped q → q < s.pipes.length)
    (hp' : Safe P p'.prog pid p'.ends (s.log ++ [(pid, e)])) :
    ((s.goto pid p').record pid e).Good P where
  procs pid' p'' halive := by
    obtain ⟨rfl, hx⟩ | ⟨hne, hold⟩ := alive_set rfl halive
    · cases hx
      exact hp'
    · exact (h.procs pid' p'' hold).later (later_record hne.symm _ _)
  pipes q vs hvs v hv := P.carries_mono (List.prefix_append _ _) (h.pipes q vs hvs v hv)
  pids e' he' := by
    refine lt_of_lt_of_eq ?_ (List.length_set ..).symm
    obtain hold | hnew := List.mem_append.mp he'
    · exact h.pids e' hold
    · rw [List.mem_singleton.mp hnew]
      exact hpid
  opened pid' q hq := by
    obtain hold | hnew := List.mem_append.mp hq
    · exact h.opened pid' q hold
    · exact he q (congrArg Prod.snd (List.mem_singleton.mp hnew)).symm

theorem Good.addPipe (h : s.Good P) : s.addPipe.Good P where
  procs := h.procs
  pipes q vs hvs v hv := by
    change (s.pipes ++ [[]])[q]? = some vs at hvs
    rw [List.getElem?_append] at hvs
    split_ifs at hvs with hlt
    · exact h.pipes q vs hvs v hv
    · have hmem := List.mem_singleton.mp (List.mem_of_getElem? hvs)
      rw [hmem] at hv
      exact absurd hv List.not_mem_nil
  pids := h.pids
  opened pid' q hq := (h.opened pid' q hq).trans_le (by simp [ProcSystem.addPipe])

theorem Good.addProc (h : s.Good P)
    (hp' : Safe P p'.prog s.procs.length p'.ends s.log) : (s.addProc p').Good P where
  procs pid' p'' halive := by
    change (s.procs ++ [some p'])[pid']? = some (some p'') at halive
    rw [List.getElem?_append] at halive
    split_ifs at halive with hlt
    · exact h.procs pid' p'' halive
    · obtain ⟨hlt', hget⟩ := List.getElem?_eq_some_iff.mp halive
      obtain rfl : pid' = s.procs.length := by
        rw [List.length_singleton] at hlt'
        omega
      simp only [List.getElem_singleton, Option.some.injEq] at hget
      exact hget ▸ hp'
  pipes := h.pipes
  pids e he := (h.pids e he).trans_le (by simp [ProcSystem.addProc])
  opened := h.opened

theorem Good.changePipe (h : s.Good P) {q : ℕ} {f : List V → List V}
    (hf : ∀ vs, ∀ v ∈ f vs, v ∈ vs ∨ P.carries q v s.log) : (s.changePipe q f).Good P where
  procs := h.procs
  pipes q' vs hvs v hv := by
    change (s.pipes.modify q f)[q']? = some vs at hvs
    rw [List.getElem?_modify] at hvs
    obtain ⟨vs', hvs', rfl⟩ := Option.map_eq_some_iff.mp hvs
    split_ifs at hv with heq
    · subst heq
      obtain hold | hnew := hf vs' v hv
      · exact h.pipes q vs' hvs' v hold
      · exact hnew
    · exact h.pipes q' vs' hvs' v hv
  pids := h.pids
  opened pid' q' hq' := (h.opened pid' q' hq').trans_eq (List.length_modify ..).symm

theorem Good.stepProc (h : s.Good P) (halive : s.Alive pid p) (ok : Bool) :
    (s.stepProc pid ok p).Good P := by
  have hsafe := h.procs pid p halive
  obtain ⟨prog, ends⟩ := p
  have hself := Later.refl pid s.log
  cases prog with
  | call c k => exact h.gotoRecord halive.lt (by simp) (hsafe _ hself ok)
  | pipe k =>
    obtain ⟨hnone, hsome⟩ := hsafe _ hself
    cases ok with
    | false => exact h.goto hnone
    | true =>
      refine h.addPipe.gotoRecord halive.lt ?_ (hsome s.pipes.length ?_)
      · intro q hq
        cases hq
        simp [ProcSystem.addPipe]
      · intro e he heq
        exact lt_irrefl _ (h.opened e.1 _ (heq ▸ he))
  | fork child parent =>
    obtain ⟨hnone, hsome⟩ := hsafe _ hself
    cases ok with
    | false => exact h.goto hnone
    | true =>
      have hfresh : ∀ e ∈ s.log, e.1 ≠ s.procs.length := fun e he => (h.pids e he).ne
      obtain ⟨hchild, hparent⟩ := hsome s.procs.length (Nat.zero_lt_of_lt halive.lt)
        halive.lt.ne' hfresh
      refine Good.addProc (h.gotoRecord halive.lt (by simp) hparent) ?_
      rwa [show ((s.goto pid _).record pid _).procs.length = s.procs.length from
        List.length_set ..]
  | write q v k =>
    obtain ⟨hheld, hclosed⟩ := hsafe _ hself
    dsimp only [ProcSystem.stepProc]
    split_ifs with hend hreader
    · obtain ⟨hcarries, hk⟩ := hheld hend
      refine Good.changePipe (h.gotoRecord halive.lt (by simp) hk) fun vs v' hv' => ?_
      obtain hold | hnew := List.mem_append.mp hv'
      · exact .inl hold
      · rw [List.mem_singleton.mp hnew]
        exact .inr hcarries
    · exact h.kill pid
    · exact h.goto (hclosed hend)
  | read q k =>
    obtain ⟨hvalue, hnone, hinterrupted⟩ := hsafe _ hself
    dsimp only [ProcSystem.stepProc]
    cases ok with
    | false => exact h.gotoRecord halive.lt (by simp) hinterrupted
    | true =>
      rw [if_pos rfl]
      by_cases hend : (.read, q) ∈ ends
      · rw [if_pos hend]
        split
        · next v rest hpipe =>
            have hcarries := h.pipes q _ hpipe v List.mem_cons_self
            exact Good.changePipe (h.goto (hvalue v hcarries)) fun _ _ hv =>
              .inl (List.mem_of_mem_tail hv)
        · split
          · exact h
          · next hwriter =>
              -- The process would be the writer itself.
              refine h.goto (hnone (.inr fun hwrite => ?_))
              exact hwriter (holdsEnd_of_mem halive hwrite)
      · rw [if_neg hend]
        exact h.goto (hnone (.inl hend))
  | close e q k => exact h.goto hsafe
  | wait c k =>
    dsimp only [ProcSystem.stepProc]
    split_ifs with hok
    · split
      · exact h.goto (hsafe true)
      · exact h
    · exact h.goto (hsafe false)
  | pause => exact h
  | exit => exact h.kill pid
  | done r => exact h

theorem Good.run (h : s.Good P) (as : List ProcAction) : ((procMachine C V R).run s as).Good P := by
  have hall : (procMachine C V R).Always (fun _ _ => True) s as :=
    Machine.always_of_forall (fun _ _ => trivial) s as
  refine Machine.invariant (Good P) (fun s a hs _ => ?_) h hall
  cases a with
  | step pid ok =>
    dsimp only [procMachine]
    split
    · next p halive => exact hs.stepProc halive ok
    · exact hs
  | kill pid => exact hs.kill pid

theorem good_start (h : Safe P prog 0 ∅ []) : (start prog).Good P where
  procs pid p halive := by
    cases pid with
    | zero =>
      cases Option.some.inj (Option.some.inj halive)
      exact h
    | succ pid => cases halive
  pipes q vs hvs := by cases hvs
  pids e he := absurd he List.not_mem_nil
  opened pid q hq := absurd hq List.not_mem_nil

/-- Whoever returns in a run of a safe program does so with its postcondition. -/
theorem post_of_returned (h : Safe P prog 0 ∅ []) {as : List ProcAction}
    {r : R} (hr : ((procMachine C V R).run (start prog) as).Returned pid r) :
    P.post pid r ((procMachine C V R).run (start prog) as).log := by
  obtain ⟨ends, halive⟩ := hr
  exact ((good_start h).run as).procs pid _ halive _ (Later.refl ..)

/-! ## Records stay -/

theorem log_prefix_stepProc (s : ProcSystem C V R) (pid : ℕ) (ok : Bool) (p : Process C V R) :
    s.log <+: (s.stepProc pid ok p).log := by
  obtain ⟨prog, ends⟩ := p
  cases prog with
  | call c k => exact List.prefix_append _ _
  | pipe k =>
    cases ok with
    | false => exact List.prefix_rfl
    | true => exact List.prefix_append _ _
  | fork child parent =>
    cases ok with
    | false => exact List.prefix_rfl
    | true => exact List.prefix_append _ _
  | write q v k =>
    dsimp only [stepProc]
    split
    · split
      · exact List.prefix_append _ _
      · exact List.prefix_rfl
    · exact List.prefix_rfl
  | read q k =>
    dsimp only [stepProc]
    split
    · split
      · split
        · exact List.prefix_rfl
        · split <;> exact List.prefix_rfl
      · exact List.prefix_rfl
    · exact List.prefix_append _ _
  | wait c k =>
    dsimp only [stepProc]
    split
    · split <;> exact List.prefix_rfl
    · exact List.prefix_rfl
  | close | pause | exit | done => exact List.prefix_rfl

theorem log_prefix_run (s : ProcSystem C V R) (as : List ProcAction) :
    s.log <+: ((procMachine C V R).run s as).log := by
  induction as generalizing s with
  | nil => exact List.prefix_rfl
  | cons a as ih =>
    refine List.IsPrefix.trans ?_ (ih _)
    cases a with
    | step pid ok =>
      dsimp only [procMachine]
      split
      · exact log_prefix_stepProc ..
      · exact List.prefix_rfl
    | kill pid => exact List.prefix_rfl

/-! ## Processes that have returned -/

end ProcSystem

end Mitosis.Support
