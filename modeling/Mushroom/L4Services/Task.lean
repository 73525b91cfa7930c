import Mushroom.Core.Atomic
import Mushroom.Core.LTS

/-!
# The run queue

`kernel/rt.rs:22-115`. A task has an atomic state and a future behind a mutex.
`wake` puts a waiting task into the run queue; a vCPU takes a task out, polls its
future and, if that is not ready, marks it as waiting again, unless it was woken
in the meantime: then it polls again.

Any number of vCPUs `κ` and of calls of `wake` (`ω`) take their steps in any
order; every access to the state, the pop and the push are single steps. A task
is in one hand at any time (`Holder`): in the queue, with the wake that is going
to push it, or with the vCPU that polls it. `polls`, and the count that a `wake`
has found, are for the statements only.
-/
namespace Mushroom.L4.Task
open List Bool Function

/-- rt.rs:133-145 -/
inductive TaskState where
  | waiting | scheduled | running | rescheduled | done
  deriving DecidableEq

/-- rt.rs:74-80 -/
def afterPoll : TaskState → Option TaskState
  | .waiting => none
  | .scheduled => none
  | .running => some .waiting
  | .rescheduled => some .running
  | .done => none

/-- rt.rs:97-103 -/
def onWake : TaskState → Option TaskState
  | .waiting => some .scheduled
  | .scheduled => none
  | .running => some .rescheduled
  | .rescheduled => none
  | .done => none

/-- A vCPU has taken a task out of the queue, is about to lock the future, polls it, or has it back. -/
inductive CpuPc (ι : Type) where
  | idle
  | popped (t : ι)
  | locking (t : ι)
  | polling (t : ι)
  | ready (t : ι)
  | pending (t : ι) (pc : FetchUpdate.Pc TaskState)
  deriving DecidableEq

/-- A call of `wake`, with the number of polls begun when it was made. -/
inductive WakePc (ι : Type) where
  | idle
  | updating (t : ι) (seen : Nat) (pc : FetchUpdate.Pc TaskState)
  | pushing (t : ι) (seen : Nat)
  | returned (t : ι) (seen : Nat)
  deriving DecidableEq

def CpuPc.task {ι : Type} : CpuPc ι → Option ι
  | idle => none
  | popped t | locking t | polling t | ready t | pending t _ => some t

def WakePc.task {ι : Type} : WakePc ι → Option ι
  | pushing t _ => some t
  | idle | updating _ _ _ | returned _ _ => none

lemma WakePc.task_eq_some {ι : Type} {pc : WakePc ι} {t : ι} : pc.task = some t ↔ ∃ n, pc = .pushing t n := by
  cases pc <;> simp [task]

/-- What a wake that has had its effect was for. -/
def WakePc.effect {ι : Type} : WakePc ι → Option (ι × Nat)
  | pushing t seen | returned t seen => some (t, seen)
  | idle | updating _ _ _ => none

variable {ι κ ω : Type}

structure Runtime (ι κ ω : Type) where
  /-- `Task::state` -/
  state : ι → TaskState
  /-- the mutex of `Task::future` -/
  locked : ι → Bool
  /-- the future has returned `Ready` -/
  finished : ι → Bool
  polls : ι → Nat
  /-- `SCHEDULED_THREADS` -/
  queue : List ι
  cpus : κ → CpuPc ι
  wakes : ω → WakePc ι

/-- The steps; `ready` tells what a poll of a future returns. -/
inductive Act (ι κ ω : Type) where
  | pop (k : κ)
  | store (k : κ)
  | lock (k : κ)
  | polled (k : κ) (ready : Bool)
  | finish (k : κ)
  | update (k : κ)
  | wake (i : ω) (t : ι)
  | wakeUpdate (i : ω)
  | push (i : ω)
  deriving DecidableEq

namespace Runtime

/-- Tasks are made waiting; `spawn` is a `wake` of a new one.
rt.rs:24-27,45-52 -/
def new : Runtime ι κ ω :=
  ⟨fun _ => .waiting, fun _ => false, fun _ => false, fun _ => 0, [], fun _ => .idle, fun _ => .idle⟩

variable [DecidableEq ι] [DecidableEq κ] [DecidableEq ω]

def setCpu (r : Runtime ι κ ω) (k : κ) (pc : CpuPc ι) : Runtime ι κ ω := { r with cpus := update r.cpus k pc }

def setWake (r : Runtime ι κ ω) (i : ω) (pc : WakePc ι) : Runtime ι κ ω := { r with wakes := update r.wakes i pc }

def setState (r : Runtime ι κ ω) (t : ι) (state : TaskState) : Runtime ι κ ω :=
  { r with state := update r.state t state }

/-- The end of a turn of the loop: it goes on if the task was woken.
rt.rs:82-90 -/
def turn (r : Runtime ι κ ω) (k : κ) (t : ι) : FetchUpdate.Outcome TaskState → Runtime ι κ ω
  | .more pc => r.setCpu k (.pending t pc)
  | .ok previous | .err previous => r.setCpu k (if previous = .rescheduled then .locking t else .idle)

/-- The end of the update in `wake`.
rt.rs:104-113 -/
def woken (r : Runtime ι κ ω) (i : ω) (t : ι) (seen : Nat) : FetchUpdate.Outcome TaskState → Runtime ι κ ω
  | .more pc => r.setWake i (.updating t seen pc)
  | .ok previous => r.setWake i (if previous = .waiting then .pushing t seen else .returned t seen)
  | .err _ => r.setWake i (.returned t seen)

/-- rt.rs:29-35,54-92,95-114 -/
def next (r : Runtime ι κ ω) : Act ι κ ω → Option (Runtime ι κ ω)
  | .pop k =>
    match r.cpus k, r.queue with
    | .idle, t :: queue => some { r.setCpu k (.popped t) with queue := queue }
    | _, _ => none
  | .store k =>
    match r.cpus k with
    | .popped t => some ((r.setState t .running).setCpu k (.locking t))
    | _ => none
  | .lock k =>
    match r.cpus k with
    | .locking t =>
      if r.locked t then none
      else some { r.setCpu k (.polling t) with
        locked := update r.locked t true
        polls := update r.polls t (r.polls t + 1) }
    | _ => none
  | .polled k ready =>
    match r.cpus k with
    | .polling t =>
      some { r.setCpu k (if ready then .ready t else .pending t .load) with
        locked := update r.locked t false
        finished := update r.finished t (r.finished t || ready) }
    | _ => none
  | .finish k =>
    match r.cpus k with
    | .ready t => some ((r.setState t .done).setCpu k .idle)
    | _ => none
  | .update k =>
    match r.cpus k with
    | .pending t pc =>
      some ((r.setState t (FetchUpdate.step afterPoll (r.state t) pc).1).turn k t
        (FetchUpdate.step afterPoll (r.state t) pc).2)
    | _ => none
  | .wake i t =>
    match r.wakes i with
    | .idle => some (r.setWake i (.updating t (r.polls t) .load))
    | _ => none
  | .wakeUpdate i =>
    match r.wakes i with
    | .updating t seen pc =>
      some ((r.setState t (FetchUpdate.step onWake (r.state t) pc).1).woken i t seen
        (FetchUpdate.step onWake (r.state t) pc).2)
    | _ => none
  | .push i =>
    match r.wakes i with
    | .pushing t seen => some { r.setWake i (.returned t seen) with queue := r.queue ++ [t] }
    | _ => none

end Runtime

def runtime (ι κ ω : Type) [DecidableEq ι] [DecidableEq κ] [DecidableEq ω] : LTS (Runtime ι κ ω) (Act ι κ ω) :=
  LTS.ofFn (· = .new) Runtime.next

/-! ## A task is in one hand -/

inductive Holder (κ ω : Type) where
  | nobody
  | queue
  | wake (i : ω)
  | cpu (k : κ)
  deriving DecidableEq

/-- What the state of a task and its holder say about each other. -/
inductive Fits (r : Runtime ι κ ω) (t : ι) : Holder κ ω → Prop where
  | waiting : r.state t = .waiting → r.finished t = false → Fits r t .nobody
  | done : r.state t = .done → r.finished t = true → Fits r t .nobody
  | queued : r.state t = .scheduled → r.finished t = false → Fits r t .queue
  | woken {i : ω} : r.state t = .scheduled → r.finished t = false → Fits r t (.wake i)
  | popped {k : κ} : r.cpus k = .popped t → r.state t = .scheduled → r.finished t = false → Fits r t (.cpu k)
  | running {k : κ} : r.cpus k ≠ .popped t → r.state t = .running ∨ r.state t = .rescheduled →
      (r.finished t = true ↔ r.cpus k = .ready t) → Fits r t (.cpu k)

structure Inv (r : Runtime ι κ ω) (h : ι → Holder κ ω) : Prop where
  nodup : r.queue.Nodup
  queue : ∀ t, t ∈ r.queue ↔ h t = .queue
  wake : ∀ i t, (r.wakes i).task = some t ↔ h t = .wake i
  cpu : ∀ k t, (r.cpus k).task = some t ↔ h t = .cpu k
  fits : ∀ t, Fits r t (h t)

section

variable {r r' : Runtime ι κ ω} {h : ι → Holder κ ω} {t : ι} {b : Holder κ ω}

lemma Inv.new : Inv (Runtime.new : Runtime ι κ ω) fun _ => .nobody :=
  ⟨nodup_nil, fun _ => ⟨nofun, nofun⟩, fun _ _ => ⟨nofun, nofun⟩, fun _ _ => ⟨nofun, nofun⟩, fun _ => .waiting rfl rfl⟩

lemma fits_nobody : Fits r t (.nobody : Holder κ ω) ↔
    r.state t = .waiting ∧ r.finished t = false ∨ r.state t = .done ∧ r.finished t := by
  refine ⟨fun h => by cases h <;> simp_all, ?_⟩
  rintro (⟨h1, h2⟩ | ⟨h1, h2⟩)
  · exact .waiting h1 h2
  · exact .done h1 h2

lemma fits_queue : Fits r t (.queue : Holder κ ω) ↔ r.state t = .scheduled ∧ r.finished t = false :=
  ⟨fun h => by cases h; simp_all, fun h => .queued h.1 h.2⟩

lemma fits_wake {i : ω} : Fits r t (.wake i : Holder κ ω) ↔ r.state t = .scheduled ∧ r.finished t = false :=
  ⟨fun h => by cases h; simp_all, fun h => .woken h.1 h.2⟩

lemma fits_cpu {k : κ} : Fits r t (.cpu k : Holder κ ω) ↔
    r.cpus k = .popped t ∧ r.state t = .scheduled ∧ r.finished t = false ∨
      r.cpus k ≠ .popped t ∧ (r.state t = .running ∨ r.state t = .rescheduled) ∧
        (r.finished t = true ↔ r.cpus k = .ready t) := by
  refine ⟨fun h => by cases h <;> simp_all, ?_⟩
  rintro (⟨h1, h2, h3⟩ | ⟨h1, h2, h3⟩)
  · exact .popped h1 h2 h3
  · exact .running h1 h2 h3

lemma Fits.frame (hf : Fits r t b) (hstate : r'.state t = r.state t)
    (hfin : r'.finished t = r.finished t) (hcpu : ∀ k, b = .cpu k → r'.cpus k = r.cpus k) : Fits r' t b := by
  cases b with
  | cpu k => simpa only [fits_cpu, hstate, hfin, hcpu k rfl] using hf
  | _ => simpa only [fits_nobody, fits_queue, fits_wake, hstate, hfin] using hf

lemma Fits.of_waiting (hf : Fits r t b) (hstate : r.state t = .waiting) : b = .nobody ∧ r.finished t = false := by
  cases hf <;> simp_all

lemma Fits.of_running (hf : Fits r t b) (hstate : r.state t = .running ∨ r.state t = .rescheduled) :
    ∃ k, b = .cpu k ∧ r.cpus k ≠ .popped t ∧ (r.finished t = true ↔ r.cpus k = .ready t) := by
  cases hf with
  | running h1 h2 h3 => exact ⟨_, rfl, h1, h3⟩
  | _ => simp_all

lemma Inv.held (hi : Inv r h) {k : κ} {t : ι} (hk : (r.cpus k).task = some t) :
    h t = .cpu k ∧ Fits r t (.cpu k : Holder κ ω) := by
  have hh := (hi.cpu k t).1 hk
  exact ⟨hh, hh ▸ hi.fits t⟩

lemma Inv.running (hi : Inv r h) {k : κ} {t : ι} (hk : (r.cpus k).task = some t) (hp : r.cpus k ≠ .popped t) :
    (r.state t = .running ∨ r.state t = .rescheduled) ∧ (r.finished t = true ↔ r.cpus k = .ready t) := by
  have hfits := fits_cpu.1 (hi.held hk).2
  simpa [hp] using hfits

/-! No wake-up is lost: what the state of a task says about its next poll. -/

/-- A poll of `t` behind the first `n` was begun, or will be by the state of `t`. -/
def Served (r : Runtime ι κ ω) (t : ι) (n : Nat) : Prop :=
  r.finished t = true ∨ n < r.polls t ∨ r.state t = .scheduled ∨ r.state t = .rescheduled ∨ ∃ k, r.cpus k = .locking t

/-- A wake that finds nothing to do finds the task served already. -/
lemma Served.of_onWake_none (hi : Inv r h) {n : Nat} (hnone : onWake (r.state t) = none) : Served r t n := by
  cases hstate : r.state t with
  | waiting | running =>
    rw [hstate] at hnone
    cases hnone
  | scheduled => exact .inr (.inr (.inl hstate))
  | rescheduled => exact .inr (.inr (.inr (.inl hstate)))
  | done =>
    refine .inl ?_
    have hfits := hi.fits t
    cases hb : h t <;> simp_all [fits_nobody, fits_queue, fits_wake, fits_cpu]

/-- Every wake counts the polls it found, and one that has had its effect is
served. -/
structure Wakes (r : Runtime ι κ ω) : Prop where
  seen : ∀ i t n pc, r.wakes i = .updating t n pc → n ≤ r.polls t
  served : ∀ i t n, (r.wakes i).effect = some (t, n) → n ≤ r.polls t ∧ Served r t n

lemma Wakes.new : Wakes (Runtime.new : Runtime ι κ ω) := ⟨nofun, nofun⟩

/-- In the queue, about to be pushed by a wake that has set `Scheduled`, or about to be polled in `Task::poll`. -/
def Due (r : Runtime ι κ ω) (t : ι) : Prop :=
  t ∈ r.queue ∨ (∃ i n, r.wakes i = .pushing t n) ∨ ∃ k, r.cpus k = .popped t ∨ r.cpus k = .locking t ∨
    (∃ pc, r.cpus k = .pending t pc) ∧ r.state t = .rescheduled

/-- A served task that has not finished and is not being polled is due. -/
lemma Served.due (hi : Inv r h) {n : Nat} (hs : Served r t n) (hf : r.finished t = false)
    (hn : r.polls t ≤ n) (hp : ∀ k, r.cpus k ≠ .polling t) : Due r t := by
  rcases hs with hf' | hlt | hs | hs | ⟨k, hk⟩
  · cases hf.symm.trans hf'
  · omega
  · -- a scheduled task is in the queue, on its way there or just taken out
    have hfits := hi.fits t
    cases hb : h t with
    | nobody => simp_all [fits_nobody]
    | queue => exact .inl ((hi.queue t).2 hb)
    | wake i =>
      obtain ⟨m, hw⟩ := WakePc.task_eq_some.1 ((hi.wake i t).2 hb)
      exact .inr (.inl ⟨i, m, hw⟩)
    | cpu k =>
      rw [hb, fits_cpu] at hfits
      exact .inr (.inr ⟨k, .inl (by simp_all)⟩)
  · obtain ⟨k, hb, hpop, hfin⟩ := (hi.fits t).of_running (.inr hs)
    have htask := (hi.cpu k t).2 hb
    refine .inr (.inr ⟨k, ?_⟩)
    cases hk : r.cpus k <;> simp_all [CpuPc.task]
  · exact .inr (.inr ⟨k, .inr (.inl hk)⟩)

end

/-! ## Steps -/

section

variable [DecidableEq ι] [DecidableEq κ] [DecidableEq ω] {r r' : Runtime ι κ ω} {h : ι → Holder κ ω}

inductive Step (r : Runtime ι κ ω) : Runtime ι κ ω → Prop where
  | pop {k : κ} {t : ι} {queue : List ι} : r.cpus k = .idle → r.queue = t :: queue →
      Step r { r.setCpu k (.popped t) with queue := queue }
  | store {k : κ} {t : ι} : r.cpus k = .popped t → Step r ((r.setState t .running).setCpu k (.locking t))
  | lock {k : κ} {t : ι} : r.cpus k = .locking t →
      Step r { r.setCpu k (.polling t) with
        locked := update r.locked t true
        polls := update r.polls t (r.polls t + 1) }
  | polled {k : κ} {t : ι} (ready : Bool) : r.cpus k = .polling t →
      Step r { r.setCpu k (if ready then .ready t else .pending t .load) with
        locked := update r.locked t false
        finished := update r.finished t (r.finished t || ready) }
  | finish {k : κ} {t : ι} : r.cpus k = .ready t → Step r ((r.setState t .done).setCpu k .idle)
  | retry {k : κ} {t : ι} {pc : FetchUpdate.Pc TaskState} (pc' : FetchUpdate.Pc TaskState) :
      r.cpus k = .pending t pc → Step r (r.setCpu k (.pending t pc'))
  | rest {k : κ} {t : ι} {pc : FetchUpdate.Pc TaskState} : r.cpus k = .pending t pc → r.state t = .running →
      Step r ((r.setState t .waiting).setCpu k .idle)
  | again {k : κ} {t : ι} {pc : FetchUpdate.Pc TaskState} : r.cpus k = .pending t pc →
      r.state t = .rescheduled → Step r ((r.setState t .running).setCpu k (.locking t))
  | leave {k : κ} {t : ι} {pc : FetchUpdate.Pc TaskState} : r.cpus k = .pending t pc →
      afterPoll (r.state t) = none → Step r (r.setCpu k .idle)
  | wake {i : ω} (t : ι) : r.wakes i = .idle → Step r (r.setWake i (.updating t (r.polls t) .load))
  | wakeRetry {i : ω} {t : ι} {n : Nat} {pc : FetchUpdate.Pc TaskState} (pc' : FetchUpdate.Pc TaskState) :
      r.wakes i = .updating t n pc → Step r (r.setWake i (.updating t n pc'))
  | take {i : ω} {t : ι} {n : Nat} {pc : FetchUpdate.Pc TaskState} : r.wakes i = .updating t n pc →
      r.state t = .waiting → Step r ((r.setState t .scheduled).setWake i (.pushing t n))
  | mark {i : ω} {t : ι} {n : Nat} {pc : FetchUpdate.Pc TaskState} : r.wakes i = .updating t n pc →
      r.state t = .running → Step r ((r.setState t .rescheduled).setWake i (.returned t n))
  | found {i : ω} {t : ι} {n : Nat} {pc : FetchUpdate.Pc TaskState} : r.wakes i = .updating t n pc →
      onWake (r.state t) = none → Step r (r.setWake i (.returned t n))
  | push {i : ω} {t : ι} {n : Nat} : r.wakes i = .pushing t n →
      Step r { r.setWake i (.returned t n) with queue := r.queue ++ [t] }

omit [DecidableEq κ] [DecidableEq ω] in
lemma setState_self (r : Runtime ι κ ω) (t : ι) : r.setState t (r.state t) = r := by
  unfold Runtime.setState
  rw [update_eq_self]

lemma step_update {k : κ} (hr : r.next (.update k) = some r') : Step r r' := by
  simp only [Runtime.next] at hr
  split at hr
  · rename_i t pc hk
    cases hr
    rcases FetchUpdate.step_cases afterPoll (r.state t) pc with ⟨pc', h⟩ | ⟨next, hnext, h⟩ | ⟨hnone, h⟩
    · rw [h, setState_self]
      exact .retry pc' hk
    · rw [h]
      cases hstate : r.state t with
      | running =>
        rw [hstate] at hnext
        cases hnext
        exact .rest hk hstate
      | rescheduled =>
        rw [hstate] at hnext
        cases hnext
        exact .again hk hstate
      | waiting | scheduled | done =>
        rw [hstate] at hnext
        cases hnext
    · rw [h, setState_self]
      have hidle : r.turn k t (.err (r.state t)) = r.setCpu k .idle :=
        congrArg (r.setCpu k) (if_neg fun he => by rw [he] at hnone; cases hnone)
      rw [hidle]
      exact .leave hk hnone
  · cases hr

lemma step_wakeUpdate {i : ω} (hr : r.next (.wakeUpdate i) = some r') : Step r r' := by
  simp only [Runtime.next] at hr
  split at hr
  · rename_i t n pc hw
    cases hr
    rcases FetchUpdate.step_cases onWake (r.state t) pc with ⟨pc', h⟩ | ⟨next, hnext, h⟩ | ⟨hnone, h⟩
    · rw [h, setState_self]
      exact .wakeRetry pc' hw
    · rw [h]
      cases hstate : r.state t with
      | waiting =>
        rw [hstate] at hnext
        cases hnext
        exact .take hw hstate
      | running =>
        rw [hstate] at hnext
        cases hnext
        exact .mark hw hstate
      | scheduled | rescheduled | done =>
        rw [hstate] at hnext
        cases hnext
    · rw [h, setState_self]
      exact .found hw hnone
  · cases hr

lemma step_of_next {a : Act ι κ ω} (hr : r.next a = some r') : Step r r' := by
  cases a with
  | update k => exact step_update hr
  | wakeUpdate i => exact step_wakeUpdate hr
  | pop k =>
    simp only [Runtime.next] at hr
    split at hr <;> cases hr
    exact .pop ‹_› ‹_›
  | store k =>
    simp only [Runtime.next] at hr
    split at hr <;> cases hr
    exact .store ‹_›
  | lock k =>
    simp only [Runtime.next] at hr
    split at hr
    · split at hr <;> cases hr
      exact .lock ‹_›
    · cases hr
  | polled k ready =>
    simp only [Runtime.next] at hr
    split at hr <;> cases hr
    exact .polled ready ‹_›
  | finish k =>
    simp only [Runtime.next] at hr
    split at hr <;> cases hr
    exact .finish ‹_›
  | wake i t =>
    simp only [Runtime.next] at hr
    split at hr <;> cases hr
    exact .wake t ‹_›
  | push i =>
    simp only [Runtime.next] at hr
    split at hr <;> cases hr
    exact .push ‹_›

omit [DecidableEq κ] [DecidableEq ω] in
/-- The task passes into the hand `b`, and everything about the others stays. -/
lemma Inv.pass (hi : Inv r h) (t : ι) (b : Holder κ ω) (hn : r'.queue.Nodup)
    (hq : ∀ u, u ∈ r'.queue ↔ update h t b u = .queue)
    (hw : ∀ i u, (r'.wakes i).task = some u ↔ update h t b u = .wake i)
    (hc : ∀ k u, (r'.cpus k).task = some u ↔ update h t b u = .cpu k) (hf : Fits r' t b)
    (hs : ∀ u, u ≠ t → r'.state u = r.state u ∧ r'.finished u = r.finished u)
    (hk : ∀ k u, u ≠ t → (r.cpus k).task = some u → r'.cpus k = r.cpus k) : ∃ h', Inv r' h' := by
  refine ⟨update h t b, hn, hq, hw, hc, fun u => ?_⟩
  by_cases hu : u = t
  · subst hu
    simpa using hf
  · rw [update_of_ne hu]
    exact (hi.fits u).frame (hs u hu).1 (hs u hu).2 fun k hh => hk k u hu ((hi.cpu k u).2 hh)

omit [DecidableEq ι] [DecidableEq κ] in
lemma Inv.idle_wake (hi : Inv r h) {i : ω} {pc : WakePc ι} (hbefore : (r.wakes i).task = none)
    (hafter : pc.task = none) : ∃ h', Inv (r.setWake i pc) h' := by
  refine ⟨h, hi.nodup, hi.queue, fun j u => ?_, hi.cpu, fun u => (hi.fits u).frame rfl rfl fun _ _ => rfl⟩
  have hwake := hi.wake j u
  simp only [Runtime.setWake, update_apply]
  grind

lemma Inv.step (hi : Inv r h) (hs : Step r r') : ∃ h', Inv r' h' := by
  have hqueue := hi.queue
  have hwake := hi.wake
  have hcpu := hi.cpu
  have hnodup := hi.nodup
  cases hs with
  | @pop k t queue hk hq =>
    have hh : h t = .queue := (hqueue t).1 (by simp [hq])
    have hfit := fits_queue.1 (hh ▸ hi.fits t)
    refine hi.pass t (.cpu k) ?_ ?_ ?_ ?_ ?_ ?_ ?_ <;>
      simp [Runtime.setCpu, fits_cpu] <;> grind [CpuPc.task]
  | @store k t hk | @lock k t hk | @polled k t ready hk | @retry k t pc pc' hk | @again k t pc hk hstate =>
    -- the task stays with the vCPU, behind the store of `Running`
    obtain ⟨hh, hfit⟩ := @Inv.held _ _ _ _ _ hi k t (by rw [hk]; rfl)
    refine hi.pass t (.cpu k) hnodup ?_ ?_ ?_ ?_ ?_ ?_ <;>
      simp [Runtime.setCpu, Runtime.setState, fits_cpu] at hfit ⊢ <;> grind [CpuPc.task]
  | @finish k t hk | @rest k t pc hk hstate =>
    obtain ⟨hh, hfit⟩ := @Inv.held _ _ _ _ _ hi k t (by rw [hk]; rfl)
    refine hi.pass t .nobody hnodup ?_ ?_ ?_ ?_ ?_ ?_ <;>
      simp [Runtime.setCpu, Runtime.setState, fits_nobody, fits_cpu] at hfit ⊢ <;> grind [CpuPc.task]
  | @leave k t pc hk hnone =>
    -- the state of a task behind a poll is never one that the update refuses
    have hrun := (@Inv.running _ _ _ _ _ hi k t (by rw [hk]; rfl) (by rw [hk]; nofun)).1
    grind [afterPoll]
  | @take i t n pc hw hstate =>
    obtain ⟨hh, hfin⟩ := (hi.fits t).of_waiting hstate
    refine hi.pass t (.wake i) hnodup ?_ ?_ ?_ ?_ ?_ ?_ <;>
      simp [Runtime.setWake, Runtime.setState, fits_wake] <;> grind [WakePc.task]
  | @mark i t n pc hw hstate =>
    obtain ⟨k, hh, hp, hfin⟩ := (hi.fits t).of_running (.inl hstate)
    refine hi.pass t (.cpu k) hnodup ?_ ?_ ?_ ?_ ?_ ?_ <;>
      simp [Runtime.setWake, Runtime.setState, fits_cpu] <;> grind [WakePc.task]
  | @push i t n hw =>
    have hh : h t = .wake i := (hwake i t).1 (by simp [hw, WakePc.task])
    have hfit := fits_wake.1 (hh ▸ hi.fits t)
    refine hi.pass t .queue ?_ ?_ ?_ ?_ ?_ ?_ ?_ <;>
      simp [Runtime.setWake, fits_queue] <;> grind [WakePc.task]
  | wake t hw | wakeRetry pc' hw | found hw hnone => exact hi.idle_wake (by rw [hw]; rfl) rfl

/-- The polls of a task never get fewer, and a finished task stays so. -/
lemma Step.le (hs : Step r r') (t : ι) : r.polls t ≤ r'.polls t ∧ (r.finished t = true → r'.finished t) := by
  cases hs with
  | @lock k u hk =>
    refine ⟨?_, id⟩
    show r.polls t ≤ update r.polls u (r.polls u + 1) t
    rw [update_apply]
    split
    · rename_i hu
      rw [hu]
      exact Nat.le_succ _
    · exact Nat.le_refl _
  | @polled k u ready hk =>
    refine ⟨Nat.le_refl _, fun hf => ?_⟩
    show update r.finished u (r.finished u || ready) t = true
    rw [update_apply]
    split
    · rename_i hu
      rw [← hu, hf, Bool.true_or]
    · exact hf
  | _ => exact ⟨Nat.le_refl _, id⟩

/-- The state of a task speaks for it as long as it and the vCPU about to lock
its future stay. -/
lemma Served.frame {t : ι} {n : Nat} (hs : Served r t n) (hr : Step r r')
    (hstate : r'.state t = r.state t) (hcpus : ∀ k, r.cpus k = .locking t → r'.cpus k = .locking t) :
    Served r' t n := by
  obtain ⟨hpolls, hfin⟩ := hr.le t
  rcases hs with hf | hlt | hs | hs | ⟨k, hk⟩
  · exact .inl (hfin hf)
  · exact .inr (.inl (Nat.lt_of_lt_of_le hlt hpolls))
  · exact .inr (.inr (.inl (hstate.trans hs)))
  · exact .inr (.inr (.inr (.inl (hstate.trans hs))))
  · exact .inr (.inr (.inr (.inr ⟨k, hcpus k hk⟩)))

omit [DecidableEq ι] [DecidableEq ω] in
lemma locking_update {k : κ} {pc : CpuPc ι} {t : ι} (hk : r.cpus k ≠ .locking t) (k' : κ)
    (hk' : r.cpus k' = .locking t) : update r.cpus k pc k' = .locking t := by
  have hne : k' ≠ k := fun he => hk (by rw [← he]; exact hk')
  rw [update_of_ne hne]
  exact hk'

lemma Served.step (hi : Inv r h) {t : ι} {n : Nat} (hn : n ≤ r.polls t) (hs : Served r t n) (hr : Step r r') :
    Served r' t n := by
  have hframe := hs.frame hr
  cases hr with
  | pop hk hqueue | polled ready hk | retry pc' hk | leave hk hnone =>
    exact hframe rfl (locking_update (by rw [hk]; nofun))
  | @store k u hk | @again k u pc hk hstate =>
    by_cases htu : t = u
    · rw [htu]
      exact .inr (.inr (.inr (.inr ⟨k, update_self ..⟩)))
    · exact hframe (update_of_ne htu ..) (locking_update (by rw [hk]; nofun))
  | @lock k u hk =>
    by_cases htu : t = u
    · refine .inr (.inl ?_)
      show n < update r.polls u (r.polls u + 1) t
      rw [htu, update_self, ← htu]
      exact Nat.lt_succ_of_le hn
    · exact hframe rfl (locking_update (by rw [hk]; exact fun he => htu (by cases he; rfl)))
  | @finish k u hk =>
    by_cases htu : t = u
    · subst htu
      exact .inl ((hi.running (by rw [hk]; rfl) (by rw [hk]; nofun)).2.2 hk)
    · exact hframe (update_of_ne htu ..) (locking_update (by rw [hk]; nofun))
  | @rest k u pc hk hstate =>
    by_cases htu : t = u
    · -- a task that was not woken gives up only what is not served
      subst htu
      rcases hs with hf | hlt | hs | hs | ⟨k', hk'⟩
      · exact .inl hf
      · exact .inr (.inl hlt)
      · cases hs.symm.trans hstate
      · cases hs.symm.trans hstate
      · exact .inr (.inr (.inr (.inr ⟨k', locking_update (r := r) (by rw [hk]; nofun) k' hk'⟩)))
    · exact hframe (update_of_ne htu ..) (locking_update (by rw [hk]; nofun))
  | @take i u m pc hw hstate =>
    by_cases htu : t = u
    · rw [htu]
      exact .inr (.inr (.inl (update_self ..)))
    · exact hframe (update_of_ne htu ..) fun _ => id
  | @mark i u m pc hw hstate =>
    by_cases htu : t = u
    · rw [htu]
      exact .inr (.inr (.inr (.inl (update_self ..))))
    · exact hframe (update_of_ne htu ..) fun _ => id
  | wake u hw | wakeRetry pc' hw | found hw hnone | push hw => exact hframe rfl fun _ => id

lemma Wakes.step_of (hw : Wakes r) (hi : Inv r h) (hr : Step r r') {j : ω} {pc : WakePc ι}
    (hwakes : r'.wakes = update r.wakes j pc) (hseen : ∀ t n p, pc = .updating t n p → n ≤ r.polls t)
    (hserved : ∀ t n, pc.effect = some (t, n) → n ≤ r.polls t ∧ (Served r t n ∨ Served r' t n)) : Wakes r' := by
  refine ⟨fun i t n p hu => ?_, fun i t n he => ?_⟩
  · rw [hwakes, update_apply] at hu
    refine Nat.le_trans ?_ (hr.le t).1
    split at hu
    · exact hseen t n p hu
    · exact hw.seen i t n p hu
  rw [hwakes, update_apply] at he
  obtain ⟨hn, hs⟩ : n ≤ r.polls t ∧ (Served r t n ∨ Served r' t n) := by
    split at he
    · exact hserved t n he
    · exact ⟨(hw.served i t n he).1, .inl (hw.served i t n he).2⟩
  exact ⟨Nat.le_trans hn (hr.le t).1, hs.elim (fun hs => hs.step hi hn hr) id⟩

lemma Wakes.step (hw : Wakes r) (hi : Inv r h) (hr : Step r r') : Wakes r' := by
  have hcpu : r'.wakes = r.wakes → Wakes r' := fun he =>
    ⟨fun i t n pc hu => Nat.le_trans (hw.seen i t n pc (by rw [← he]; exact hu)) (hr.le t).1, fun i t n hu => by
      rw [he] at hu
      obtain ⟨hn, hs⟩ := hw.served i t n hu
      exact ⟨Nat.le_trans hn (hr.le t).1, hs.step hi hn hr⟩⟩
  have hone := fun {j : ω} {pc : WakePc ι} => @Wakes.step_of _ _ _ _ _ _ _ _ _ hw hi hr j pc
  cases hr with
  | wake t hpc => exact hone rfl (fun u n p hu => by cases hu; exact Nat.le_refl _) nofun
  | wakeRetry pc' hpc => exact hone rfl (fun u n p hu => by cases hu; exact hw.seen _ _ _ _ hpc) nofun
  | take hpc hstate =>
    refine hone rfl nofun fun u n he => ?_
    cases he
    exact ⟨hw.seen _ _ _ _ hpc, .inr (.inr (.inr (.inl (update_self ..))))⟩
  | mark hpc hstate =>
    refine hone rfl nofun fun u n he => ?_
    cases he
    exact ⟨hw.seen _ _ _ _ hpc, .inr (.inr (.inr (.inr (.inl (update_self ..)))))⟩
  | found hpc hnone =>
    refine hone rfl nofun fun u n he => ?_
    cases he
    exact ⟨hw.seen _ _ _ _ hpc, .inl (.of_onWake_none hi hnone)⟩
  | @push i t n hpc =>
    refine hone rfl nofun fun u m he => ?_
    cases he
    obtain ⟨hn, hs⟩ := hw.served i t n (by rw [hpc]; rfl)
    exact ⟨hn, .inl hs⟩
  | _ => exact hcpu rfl

lemma reachable_inv (hr : (runtime ι κ ω).Reachable r) : (∃ h, Inv r h) ∧ Wakes r := by
  have hind : (runtime ι κ ω).Inductive fun r => (∃ h, Inv r h) ∧ Wakes r :=
    ⟨fun s hs => (show s = .new from hs) ▸ ⟨⟨_, .new⟩, .new⟩,
      fun s a s' ⟨⟨h, hi⟩, hw⟩ hstep => ⟨hi.step (step_of_next hstep), hw.step hi (step_of_next hstep)⟩⟩
  exact hind.reachable r hr

/-- In every state of every run: a task is in the queue at most once, at most one vCPU is in `Task::poll` with it,
no vCPU polls a future that has returned `Ready`, and no wake-up is lost. A `wake` on `t` that has had its
effect was made when `n` polls had begun; if `t` has not finished, no further poll was begun and none is under
way, then `t` is in the queue, or a wake is about to push it, or a vCPU in `Task::poll` is about to poll it. -/
theorem tasks_scheduled {r : Runtime ι κ ω} (hr : (runtime ι κ ω).Reachable r) : (∀ t, r.queue.count t ≤ 1) ∧
    (∀ k k' t, (r.cpus k).task = some t → (r.cpus k').task = some t → k = k') ∧
    (∀ k t, r.cpus k = .locking t ∨ r.cpus k = .polling t → r.finished t = false) ∧
    ∀ i t n, (r.wakes i).effect = some (t, n) → r.finished t = false → (∀ k, r.cpus k ≠ .polling t) →
      n < r.polls t ∨ Due r t := by
  obtain ⟨⟨h, hi⟩, hw⟩ := reachable_inv hr
  refine ⟨fun t => nodup_iff_count_le_one.1 hi.nodup t, fun k k' t hk hk' => ?_, fun k t hk => ?_,
    fun i t n he hf hp => ?_⟩
  · cases (hi.held hk).1.symm.trans (hi.held hk').1
    rfl
  · have htask : (r.cpus k).task = some t := by rcases hk with hk | hk <;> rw [hk] <;> rfl
    have hpop : r.cpus k ≠ .popped t := by rcases hk with hk | hk <;> rw [hk] <;> nofun
    refine eq_false_iff.2 fun hf => ?_
    rcases hk with hk | hk <;> cases hk.symm.trans ((hi.running htask hpop).2.1 hf)
  · by_cases hlt : n < r.polls t
    · exact .inl hlt
    · exact .inr ((hw.served i t n he).2.due hi hf (Nat.le_of_not_lt hlt) hp)

end

/-- After one poll a wake has set `Scheduled` and not pushed yet, and a second one returns. -/
def twoWakes : List (Act Unit Unit (Fin 3)) :=
  [.wake 0 (), .wakeUpdate 0, .wakeUpdate 0, .push 0, .pop (), .store (), .lock (), .polled () false,
    .update (), .update (), .wake 1 (), .wakeUpdate 1, .wakeUpdate 1, .wake 2 (), .wakeUpdate 2]

/-- The second wake was made after the poll began and has returned, as has the poll, but the task is not in the
queue and no vCPU has it. -/
theorem woken_not_queued : ∃ r : Runtime Unit Unit (Fin 3), (runtime Unit Unit (Fin 3)).Reachable r ∧
    r.wakes 2 = .returned () 1 ∧ r.polls () = 1 ∧ r.finished () = false ∧ r.queue = [] ∧ r.cpus () = .idle := by
  have hsome : ((LTS.runFn Runtime.next Runtime.new twoWakes).any fun r =>
      r.wakes 2 = .returned () 1 && r.polls () = 1 && !r.finished () && r.queue = [] && r.cpus () = .idle) = true := by
    decide +kernel
  obtain ⟨r, hr, hp⟩ := (Option.any_eq_true _ _).1 hsome
  simp only [and_eq_true, decide_eq_true_eq, not_eq_true'] at hp
  obtain ⟨⟨⟨⟨hw, hn⟩, hf⟩, hq⟩, hc⟩ := hp
  exact ⟨r, ⟨_, _, rfl, LTS.runFn_run hr⟩, hw, hn, hf, hq, hc⟩

/-- A wake that comes while the future is being polled leads to a second poll. -/
theorem tasks_scheduled_rescheduled : ∃ r : Runtime Unit Unit (Fin 2), (runtime Unit Unit (Fin 2)).Reachable r ∧
    (r.wakes 1).effect = some ((), 1) ∧ (1 < r.polls () ∨ Due r ()) := by
  have hsome : ((LTS.runFn Runtime.next (Runtime.new : Runtime Unit Unit (Fin 2))
      [.wake 0 (), .wakeUpdate 0, .wakeUpdate 0, .push 0, .pop (), .store (), .lock (), .wake 1 (), .wakeUpdate 1,
        .wakeUpdate 1, .polled () false]).any fun r =>
      r.wakes 1 = .returned () 1 && !r.finished () && r.cpus () = .pending () .load) = true := by
    decide +kernel
  obtain ⟨r, hr, hp⟩ := (Option.any_eq_true _ _).1 hsome
  simp only [and_eq_true, decide_eq_true_eq, not_eq_true'] at hp
  obtain ⟨⟨hw, hf⟩, hc⟩ := hp
  have hreach : (runtime Unit Unit (Fin 2)).Reachable r := ⟨_, _, rfl, LTS.runFn_run hr⟩
  have heff : (r.wakes 1).effect = some ((), 1) := by rw [hw]; rfl
  exact ⟨r, hreach, heff, (tasks_scheduled hreach).2.2.2 1 () 1 heff hf fun k => by rw [hc]; nofun⟩

end Mushroom.L4.Task
