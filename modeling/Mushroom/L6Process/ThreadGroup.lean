import Mushroom.Core.LTS

/-!
# The threads of a process

`kernel/user/process/thread/running_state.rs` and the parts of `process.rs`,
`thread.rs` and `syscall.rs` that use it. The first poll of a thread puts it
into the thread list and counts it as running; every later poll looks first at
its `State` (`watch`). `exit` counts a thread out, and the one that finds the
counter at one ends the process with `exit_group`, as an explicit request does.
`execve` restarts the leader, thread 0, and terminates all others; a leader that
has exited waits for that in `PendingRestartValues::get`.

Every critical section is one step: of a thread's own `State`, of the thread
list with the terminations in it, the `fetch_sub` of the counter and the `set`
of the exit status. A step that panics, or waits for a mutex its own thread
holds, is an `error`. `requested` (some thread has asked for the end) and
`entries` (the calls of `Process::exit_group`) are for the statements only.
-/
namespace Mushroom.L6.Threads
open List Option Function

/-- running_state.rs:15-24 -/
inductive State where
  | running | paused | terminated | restart
  deriving DecidableEq

/-- Where the task of a thread stands.

- `unpolled`: it is spawned.
- `watching`: it is between two polls; `user`: it is in the program or in a
  system call; `parked`: it is in a system call that never returns.
- `exiting`: in `exit`, it has changed its `State`.
- `entering`: it is in `exit_group`; `killing`: it has set the exit status.
  `locked` tells that it holds its own `ThreadGuard`.
- `arriving`: it is about to make the wait future in `get`; `getting`: it is
  about to look at the thread list; `looked`: it has; `suspended`: it waits
  there; `restarting`: it has the new program.
- `done`: `run` has returned; `gone`: the `Arc<Thread>` is freed. -/
inductive Pc where
  | unpolled | watching | user | parked
  | exiting (status : Nat)
  | entering (status : Nat) (locked : Bool)
  | killing (status : Nat) (locked : Bool)
  | arriving | getting | looked | suspended | restarting
  | done | gone
  deriving DecidableEq

structure Thread where
  state : State
  /-- a `notify` has come since the closure of `wait_until` was last evaluated -/
  notified : Bool
  pc : Pc
  deriving DecidableEq

/-- kernel/user/process/thread.rs:98-131 -/
def Thread.new : Thread := ⟨.running, true, .unpolled⟩

inductive Output where
  | commit | fail
  deriving DecidableEq

/-- Whether it was requested, which threads had not exited, and what is done with the output. -/
structure Entry where
  requested : Bool
  left : List Nat
  output : Option Output
  deriving DecidableEq

structure Process where
  pid : Nat
  /-- the threads created so far; thread 0 is the leader -/
  created : Nat
  thread : Nat → Thread
  /-- `Process::threads` -/
  threads : List Nat
  running : Nat
  exitStatus : Option Nat
  requested : Bool
  entries : List Entry

inductive Fault where
  | unreachable | index | slice | unwrap | deadlock
  deriving DecidableEq

inductive Act where
  | create (t : Nat)
  | poll (t : Nat)
  | watch (t : Nat)
  | yield (t : Nat)
  | exit (t status : Nat)
  | count (t : Nat)
  | exitGroup (t status : Nat)
  | enter (t : Nat)
  | kill (t : Nat)
  | execve (t : Nat)
  | wait (t : Nat)
  | look (t : Nat)
  | take (t : Nat)
  | wake (t : Nat)
  | restart (t : Nat)
  | free (t : Nat)
  deriving DecidableEq

def Thread.left (th : Thread) : Bool := th.state = .running || th.state = .restart

namespace Process

/-- A process with its leader spawned. -/
def new (pid : Nat) : Process := ⟨pid, 1, fun _ => .new, [], 0, none, false, []⟩

def set (p : Process) (t : Nat) (th : Thread) : Process := { p with thread := update p.thread t th }

def goto (p : Process) (t : Nat) (pc : Pc) : Process := p.set t ⟨(p.thread t).state, (p.thread t).notified, pc⟩

/-- A change of the `State` with a `notify`. -/
def change (p : Process) (t : Nat) (state : State) : Process := p.set t ⟨state, true, (p.thread t).pc⟩

/-- `Weak::upgrade` of an element of the thread list -/
def alive (p : Process) (t : Nat) : Bool := (p.thread t).pc ≠ .gone

def left (p : Process) : List Nat := (List.range p.created).filter fun i => (p.thread i).left

/-- The first thing `exit_group` does is to commit the output of init or to fail.
kernel/user/process.rs:201-210 -/
def call (p : Process) (status : Nat) : Process :=
  let output := if p.pid = 1 then some (if status = 0 then Output.commit else Output.fail) else none
  { p with entries := p.entries ++ [⟨p.requested, p.left, output⟩] }

/-- The exit status is set by the first call only.
process.rs:212-215 -/
def setExitStatus (p : Process) (status : Nat) : Process := { p with exitStatus := p.exitStatus <|> some status }

/-- By one that holds the thread list and the guard of `own`; a process that ends here needs the list again.
running_state.rs:71-89, process.rs:163-171 -/
def terminate (own : Option Nat) (status : Nat) (p : Process) (t : Nat) : Except Fault Process :=
  match (p.thread t).state with
  | .running =>
    if own = some t then .error .deadlock
    else
      let q := { p.change t .terminated with running := p.running - 1 }
      if p.running = 1 then
        if p.exitStatus.isSome then .ok (q.call status) else .error .deadlock
      else .ok q
  | .paused | .restart => .ok (p.set t ⟨.terminated, (p.thread t).notified, (p.thread t).pc⟩)
  | .terminated => .ok p

def terminateAll (own : Option Nat) (status : Nat) (p : Process) (ts : List Nat) : Except Fault Process :=
  (ts.filter p.alive).foldlM (terminate own status) p

/-- `Thread::execve` of the leader.
running_state.rs:91-103 -/
def restartLeader (p : Process) (t : Nat) : Except Fault Process :=
  match (p.thread t).state with
  | .running => .ok (p.change t .restart)
  | .paused => .ok { p.change t .restart with running := p.running + 1 }
  | .terminated => .ok p
  | .restart => .error .unreachable

/-- process.rs:173-195 -/
def execve (p : Process) : Except Fault Process :=
  match p.threads with
  | [] => .error .index
  | leader :: rest =>
    if p.alive leader then
      (p.restartLeader leader).bind fun p => { p with threads := [leader] }.terminateAll none 0 rest
    else .error .unwrap

/-- The rest of `exit_group`.
process.rs:217-224 -/
def kill (p : Process) (own : Option Nat) (status : Nat) : Except Fault Process :=
  { p with threads := [] }.terminateAll own status p.threads

/-- running_state.rs:45-69 -/
def exit (p : Process) (t status : Nat) : Except Fault Process :=
  match (p.thread t).state with
  | .running => .ok ((p.change t (if t = 0 then .paused else .terminated)).goto t (.exiting status))
  | .paused | .terminated => .ok (p.goto t .parked)
  | .restart => .error .unreachable

/-- The thread list as `get` looks at it.
running_state.rs:137-145 -/
def look (p : Process) (t : Nat) : Except Fault Process :=
  match p.threads with
  | [] => .error .slice
  | _ :: rest =>
    if rest.any fun i => p.alive i && (p.thread i).state = .running then .ok (p.goto t .suspended)
    else .ok (p.goto t .looked)

/-- The own `State` as `get` looks at it.
running_state.rs:147-159 -/
def take (p : Process) (t : Nat) : Except Fault Process :=
  match (p.thread t).state with
  | .terminated => .ok (p.goto t .done)
  | .paused => .ok (p.goto t .suspended)
  | .restart => .ok (p.set t ⟨.running, (p.thread t).notified, .restarting⟩)
  | .running => .error .unreachable

/-- The `State` if there was a `notify`, then the exit status; `pc` is where it goes on.
running_state.rs:105-126 -/
def watch (p : Process) (t : Nat) (pc : Pc) : Process :=
  let th := p.thread t
  let goOn := if p.exitStatus.isSome then .done else pc
  if th.notified then
    match th.state with
    | .running => p.set t ⟨th.state, false, goOn⟩
    | .terminated => p.set t ⟨th.state, false, .done⟩
    | .paused | .restart => p.set t ⟨th.state, false, .arriving⟩
  else p.goto t goOn

/-- A poll of a thread suspended in `get`.
running_state.rs:162-168 -/
def wake (p : Process) (t : Nat) : Process :=
  if (p.thread t).notified then p.goto t .arriving
  else if p.exitStatus.isSome then p.goto t .done
  else p

/-- The steps; a thread that does not exist or stands elsewhere has none.
process.rs:152-171, thread.rs:213-277, syscall.rs:1393-1507,1611-1635,3094-3099 -/
def next (p : Process) (a : Act) : Option (Except Fault Process) :=
  match a with
  | .create t =>
    if t < p.created ∧ (p.thread t).pc = .user then
      some (.ok { p.set p.created .new with created := p.created + 1 })
    else none
  | .poll t =>
    if t < p.created ∧ (p.thread t).pc = .unpolled then
      some (.ok { p.goto t .watching with threads := p.threads ++ [t], running := p.running + 1 })
    else none
  | .watch t =>
    if t < p.created then
      match (p.thread t).pc with
      | .watching => some (.ok (p.watch t .user))
      | .parked => some (.ok (p.watch t .parked))
      | _ => none
    else none
  | .yield t => if t < p.created ∧ (p.thread t).pc = .user then some (.ok (p.goto t .watching)) else none
  | .exit t status => if t < p.created ∧ (p.thread t).pc = .user then some (p.exit t status) else none
  | .count t =>
    if t < p.created then
      match (p.thread t).pc with
      | .exiting status =>
        let q := { p with running := p.running - 1 }
        some (.ok (if p.running = 1 then (q.call status).goto t (.entering status true) else q.goto t .parked))
      | _ => none
    else none
  | .exitGroup t status =>
    if t < p.created ∧ (p.thread t).pc = .user then
      some (.ok (({ p with requested := true }.call status).goto t (.entering status false)))
    else none
  | .enter t =>
    if t < p.created then
      match (p.thread t).pc with
      | .entering status locked =>
        some (.ok ((p.setExitStatus status).goto t (if p.exitStatus.isSome then .parked else .killing status locked)))
      | _ => none
    else none
  | .kill t =>
    if t < p.created then
      match (p.thread t).pc with
      | .killing status locked => some ((p.kill (if locked then some t else none) status).map fun q => q.goto t .parked)
      | _ => none
    else none
  | .execve t => if t < p.created ∧ (p.thread t).pc = .user then some (p.execve.map fun q => q.goto t .parked) else none
  | .wait t =>
    if t < p.created ∧ (p.thread t).pc = .arriving then
      some (.ok (p.set t ⟨(p.thread t).state, false, .getting⟩))
    else none
  | .look t => if t < p.created ∧ (p.thread t).pc = .getting then some (p.look t) else none
  | .take t => if t < p.created ∧ (p.thread t).pc = .looked then some (p.take t) else none
  | .wake t => if t < p.created ∧ (p.thread t).pc = .suspended then some (.ok (p.wake t)) else none
  | .restart t =>
    if t < p.created ∧ (p.thread t).pc = .restarting then
      some (.ok (p.set t ⟨(p.thread t).state, true, .watching⟩))
    else none
  | .free t => if t < p.created ∧ (p.thread t).pc = .done then some (.ok (p.goto t .gone)) else none

end Process

/-- The process with the pid `pid`; a step that faults is not taken. -/
def process (pid : Nat) : LTS Process Act where
  init p := p = .new pid
  step p a q := p.next a = some (.ok q)

/-! ## What a step can do -/

/-- The task polls `watch` and then the thread. -/
def Pc.runs : Pc → Bool
  | watching | user | parked => true
  | _ => false

/-- A poll of the task may find that the thread is over. -/
def Pc.ends : Pc → Bool
  | watching | parked | looked | suspended => true
  | _ => false

/-- The steps that do not fault, with their outcomes told apart. -/
inductive Step (p : Process) : Act → Process → Prop where
  | create {t : Nat} : t < p.created → (p.thread t).pc = .user →
      Step p (.create t) { p.set p.created .new with created := p.created + 1 }
  | poll {t : Nat} : t < p.created → (p.thread t).pc = .unpolled →
      Step p (.poll t) { p.goto t .watching with threads := p.threads ++ [t], running := p.running + 1 }
  | go {a : Act} {t : Nat} (n : Bool) (pc : Pc) : t < p.created → (p.thread t).pc.runs = true → pc.runs = true →
      (n = true → (p.thread t).notified = true) → Step p a (p.set t ⟨(p.thread t).state, n, pc⟩)
  | finish {a : Act} {t : Nat} (n : Bool) : t < p.created → (p.thread t).pc.ends = true →
      p.exitStatus.isSome = true ∨ (p.thread t).state = .terminated →
      Step p a (p.set t ⟨(p.thread t).state, n, .done⟩)
  | arrive {a : Act} {t : Nat} (n : Bool) : t < p.created → (p.thread t).pc.ends = true →
      ((p.thread t).state = .paused ∨ (p.thread t).state = .restart) ∨
        ((p.thread t).pc = .suspended ∧ (p.thread t).notified = true) →
      Step p a (p.set t ⟨(p.thread t).state, n, .arriving⟩)
  | exit {t status : Nat} : t < p.created → (p.thread t).pc = .user → (p.thread t).state = .running →
      Step p (.exit t status) (p.set t ⟨if t = 0 then .paused else .terminated, true, .exiting status⟩)
  | count {t status : Nat} : t < p.created → (p.thread t).pc = .exiting status → p.running ≠ 1 →
      Step p (.count t) ({ p with running := p.running - 1 }.goto t .parked)
  | last {t status : Nat} : t < p.created → (p.thread t).pc = .exiting status → p.running = 1 →
      Step p (.count t) (({ p with running := p.running - 1 }.call status).goto t (.entering status true))
  | request {t status : Nat} : t < p.created → (p.thread t).pc = .user →
      Step p (.exitGroup t status) (({ p with requested := true }.call status).goto t (.entering status false))
  | late {t status : Nat} {locked : Bool} : t < p.created → (p.thread t).pc = .entering status locked →
      p.exitStatus.isSome = true → Step p (.enter t) (p.goto t .parked)
  | enter {t status : Nat} {locked : Bool} : t < p.created → (p.thread t).pc = .entering status locked →
      p.exitStatus = none → Step p (.enter t) ({ p with exitStatus := some status }.goto t (.killing status locked))
  | kill {t status : Nat} {locked : Bool} {q : Process} : t < p.created → (p.thread t).pc = .killing status locked →
      p.kill (if locked then some t else none) status = .ok q → Step p (.kill t) (q.goto t .parked)
  | execve {t : Nat} {q : Process} : t < p.created → (p.thread t).pc = .user → p.execve = .ok q →
      Step p (.execve t) (q.goto t .parked)
  | wait {t : Nat} : t < p.created → (p.thread t).pc = .arriving →
      Step p (.wait t) (p.set t ⟨(p.thread t).state, false, .getting⟩)
  | look {t : Nat} (pc : Pc) : t < p.created → (p.thread t).pc = .getting → pc = .suspended ∨ pc = .looked →
      Step p (.look t) (p.goto t pc)
  | stay {t : Nat} : t < p.created → (p.thread t).pc = .looked → (p.thread t).state = .paused →
      Step p (.take t) (p.goto t .suspended)
  | take {t : Nat} : t < p.created → (p.thread t).pc = .looked → (p.thread t).state = .restart →
      Step p (.take t) (p.set t ⟨.running, (p.thread t).notified, .restarting⟩)
  | idle {t : Nat} : Step p (.wake t) p
  | restart {t : Nat} : t < p.created → (p.thread t).pc = .restarting →
      Step p (.restart t) (p.set t ⟨(p.thread t).state, true, .watching⟩)
  | free {t : Nat} : t < p.created → (p.thread t).pc = .done → Step p (.free t) (p.goto t .gone)

section

variable {p q : Process} {t status : Nat}

lemma step_watch {a : Act} {pc : Pc} (ht : t < p.created)
    (hpc : (p.thread t).pc = .watching ∨ (p.thread t).pc = .parked) (hon : pc.runs) : Step p a (p.watch t pc) := by
  have hruns : (p.thread t).pc.runs := by rcases hpc with h | h <;> rw [h] <;> rfl
  have hends : (p.thread t).pc.ends := by rcases hpc with h | h <;> rw [h] <;> rfl
  simp only [Process.watch, Process.goto]
  cases hes : p.exitStatus.isSome with
  | true =>
    simp only [if_true]
    split
    · split
      iterate 2 exact .finish false ht hends (.inl hes)
      · rename_i hs
        exact .arrive false ht hends (.inl (.inl hs))
      · rename_i hs
        exact .arrive false ht hends (.inl (.inr hs))
    · exact .finish _ ht hends (.inl hes)
  | false =>
    simp only [Bool.false_eq_true, if_false]
    split
    · rename_i hn
      split
      · exact .go false pc ht hruns hon nofun
      · rename_i hs
        exact .finish false ht hends (.inr hs)
      · rename_i hs
        exact .arrive false ht hends (.inl (.inl hs))
      · rename_i hs
        exact .arrive false ht hends (.inl (.inr hs))
    · exact .go _ pc ht hruns hon id

section

variable (ht : t < p.created)

include ht

lemma step_exit (hpc : (p.thread t).pc = .user) (h : p.exit t status = .ok q) : Step p (.exit t status) q := by
  unfold Process.exit at h
  cases hs : (p.thread t).state with
  | running =>
    rw [hs] at h
    cases h
    have hset : (p.change t (if t = 0 then .paused else .terminated)).goto t (.exiting status) =
        p.set t ⟨if t = 0 then .paused else .terminated, true, .exiting status⟩ := by
      simp [Process.goto, Process.change, Process.set]
    rw [hset]
    exact .exit ht hpc hs
  | paused | terminated =>
    rw [hs] at h
    cases h
    exact .go _ .parked ht (by rw [hpc]; rfl) rfl id
  | restart =>
    rw [hs] at h
    cases h

lemma step_look (hpc : (p.thread t).pc = .getting) (h : p.look t = .ok q) : Step p (.look t) q := by
  unfold Process.look at h
  split at h
  · cases h
  split at h
  · cases h
    exact .look .suspended ht hpc (.inl rfl)
  · cases h
    exact .look .looked ht hpc (.inr rfl)

lemma step_take (hpc : (p.thread t).pc = .looked) (h : p.take t = .ok q) : Step p (.take t) q := by
  unfold Process.take at h
  cases hs : (p.thread t).state with
  | terminated =>
    rw [hs] at h
    cases h
    exact .finish _ ht (by rw [hpc]; rfl) (.inr hs)
  | paused =>
    rw [hs] at h
    cases h
    exact .stay ht hpc hs
  | restart =>
    rw [hs] at h
    cases h
    exact .take ht hpc hs
  | running =>
    rw [hs] at h
    cases h

lemma step_wake (hpc : (p.thread t).pc = .suspended) : Step p (.wake t) (p.wake t) := by
  have hends : (p.thread t).pc.ends := by rw [hpc]; rfl
  unfold Process.wake
  split
  · rename_i hn
    exact .arrive _ ht hends (.inr ⟨hpc, hn⟩)
  split
  · rename_i hes
    exact .finish _ ht hends (.inl hes)
  · exact .idle

lemma step_enter {locked : Bool}  (hpc : (p.thread t).pc = .entering status locked) : Step p (.enter t)
      ((p.setExitStatus status).goto t (if p.exitStatus.isSome then .parked else .killing status locked)) := by
  cases hes : p.exitStatus with
  | none =>
    have hset : p.setExitStatus status = { p with exitStatus := some status } := by
      unfold Process.setExitStatus
      rw [hes]
      rfl
    rw [hset]
    exact .enter ht hpc hes
  | some st =>
    have hset : p.setExitStatus status = p := by
      have hor : (p.exitStatus <|> some status) = p.exitStatus := by
        rw [hes]
        rfl
      unfold Process.setExitStatus
      rw [hor]
    rw [hset]
    exact .late ht hpc (by rw [hes]; rfl)

end

lemma step_of_next {a : Act} (h : p.next a = some (.ok q)) : Step p a q := by
  cases a with
  | create t | poll t | exitGroup t status | wait t | restart t | free t =>
    obtain ⟨⟨ht, hpc⟩, h⟩ := ite_none_right_eq_some.1 h
    cases h
    first
    | exact .create ht hpc | exact .poll ht hpc | exact .request ht hpc | exact .wait ht hpc | exact .restart ht hpc
    | exact .free ht hpc
  | watch t =>
    obtain ⟨ht, h⟩ := ite_none_right_eq_some.1 h
    split at h
    · rename_i hpc
      cases h
      exact step_watch ht (.inl hpc) rfl
    · rename_i hpc
      cases h
      exact step_watch ht (.inr hpc) rfl
    · cases h
  | yield t =>
    obtain ⟨⟨ht, hpc⟩, h⟩ := ite_none_right_eq_some.1 h
    cases h
    exact .go _ .watching ht (by rw [hpc]; rfl) rfl id
  | exit t status =>
    obtain ⟨⟨ht, hpc⟩, h⟩ := ite_none_right_eq_some.1 h
    exact step_exit ht hpc (Option.some.inj h)
  | count t =>
    obtain ⟨ht, h⟩ := ite_none_right_eq_some.1 h
    split at h
    · rename_i status hpc
      cases h
      split
      · rename_i hrun
        exact .last ht hpc hrun
      · rename_i hrun
        exact .count ht hpc hrun
    · cases h
  | enter t =>
    obtain ⟨ht, h⟩ := ite_none_right_eq_some.1 h
    split at h
    · rename_i status locked hpc
      cases h
      exact step_enter ht hpc
    · cases h
  | kill t =>
    obtain ⟨ht, h⟩ := ite_none_right_eq_some.1 h
    split at h
    · rename_i status locked hpc
      cases hk : p.kill (if locked then some t else none) status with
      | error f =>
        rw [hk] at h
        cases h
      | ok q' =>
        rw [hk] at h
        cases h
        exact .kill ht hpc hk
    · cases h
  | execve t =>
    obtain ⟨⟨ht, hpc⟩, h⟩ := ite_none_right_eq_some.1 h
    cases hx : p.execve with
    | error f =>
      rw [hx] at h
      cases h
    | ok q' =>
      rw [hx] at h
      cases h
      exact .execve ht hpc hx
  | look t =>
    obtain ⟨⟨ht, hpc⟩, h⟩ := ite_none_right_eq_some.1 h
    exact step_look ht hpc (Option.some.inj h)
  | take t =>
    obtain ⟨⟨ht, hpc⟩, h⟩ := ite_none_right_eq_some.1 h
    exact step_take ht hpc (Option.some.inj h)
  | wake t =>
    obtain ⟨⟨ht, hpc⟩, h⟩ := ite_none_right_eq_some.1 h
    cases h
    exact step_wake ht hpc

end

/-! ## Terminations -/

lemma foldlM_keeps {σ α ε : Type} {f : σ → α → Except ε σ} {P : σ → Prop} {l : List α}
    (hstep : ∀ s a s', a ∈ l → P s → f s a = .ok s' → P s') {s s' : σ} (hs : P s) (h : l.foldlM f s = .ok s') :
    P s' := by
  induction l generalizing s with
  | nil =>
    cases h
    exact hs
  | cons a l ih =>
    rw [foldlM_cons] at h
    cases ha : f s a with
    | error e =>
      rw [ha] at h
      cases h
    | ok s1 =>
      rw [ha] at h
      exact ih (fun s b s' hb => hstep s b s' (mem_cons_of_mem a hb)) (hstep s a s1 mem_cons_self hs ha) h

/-- Some threads are terminated, and those that were running are notified. -/
structure Swept (p q : Process) : Prop where
  created : q.created = p.created
  threads : q.threads = p.threads
  exitStatus : q.exitStatus = p.exitStatus
  requested : q.requested = p.requested
  pc : ∀ i, (q.thread i).pc = (p.thread i).pc
  state : ∀ i, (q.thread i).state = (p.thread i).state ∨ (q.thread i).state = .terminated
  notified : ∀ i, (q.thread i).notified = (p.thread i).notified ∨ (p.thread i).state = .running

lemma Swept.refl (p : Process) : Swept p p := ⟨rfl, rfl, rfl, rfl, fun _ => rfl, fun _ => .inl rfl, fun _ => .inl rfl⟩

lemma Swept.trans {p q r : Process} (h : Swept p q) (h' : Swept q r) : Swept p r := by
  refine ⟨h'.created.trans h.created, h'.threads.trans h.threads, h'.exitStatus.trans h.exitStatus,
    h'.requested.trans h.requested, fun i => (h'.pc i).trans (h.pc i), fun i => ?_, fun i => ?_⟩
  · rcases h'.state i with he | he
    · rw [he]
      exact h.state i
    · exact .inr he
  rcases h'.notified i with he | he
  · rw [he]
    exact h.notified i
  rcases h.state i with hs | hs
  · exact .inr (hs.symm.trans he)
  · cases hs.symm.trans he

/-- What a termination does, if it does not fault. -/
inductive Stop (status : Nat) (p : Process) (t : Nat) : Process → Prop where
  | already : (p.thread t).state = .terminated → Stop status p t p
  | quiet : (p.thread t).state = .paused ∨ (p.thread t).state = .restart →
      Stop status p t (p.set t ⟨.terminated, (p.thread t).notified, (p.thread t).pc⟩)
  | counted : (p.thread t).state = .running → p.running ≠ 1 →
      Stop status p t { p.set t ⟨.terminated, true, (p.thread t).pc⟩ with running := p.running - 1 }
  | last : (p.thread t).state = .running → p.running = 1 → p.exitStatus.isSome = true →
      Stop status p t ({ p.set t ⟨.terminated, true, (p.thread t).pc⟩ with running := p.running - 1 }.call status)

section

variable {own : Option Nat} {status : Nat} {p q : Process} {t : Nat}

lemma stop_of_terminate (h : p.terminate own status t = .ok q) : Stop status p t q := by
  unfold Process.terminate at h
  cases hs : (p.thread t).state with
  | terminated =>
    rw [hs] at h
    cases h
    exact .already hs
  | paused =>
    rw [hs] at h
    cases h
    exact .quiet (.inl hs)
  | restart =>
    rw [hs] at h
    cases h
    exact .quiet (.inr hs)
  | running =>
    simp only [hs] at h
    split at h
    · cases h
    split at h
    · rename_i hrun
      split at h
      · rename_i hes
        cases h
        exact .last hs hrun hes
      · cases h
    · rename_i hrun
      cases h
      exact .counted hs hrun

section

variable (h : Stop status p t q)

include h

lemma Stop.others {i : Nat} (hi : i ≠ t) : q.thread i = p.thread i := by
  cases h with
  | already hs => rfl
  | quiet hs | counted hs hrun | last hs hrun hes => exact update_of_ne hi ..

lemma Stop.state : (q.thread t).state = .terminated := by
  cases h with
  | already hs => exact hs
  | quiet hs | counted hs hrun | last hs hrun hes =>
    show (update p.thread t _ t).state = _
    rw [update_self]

lemma Stop.pc : (q.thread t).pc = (p.thread t).pc := by
  cases h with
  | already hs => rfl
  | quiet hs | counted hs hrun | last hs hrun hes =>
    show (update p.thread t _ t).pc = _
    rw [update_self]

lemma Stop.notified : (q.thread t).notified = (p.thread t).notified ∨ (p.thread t).state = .running := by
  cases h with
  | already hs => exact .inl rfl
  | quiet hs =>
    refine .inl ?_
    show (update p.thread t _ t).notified = _
    rw [update_self]
  | counted hs hrun | last hs hrun hes => exact .inr hs

lemma Stop.swept : Swept p q := by
  have hsame : q.created = p.created ∧ q.threads = p.threads ∧ q.exitStatus = p.exitStatus ∧
      q.requested = p.requested := by
    cases h with
    | already hs | quiet hs | counted hs hrun | last hs hrun hes => exact ⟨rfl, rfl, rfl, rfl⟩
  refine ⟨hsame.1, hsame.2.1, hsame.2.2.1, hsame.2.2.2, fun i => ?_, fun i => ?_, fun i => ?_⟩
  · by_cases hi : i = t
    · rw [hi]
      exact h.pc
    · rw [h.others hi]
  · by_cases hi : i = t
    · rw [hi]
      exact .inr h.state
    · rw [h.others hi]
      exact .inl rfl
  · by_cases hi : i = t
    · rw [hi]
      exact h.notified
    · rw [h.others hi]
      exact .inl rfl

end

/-- Behind all terminations, every thread of the list that was alive is
terminated. -/
lemma terminateAll_swept {ts : List Nat} (h : p.terminateAll own status ts = .ok q) :
    Swept p q ∧ (∀ t ∈ ts, p.alive t → (q.thread t).state = .terminated) ∧ ∀ i, i ∉ ts → q.thread i = p.thread i := by
  have hfold : ∀ (l : List Nat) (p : Process), l.foldlM (Process.terminate own status) p = .ok q →
      Swept p q ∧ (∀ t ∈ l, (q.thread t).state = .terminated) ∧ ∀ i, i ∉ l → q.thread i = p.thread i := by
    intro l
    induction l with
    | nil =>
      intro p h
      cases h
      exact ⟨.refl _, nofun, fun _ _ => rfl⟩
    | cons t l ih =>
      intro p h
      rw [foldlM_cons] at h
      cases ht : p.terminate own status t with
      | error f =>
        rw [ht] at h
        cases h
      | ok p1 =>
        rw [ht] at h
        have hstop := stop_of_terminate ht
        obtain ⟨hswept, hdone, hothers⟩ := ih p1 h
        refine ⟨hstop.swept.trans hswept, fun i hi => ?_, fun i hi => ?_⟩
        · rcases mem_cons.1 hi with he | hi
          · rw [he]
            rcases hswept.state t with hs | hs
            · rw [hs]
              exact hstop.state
            · exact hs
          · exact hdone i hi
        · rw [hothers i fun hmem => hi (mem_cons_of_mem t hmem), hstop.others fun he => hi (he ▸ mem_cons_self)]
  obtain ⟨hswept, hdone, hothers⟩ := hfold _ p h
  refine ⟨hswept, fun t ht ha => hdone t (mem_filter.2 ⟨ht, ha⟩), fun i hi => hothers i fun hmem => ?_⟩
  exact hi (mem_filter.1 hmem).1

end

end Mushroom.L6.Threads
