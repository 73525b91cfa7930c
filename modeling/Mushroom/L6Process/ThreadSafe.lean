import Mushroom.L6Process.ThreadCount

/-!
# The faults of the life cycle

The `unreachable!()` arms, the index and the slice of the thread list, the
`unwrap` of the leader and the locks taken twice are the faults of a step
(`Faulty`). A thread that waits in `get` or holds its guard in `exit` is not
`Running` (`Sound`), and a termination in `execve` leaves the counter at one at
least, so no lock is taken twice and `get` never finds the thread `Running`.

The other faults are reached (`faults_reached`): by an `exit` or a second
`execve` while the leader is about to be restarted, by an `execve` behind the
end of the process, and by a leader about to look at the thread list in `get`
when `exit_group` empties it. `no_fault` says that there are no others.
-/
namespace Mushroom.L6.Threads
open List Option

open Ledger (upTo le_upTo add_le_upTo)

def Pc.gets : Pc → Bool
  | arriving | getting | looked | suspended => true
  | _ => false

def Pc.locks : Pc → Bool
  | exiting _ | entering _ true | killing _ true => true
  | _ => false

/-- A step of a thread alone: it changes its own `State` only. -/
inductive Turn (t : Nat) (th : Thread) : Thread → Prop where
  | go (n : Bool) (pc : Pc) : th.pc.runs = true → pc.runs = true → Turn t th ⟨th.state, n, pc⟩
  | finish (n : Bool) : th.pc.ends = true → Turn t th ⟨th.state, n, .done⟩
  | arrive (n : Bool) : th.pc.ends = true →
      (th.state = .paused ∨ th.state = .restart) ∨ (th.pc = .suspended ∧ th.notified = true) →
      Turn t th ⟨th.state, n, .arriving⟩
  | exit (status : Nat) : th.pc = .user → th.state = .running →
      Turn t th ⟨if t = 0 then .paused else .terminated, true, .exiting status⟩
  | count (status : Nat) : th.pc = .exiting status → Turn t th ⟨th.state, th.notified, .parked⟩
  | last (status : Nat) : th.pc = .exiting status → Turn t th ⟨th.state, th.notified, .entering status true⟩
  | request (status : Nat) : th.pc = .user → Turn t th ⟨th.state, th.notified, .entering status false⟩
  | late (status : Nat) (locked : Bool) : th.pc = .entering status locked → Turn t th ⟨th.state, th.notified, .parked⟩
  | enter (status : Nat) (locked : Bool) : th.pc = .entering status locked →
      Turn t th ⟨th.state, th.notified, .killing status locked⟩
  | wait : th.pc = .arriving → Turn t th ⟨th.state, false, .getting⟩
  | look (pc : Pc) : th.pc = .getting → pc = .suspended ∨ pc = .looked → Turn t th ⟨th.state, th.notified, pc⟩
  | stay : th.pc = .looked → th.state = .paused → Turn t th ⟨th.state, th.notified, .suspended⟩
  | take : th.pc = .looked → th.state = .restart → Turn t th ⟨.running, th.notified, .restarting⟩
  | restart : th.pc = .restarting → Turn t th ⟨th.state, true, .watching⟩
  | free : th.pc = .done → Turn t th ⟨th.state, th.notified, .gone⟩

/-- A step is a turn of one thread, or one of the steps that touch the thread list. -/
inductive Shape (p : Process) : Act → Process → Prop where
  | turn {a : Act} {q : Process} (t : Nat) (th : Thread) : t < p.created → Turn t (p.thread t) th →
      q.thread = Function.update p.thread t th → q.threads = p.threads → q.created = p.created → Shape p a q
  | create {t : Nat} : t < p.created → (p.thread t).pc = .user →
      Shape p (.create t) { p.set p.created .new with created := p.created + 1 }
  | poll {t : Nat} : t < p.created → (p.thread t).pc = .unpolled →
      Shape p (.poll t) { p.goto t .watching with threads := p.threads ++ [t], running := p.running + 1 }
  | kill {t status : Nat} {locked : Bool} {q : Process} : t < p.created → (p.thread t).pc = .killing status locked →
      p.kill (if locked then some t else none) status = .ok q → Shape p (.kill t) (q.goto t .parked)
  | execve {t : Nat} {q : Process} : t < p.created → (p.thread t).pc = .user → p.execve = .ok q →
      Shape p (.execve t) (q.goto t .parked)
  | idle {t : Nat} : Shape p (.wake t) p

variable {a : Act} {f : Fault}

lemma shape_of_step {p q : Process} (h : Step p a q) : Shape p a q := by
  cases h with
  | create ht hpc => exact .create ht hpc
  | poll ht hpc => exact .poll ht hpc
  | go n pc ht hpc hpc' => exact .turn _ _ ht (.go n pc hpc hpc') rfl rfl rfl
  | finish n ht hpc => exact .turn _ _ ht (.finish n hpc) rfl rfl rfl
  | arrive n ht hpc hs => exact .turn _ _ ht (.arrive n hpc hs) rfl rfl rfl
  | exit ht hpc hs => exact .turn _ _ ht (.exit _ hpc hs) rfl rfl rfl
  | count ht hpc => exact .turn _ _ ht (.count _ hpc) rfl rfl rfl
  | last ht hpc => exact .turn _ _ ht (.last _ hpc) rfl rfl rfl
  | request ht hpc => exact .turn _ _ ht (.request _ hpc) rfl rfl rfl
  | late ht hpc => exact .turn _ _ ht (.late _ _ hpc) rfl rfl rfl
  | enter ht hpc => exact .turn _ _ ht (.enter _ _ hpc) rfl rfl rfl
  | kill ht hpc hk => exact .kill ht hpc hk
  | execve ht hpc hx => exact .execve ht hpc hx
  | wait ht hpc => exact .turn _ _ ht (.wait hpc) rfl rfl rfl
  | look pc ht hpc hpc' => exact .turn _ _ ht (.look pc hpc hpc') rfl rfl rfl
  | stay ht hpc hs => exact .turn _ _ ht (.stay hpc hs) rfl rfl rfl
  | take ht hpc hs => exact .turn _ _ ht (.take hpc hs) rfl rfl rfl
  | idle => exact .idle
  | restart ht hpc => exact .turn _ _ ht (.restart hpc) rfl rfl rfl
  | free ht hpc => exact .turn _ _ ht (.free hpc) rfl rfl rfl

/-! ## A thread that does not run -/

/-- A thread that waits in `get` or holds its guard in `exit` is not `Running`. -/
def Thread.Sound (th : Thread) : Prop := th.pc.gets = true ∨ th.pc.locks = true → th.state ≠ .running

lemma Pc.not_idle_of_runs {pc : Pc} (h : pc.runs) : pc.gets = false ∧ pc.locks = false := by
  cases pc with
  | watching | user | parked => exact ⟨rfl, rfl⟩
  | _ => cases h

lemma Sound.of_active {th : Thread} (h : th.pc.gets = false ∧ th.pc.locks = false) : th.Sound := by
  intro hidle
  rw [h.1, h.2] at hidle
  exact absurd hidle (by decide)

lemma Sound.of_state {th : Thread} (h : th.state ≠ .running) : th.Sound := fun _ => h

section

variable {t : Nat} {th th' : Thread}

lemma Turn.sound (h : Turn t th th') (hs : th.Sound) : th'.Sound := by
  cases h with
  | go n pc hpc hpc' => exact Sound.of_active (Pc.not_idle_of_runs hpc')
  | finish | count | late | request | restart | free | take => exact Sound.of_active ⟨rfl, rfl⟩
  | arrive n hpc hwhy =>
    refine Sound.of_state fun hr => ?_
    rcases hwhy with (hp | hp) | ⟨hp, -⟩
    · cases hp.symm.trans hr
    · cases hp.symm.trans hr
    · exact hs (.inl (by rw [hp]; rfl)) hr
  | exit status hpc hr =>
    refine Sound.of_state fun hr => ?_
    split at hr <;> cases hr
  | last status hpc => exact Sound.of_state (hs (.inr (by rw [hpc]; rfl)))
  | enter status locked hpc =>
    cases locked with
    | false => exact Sound.of_active ⟨rfl, rfl⟩
    | true => exact Sound.of_state (hs (.inr (by rw [hpc]; rfl)))
  | wait hpc | look pc hpc | stay hpc => exact Sound.of_state (hs (.inl (by rw [hpc]; rfl)))

lemma Turn.polled (h : Turn t th th') : th.pc ≠ .unpolled ∧ th.pc ≠ .gone ∧ th'.pc ≠ .unpolled := by
  cases h with
  | go n pc hpc hpc' => exact ⟨(Pc.polled_of_runs hpc).1, (Pc.of_runs hpc).2.2, (Pc.polled_of_runs hpc').1⟩
  | finish n hpc | arrive n hpc =>
    refine ⟨(Pc.polled_of_ends hpc).1, fun hg => ?_, nofun⟩
    rw [hg] at hpc
    cases hpc
  | look pc hpc hpc' =>
    rw [hpc]
    rcases hpc' with rfl | rfl <;> exact ⟨nofun, nofun, nofun⟩
  | exit status hpc | count status hpc | last status hpc | request status hpc | late status locked hpc
  | enter status locked hpc | wait hpc | stay hpc | take hpc | restart hpc | free hpc =>
    rw [hpc]
    exact ⟨nofun, nofun, nofun⟩

lemma Turn.final (h : Turn t th th') (hs : th.state = .terminated) : th'.state = .terminated := by
  cases h with
  | exit status hpc hr | take hpc hr => cases hr.symm.trans hs
  | _ => exact hs

end

def Process.Sound (p : Process) : Prop := ∀ i, (p.thread i).Sound

variable {own : Option Nat} {status : Nat}

section

variable {E : Prop} {p q p1 : Process} {t l : Nat} {ts : List Nat}

lemma restartLeader_cases (h : p.restartLeader l = .ok q) : (p.thread l).state = .terminated ∧ q = p ∨
      (p.thread l).state ≠ .restart ∧ ∃ r, q = { p.change l .restart with running := r } := by
  unfold Process.restartLeader at h
  cases hs : (p.thread l).state with
  | running =>
    rw [hs] at h
    cases h
    exact .inr ⟨nofun, p.running, rfl⟩
  | paused =>
    rw [hs] at h
    cases h
    exact .inr ⟨nofun, p.running + 1, rfl⟩
  | terminated =>
    rw [hs] at h
    cases h
    exact .inl ⟨rfl, rfl⟩
  | restart =>
    rw [hs] at h
    cases h

lemma Sound.update {th : Thread} (hs : p.Sound) (hth : th.Sound) (h : q.thread = Function.update p.thread t th) :
    q.Sound := by
  intro i
  rw [h, Function.update_apply]
  split
  · exact hth
  · exact hs i

lemma Sound.swept (hs : p.Sound) (h : Swept p q) : q.Sound := by
  intro i hidle hr
  rw [h.pc] at hidle
  rcases h.state i with he | he
  · exact hs i hidle (he.symm.trans hr)
  · cases he.symm.trans hr

lemma Sound.restartLeader (hs : p.Sound) (h : p.restartLeader l = .ok q) : q.Sound := by
  rcases restartLeader_cases h with ⟨-, rfl⟩ | ⟨-, r, rfl⟩
  · exact hs
  · exact Sound.update hs (@Sound.of_state ⟨.restart, true, (p.thread l).pc⟩ nofun) rfl

lemma Sound.parked (hs : p.Sound) : (p.goto t .parked).Sound := Sound.update hs (Sound.of_active ⟨rfl, rfl⟩) rfl

lemma Sound.step (hs : p.Sound) (h : Shape p a q) : q.Sound := by
  cases h with
  | turn t th ht hturn hthread => exact Sound.update hs (hturn.sound (hs t)) hthread
  | create | poll => exact Sound.update hs (Sound.of_active ⟨rfl, rfl⟩) rfl
  | kill ht hpc hk =>
    have hs' : Process.Sound { p with threads := [] } := hs
    exact Sound.parked (Sound.swept hs' (terminateAll_swept hk).1)
  | execve ht hpc hx =>
    obtain ⟨l, rest, p1, -, -, hr, hall⟩ := execve_cases hx
    have hs1 : p1.Sound := Sound.restartLeader hs hr
    have hs' : Process.Sound { p1 with threads := [l] } := hs1
    exact Sound.parked (Sound.swept hs' (terminateAll_swept hall).1)
  | idle => exact hs

/-! ## Terminations do not fault -/

lemma terminate_error (h : p.terminate own status t = .error f) :
    (p.thread t).state = .running ∧ (own = some t ∨ p.running = 1 ∧ p.exitStatus.isSome = false) := by
  unfold Process.terminate at h
  split at h
  · rename_i hs
    refine ⟨hs, ?_⟩
    split at h
    · rename_i ho
      exact .inl ho
    dsimp only at h
    split at h
    · rename_i hrun
      split at h
      · cases h
      rename_i hes
      exact .inr ⟨hrun, Bool.eq_false_iff.2 hes⟩
    · cases h
  all_goals cases h

lemma foldlM_ne_error {σ α ε : Type} {f : σ → α → Except ε σ} {P : σ → Prop} {l : List α}
    (hstep : ∀ s a s', a ∈ l → P s → f s a = .ok s' → P s') (hsafe : ∀ s a e, a ∈ l → P s → f s a ≠ .error e)
    {s : σ} (hs : P s) (e : ε) : l.foldlM f s ≠ .error e := by
  induction l generalizing s with
  | nil => nofun
  | cons a l ih =>
    rw [foldlM_cons]
    cases ha : f s a with
    | error e' => exact absurd ha (hsafe s a e' mem_cons_self hs)
    | ok s1 =>
      exact ih (fun s b s' hb => hstep s b s' (mem_cons_of_mem a hb))
        (fun s b e hb => hsafe s b e (mem_cons_of_mem a hb)) (hstep s a s1 mem_cons_self hs ha)

/-- Behind the exit status a termination faults only on the guard of the terminating thread. -/
lemma terminateAll_ne_error_of_set (hes : p.exitStatus.isSome)
    (hown : ∀ t, own = some t → (p.thread t).state ≠ .running) : p.terminateAll own status ts ≠ .error f := by
  refine foldlM_ne_error
    (P := fun p => p.exitStatus.isSome = true ∧ ∀ t, own = some t → (p.thread t).state ≠ .running) ?_ ?_ ⟨hes, hown⟩ f
  · rintro p i q - ⟨hes, hown⟩ hstep
    have hswept := (stop_of_terminate hstep).swept
    refine ⟨by rw [hswept.exitStatus]; exact hes, fun t ht hr => ?_⟩
    rcases hswept.state t with hs | hs
    · exact hown t ht (hs.symm.trans hr)
    · cases hs.symm.trans hr
  · rintro p i e - ⟨hes, hown⟩ herr
    obtain ⟨hr, ho | ⟨-, hn⟩⟩ := terminate_error herr
    · exact hown i ho hr
    rw [hes] at hn
    cases hn

/-- A thread that stays is counted, so before the exit status a termination does not end the process. -/
lemma terminateAll_ne_error_of_stays (hc : Tally E ts p) (hl : l < p.created) (hnot : l ∉ ts)
    (hstays : 1 ≤ (p.thread l).weight) : p.terminateAll none status ts ≠ .error f := by
  refine foldlM_ne_error
    (P := fun p => Tally E ts p ∧ l < p.created ∧ 1 ≤ (p.thread l).weight) ?_ ?_ ⟨hc, hl, hstays⟩ f
  · rintro p i q hi ⟨hc, hl, hstays⟩ hstep
    have hstop := stop_of_terminate hstep
    have hmem := (mem_filter.1 hi).1
    have hne : l ≠ i := fun he => hnot (he ▸ hmem)
    refine ⟨hc.stop hmem hstop, hstop.swept.created ▸ hl, ?_⟩
    rw [hstop.others hne]
    exact hstays
  rintro p i e hi ⟨hc, hl, hstays⟩ herr
  have hmem := (mem_filter.1 hi).1
  obtain ⟨hr, ho | ⟨hrun, -⟩⟩ := terminate_error herr
  · cases ho
  obtain ⟨hlt, hpc⟩ := hc.ids i hmem
  have hw := weight_of_left hpc (.inl hr)
  have hne : l ≠ i := fun he => hnot (he ▸ hmem)
  have hle := add_le_upTo Thread.weight p.thread hl hlt hne
  have hcount := hc.counted
  omega

lemma kill_ne_error {locked : Bool} (hi : Inv E p) (hs : p.Sound) (ht : t < p.created)
    (hpc : (p.thread t).pc = .killing status locked) : p.kill (if locked then some t else none) status ≠ .error f := by
  refine terminateAll_ne_error_of_set (hi.killing t ht status locked hpc) fun i ho => ?_
  cases locked with
  | false => cases ho
  | true =>
    cases ho
    exact hs t (.inr (by rw [hpc]; rfl))

/-! ## The faults that are left -/

inductive Faulty (p : Process) : Act → Fault → Prop where
  | exit {t status : Nat} : (p.thread t).state = .restart → Faulty p (.exit t status) .unreachable
  | index {t : Nat} : t < p.created → (p.thread t).pc = .user → p.threads = [] → Faulty p (.execve t) .index
  | unwrap {t l : Nat} {rest : List Nat} : p.threads = l :: rest → p.alive l = false → Faulty p (.execve t) .unwrap
  | restart {t l : Nat} {rest : List Nat} : p.threads = l :: rest → (p.thread l).state = .restart →
      Faulty p (.execve t) .unreachable
  | slice {t : Nat} : t < p.created → (p.thread t).pc = .getting → p.threads = [] → Faulty p (.look t) .slice

lemma restartLeader_error (h : p.restartLeader l = .error f) : (p.thread l).state = .restart ∧ f = .unreachable := by
  unfold Process.restartLeader at h
  split at h
  all_goals cases h
  rename_i hs
  exact ⟨hs, rfl⟩

lemma terminations_of_execve {rest : List Nat} (hi : Inv False p) (hl : p.threads = l :: rest)
    (hr : p.restartLeader l = .ok p1) : { p1 with threads := [l] }.terminateAll none 0 rest ≠ .error f := by
  have hmem : l ∈ p.threads := by rw [hl]; exact mem_cons_self
  obtain ⟨hnot, -⟩ := nodup_cons.1 (hl ▸ hi.nodup)
  obtain ⟨hi1, hthreads, hes, -⟩ := hi.restartLeader hmem (hi.head hl) hr
  by_cases hset : p1.exitStatus = none
  · obtain ⟨hlt, hpc⟩ := hi1.ids l (hthreads ▸ hmem)
    refine terminateAll_ne_error_of_stays (hi.tally_execve nofun hl hr) hlt hnot ?_
    -- the leader has not been terminated, so it is about to be restarted
    have hstate : (p1.thread l).state = .restart := by
      rcases restartLeader_cases hr with ⟨hs, -⟩ | ⟨-, r, rfl⟩
      · have hne := (hi.young (hes ▸ hset)).state
        rw [← hi.head hl (hes ▸ hset)] at hne
        exact absurd hs hne
      · unfold Process.change
        rw [set_thread, if_pos rfl]
    have hw := weight_of_left hpc (.inr hstate)
    show 1 ≤ (p1.thread l).weight
    omega
  · exact terminateAll_ne_error_of_set (p := { p1 with threads := [l] }) (isSome_iff_ne_none.2 hset)
      fun _ h => nomatch h

lemma faulty_of_execve (hi : Inv False p) (ht : t < p.created) (hpc : (p.thread t).pc = .user)
    (h : p.execve = .error f) : Faulty p (.execve t) f := by
  unfold Process.execve at h
  split at h
  · rename_i hl
    cases h
    exact .index ht hpc hl
  rename_i l rest hl
  split at h
  · cases hr : p.restartLeader l with
    | error f' =>
      rw [hr] at h
      obtain ⟨hs, rfl⟩ := restartLeader_error hr
      cases h
      exact .restart hl hs
    | ok p1 =>
      rw [hr] at h
      exact absurd h (terminations_of_execve hi hl hr)
  · rename_i ha
    cases h
    exact .unwrap hl (Bool.eq_false_iff.2 ha)

lemma error_of_map {α β ε : Type} {x : Except ε α} {f : α → β} {e : ε} (h : x.map f = .error e) : x = .error e := by
  cases x with
  | error e' =>
    cases h
    rfl
  | ok a => cases h

lemma faulty_of_next (hi : Inv False p) (hs : p.Sound) (h : p.next a = some (.error f)) : Faulty p a f := by
  cases a with
  | exit t status =>
    obtain ⟨-, h⟩ := ite_none_right_eq_some.1 h
    have h' := Option.some.inj h
    unfold Process.exit at h'
    cases hr : (p.thread t).state with
    | restart =>
      rw [hr] at h'
      cases h'
      exact .exit hr
    | _ =>
      rw [hr] at h'
      cases h'
  | kill t =>
    obtain ⟨ht, h⟩ := ite_none_right_eq_some.1 h
    split at h
    · rename_i status locked hpc
      exact absurd (error_of_map (Option.some.inj h)) (kill_ne_error hi hs ht hpc)
    · cases h
  | execve t =>
    obtain ⟨⟨ht, hpc⟩, h⟩ := ite_none_right_eq_some.1 h
    exact faulty_of_execve hi ht hpc (error_of_map (Option.some.inj h))
  | look t =>
    obtain ⟨⟨ht, hpc⟩, h⟩ := ite_none_right_eq_some.1 h
    have h' := Option.some.inj h
    unfold Process.look at h'
    split at h'
    · rename_i hl
      cases h'
      exact .slice ht hpc hl
    · split at h' <;> cases h'
  | take t =>
    obtain ⟨⟨-, hpc⟩, h⟩ := ite_none_right_eq_some.1 h
    have h' := Option.some.inj h
    unfold Process.take at h'
    cases hr : (p.thread t).state with
    | running => exact absurd hr (hs t (.inl (by rw [hpc]; rfl)))
    | _ =>
      rw [hr] at h'
      cases h'
  | watch t | count t | enter t =>
    obtain ⟨-, h⟩ := ite_none_right_eq_some.1 h
    split at h <;> cases h
  | _ =>
    obtain ⟨-, h⟩ := ite_none_right_eq_some.1 h
    cases h

end

/-! ## Runs without faults -/

/-- A thread other than the leader: it is never paused or restarted. -/
def Thread.Other (th : Thread) : Prop := (th.state = .running ∨ th.state = .terminated) ∧ th.pc.gets = false

/-- The thread is not about to look at the thread list in `get`. -/
def Thread.Away (th : Thread) : Prop :=
  th.pc ≠ .arriving ∧ th.pc ≠ .getting ∧ ¬(th.pc = .suspended ∧ th.notified = true)

/-- Not an `exit` of a thread about to be restarted, nor an `execve` while another is pending or behind the end of the
process, nor an `exit_group` that empties the thread list while the leader is about to look at it. -/
def Calm (p : Process) : Act → Prop
  | .exit t _ => (p.thread t).state ≠ .restart
  | .execve _ => p.exitStatus = none ∧ (p.thread 0).state ≠ .restart
  | .kill _ => (p.thread 0).Away
  | _ => True

structure Tame (p : Process) : Prop where
  others : ∀ i, i ≠ 0 → (p.thread i).Other
  first : (p.thread 0).pc = .unpolled ∨ (∃ rest, p.threads = 0 :: rest) ∨ (p.thread 0).state = .terminated ∨
    (p.thread 0).pc = .gone
  away : p.threads = [] → (p.thread 0).Away

section

variable {p q : Process} {t : Nat} {th th' : Thread}

lemma Turn.other (h : Turn t th th') (ht : t ≠ 0) (ho : th.Other) : th'.Other := by
  obtain ⟨hs, hg⟩ := ho
  cases h with
  | go n pc hpc hpc' => exact ⟨hs, (Pc.not_idle_of_runs hpc').1⟩
  | arrive n hpc hwhy =>
    rcases hwhy with (hp | hp) | ⟨hp, -⟩
    · rcases hs with hs | hs <;> cases hs.symm.trans hp
    · rcases hs with hs | hs <;> cases hs.symm.trans hp
    rw [hp] at hg
    cases hg
  | exit status hpc hr =>
    rw [if_neg ht]
    exact ⟨.inr rfl, rfl⟩
  | wait hpc | look pc hpc | stay hpc | take hpc =>
    rw [hpc] at hg
    cases hg
  | _ => exact ⟨hs, rfl⟩

lemma Away.of_runs (h : th.pc.runs) : th.Away := by
  refine ⟨fun he => ?_, fun he => ?_, fun he => ?_⟩
  · rw [he] at h
    cases h
  · rw [he] at h
    cases h
  · rw [he.1] at h
    cases h

/-- A terminated leader does not come to look at the thread list. -/
lemma Turn.away (h : Turn t th th') (hs : th.state = .terminated) (ha : th.Away) : th'.Away := by
  cases h with
  | go n pc hpc hpc' => exact Away.of_runs hpc'
  | arrive n hpc hwhy =>
    rcases hwhy with (hp | hp) | hp
    · cases hp.symm.trans hs
    · cases hp.symm.trans hs
    · exact absurd hp ha.2.2
  | wait hpc => exact absurd hpc ha.1
  | look pc hpc => exact absurd hpc ha.2.1
  | stay hpc hp | take hpc hp => cases hp.symm.trans hs
  | _ => exact ⟨nofun, nofun, fun h => nomatch h.1⟩

lemma Tame.new (pid : Nat) : Tame (.new pid) where
  others _ _ := ⟨.inl rfl, rfl⟩
  first := .inl rfl
  away _ := ⟨nofun, nofun, fun h => nomatch h.1⟩

lemma Other.swept (h : Swept p q) {i : Nat} (ho : (p.thread i).Other) : (q.thread i).Other := by
  unfold Thread.Other
  rw [h.pc]
  refine ⟨?_, ho.2⟩
  rcases h.state i with he | he
  · rw [he]
    exact ho.1
  · exact .inr he

lemma Other.parked {i : Nat} (ho : (p.thread i).Other) : ((p.goto t .parked).thread i).Other := by
  unfold Process.goto
  rw [set_thread]
  split
  · rename_i he
    exact ⟨he ▸ ho.1, rfl⟩
  · exact ho

section

variable (hi : Tame p)

include hi

lemma Tame.turn (h : Turn t (p.thread t) th) (hthread : q.thread = Function.update p.thread t th)
    (hthreads : q.threads = p.threads) : Tame q := by
  have hget : ∀ i, q.thread i = if i = t then th else p.thread i := fun i => by
    rw [hthread]
    exact Function.update_apply ..
  obtain ⟨hpolled, hgone, -⟩ := h.polled
  refine ⟨fun i h0 => ?_, ?_, fun hnil => ?_⟩
  · rw [hget]
    split
    · rename_i he
      exact h.other (he ▸ h0) (hi.others t (he ▸ h0))
    · exact hi.others i h0
  · rw [hget, hthreads]
    split
    · rename_i he
      subst he
      rcases hi.first with hf | hf | hf | hf
      · exact absurd hf hpolled
      · exact .inr (.inl hf)
      · exact .inr (.inr (.inl (h.final hf)))
      · exact absurd hf hgone
    · exact hi.first
  rw [hthreads] at hnil
  rw [hget]
  split
  · rename_i he
    subst he
    -- the leader has been terminated by the one who emptied the list
    rcases hi.first with hf | ⟨rest, hf⟩ | hf | hf
    · exact absurd hf hpolled
    · rw [hnil] at hf
      cases hf
    · exact h.away hf (hi.away hnil)
    · exact absurd hf hgone
  · exact hi.away hnil

lemma Tame.create (hpos : 0 < p.created) : Tame { p.set p.created .new with created := p.created + 1 } := by
  set q := p.set p.created .new
  have hzero : q.thread 0 = p.thread 0 := by rw [set_thread, if_neg (Nat.ne_of_lt hpos)]
  refine ⟨fun i h0 => ?_, ?_, fun hnil => ?_⟩
  · rw [set_thread]
    split
    · exact ⟨.inl rfl, rfl⟩
    · exact hi.others i h0
  · rw [hzero]
    exact hi.first
  · rw [hzero]
    exact hi.away hnil

lemma Tame.poll {E : Prop} (hinv : Inv E p) (ht : t < p.created) (hpc : (p.thread t).pc = .unpolled) :
    Tame { p.goto t .watching with threads := p.threads ++ [t], running := p.running + 1 } := by
  have hget : ∀ i, (p.goto t .watching).thread i =
      if i = t then { p.thread t with pc := .watching } else p.thread i := set_thread p t _
  refine ⟨fun i h0 => ?_, ?_, fun hnil => ?_⟩
  · rw [hget]
    split
    · rename_i he
      exact ⟨(hi.others t (he ▸ h0)).1, rfl⟩
    · exact hi.others i h0
  · rw [hget]
    split
    · rename_i he
      subst he
      refine .inr (.inl ⟨[], ?_⟩)
      rw [hinv.nil_of_unpolled hpc]
      rfl
    rcases hi.first with hf | ⟨rest, hf⟩ | hf
    · exact .inl hf
    · refine .inr (.inl ⟨rest ++ [t], ?_⟩)
      rw [hf]
      rfl
    · exact .inr (.inr hf)
  · exact absurd hnil (by simp)

lemma Tame.kill {status' : Nat} {locked : Bool} (hs : p.Sound)
    (hpc : (p.thread t).pc = .killing status' locked) (haway : (p.thread 0).Away) (h : p.kill own status = .ok q) :
    Tame (q.goto t .parked) := by
  obtain ⟨hswept, hall, -⟩ := terminateAll_swept h
  have hpcs : ∀ i, (q.thread i).pc = (p.thread i).pc := hswept.pc
  have hget : ∀ i, (q.goto t .parked).thread i =
      if i = t then { q.thread t with pc := .parked } else q.thread i := set_thread q t _
  have hdead : (p.thread 0).state = .terminated → (q.thread 0).state = .terminated := fun hd => by
    rcases hswept.state 0 with he | he
    · exact he.trans hd
    · exact he
  refine ⟨fun i h0 => Other.parked (Other.swept hswept (hi.others i h0)), ?_, fun _ => ?_⟩
  · have hfirst : (p.thread 0).pc = .unpolled ∨ (q.thread 0).state = .terminated ∨ (p.thread 0).pc = .gone := by
      rcases hi.first with hf | ⟨rest, hf⟩ | hf | hf
      · exact .inl hf
      · by_cases halive : (p.thread 0).pc = .gone
        · exact .inr (.inr halive)
        refine .inr (.inl (hall 0 (by rw [hf]; exact mem_cons_self) ?_))
        exact decide_eq_true halive
      · exact .inr (.inl (hdead hf))
      · exact .inr (.inr hf)
    rw [hget]
    split
    · rename_i he
      subst he
      rw [hpc] at hfirst
      rcases hfirst with hf | hf | hf
      · cases hf
      · exact .inr (.inr (.inl hf))
      · cases hf
    · rw [hpcs]
      rcases hfirst with hf | hf | hf
      · exact .inl hf
      · exact .inr (.inr (.inl hf))
      · exact .inr (.inr (.inr hf))
  · rw [hget]
    split
    · exact Away.of_runs rfl
    unfold Thread.Away
    rw [hpcs]
    refine ⟨haway.1, haway.2.1, fun hsus => ?_⟩
    rcases hswept.notified 0 with he | he
    · exact haway.2.2 ⟨hsus.1, he.symm.trans hsus.2⟩
    · exact hs 0 (.inl (by rw [hsus.1]; rfl)) he

lemma Tame.execve {E : Prop} (hinv : Inv E p) (hes : p.exitStatus = none) (h : p.execve = .ok q) :
    Tame (q.goto t .parked) := by
  obtain ⟨l, rest, p1, hl, -, hr, hall⟩ := execve_cases h
  obtain ⟨hswept, -, -⟩ := terminateAll_swept hall
  have h0 := hinv.head hl hes
  obtain ⟨-, -, -, -, -, -, -, hothers⟩ := hinv.restartLeader (by rw [hl]; exact mem_cons_self) (hinv.head hl) hr
  have hthreads : (q.goto t .parked).threads = [0] := by
    show q.threads = [0]
    rw [hswept.threads, h0]
  refine ⟨fun i hi0 => Other.parked (Other.swept hswept ?_), .inr (.inl ⟨[], hthreads⟩), fun hnil => ?_⟩
  · rw [hothers i (h0 ▸ hi0)]
    exact hi.others i hi0
  · rw [hthreads] at hnil
    cases hnil

lemma Tame.step (hinv : Inv False p) (hs : p.Sound) (hc : Calm p a) (h : Shape p a q) : Tame q := by
  cases h with
  | turn t th ht hturn hthread hthreads => exact hi.turn hturn hthread hthreads
  | create => exact hi.create hinv.positive
  | poll ht hpc => exact hi.poll hinv ht hpc
  | kill ht hpc hk => exact hi.kill hs hpc hc hk
  | execve ht hpc hx => exact hi.execve hinv hc.1 hx
  | idle => exact hi

/-- Under the conditions of `Calm` none of the faults is left. -/
lemma Tame.not_faulty (hinv : Inv False p) (hc : Calm p a) : ¬ Faulty p a f := by
  intro h
  cases h with
  | exit hr => exact hc hr
  | @index t ht hpc hl =>
    have hpolled : (p.thread 0).pc ≠ .unpolled := fun h => by
      have hone := hinv.alone h
      have h0 : t = 0 := by omega
      rw [h0, h] at hpc
      cases hpc
    obtain ⟨rest, hr⟩ := (hinv.young hc.1).list hpolled
    rw [hl] at hr
    cases hr
  | unwrap hl ha =>
    have h0 := hinv.head hl hc.1
    have hgone := (hinv.young hc.1).gone
    exact Bool.eq_false_iff.1 ha (decide_eq_true (h0 ▸ hgone))
  | restart hl hr =>
    have h0 := hinv.head hl hc.1
    exact hc.2 (h0 ▸ hr)
  | @slice t ht hpc hl =>
    by_cases h0 : t = 0
    · exact (hi.away hl).2.1 (h0 ▸ hpc)
    have hg := (hi.others t h0).2
    rw [hpc] at hg
    cases hg

end

end

lemma inductive_sound (pid : Nat) : (process pid).Inductive fun p => Inv False p ∧ p.Sound where
  init p hp := by
    cases hp
    exact ⟨.new False pid, fun _ => Sound.of_active ⟨rfl, rfl⟩⟩
  step p a q hp h := by
    have hs := step_of_next h
    exact ⟨hp.1.step nofun hs, Sound.step hp.2 (shape_of_step hs)⟩

lemma inductive_tame (pid : Nat) : ((process pid).only Calm).Inductive fun p => (Inv False p ∧ p.Sound) ∧ Tame p where
  init p hp := by
    refine ⟨(inductive_sound pid).init p hp, ?_⟩
    cases hp
    exact .new pid
  step p a q hp h := by
    obtain ⟨hc, hstep⟩ := h
    refine ⟨(inductive_sound pid).step p a q hp.1 hstep, ?_⟩
    exact hp.2.step hp.1.1 hp.1.2 hc (shape_of_step (step_of_next hstep))

/-- No step takes a lock its own thread holds, and in the runs of `Calm` steps none faults. -/
theorem no_fault (pid : Nat) (p : Process) (a : Act) :
    ((process pid).Reachable p → p.next a ≠ some (.error .deadlock)) ∧
      (((process pid).only Calm).Reachable p → Calm p a → ∀ f, p.next a ≠ some (.error f)) := by
  refine ⟨fun hp h => ?_, fun hp hc f h => ?_⟩
  · obtain ⟨hi, hs⟩ := (inductive_sound pid).reachable p hp
    cases faulty_of_next hi hs h
  · obtain ⟨⟨hi, hs⟩, htame⟩ := (inductive_tame pid).reachable p hp
    exact htame.not_faulty hi hc (faulty_of_next hi hs h)

/-- Two threads call `execve` at the same time. -/
def twoExecves : List Act := [.poll 0, .watch 0, .create 0, .poll 1, .watch 1, .create 0, .poll 2, .watch 2, .execve 1]

/-- A thread calls `execve` when another one has ended the process. -/
def lateExecve : List Act := [.poll 0, .watch 0, .create 0, .poll 1, .watch 1, .exitGroup 0 0, .enter 0, .kill 0]

/-- The process ends while its leader, which has exited, is about to wait. -/
def leaderLooks : List Act :=
  [.poll 0, .watch 0, .create 0, .poll 1, .watch 1, .exit 0 0, .count 0, .watch 0, .wait 0, .exitGroup 1 0, .enter 1,
    .kill 1]

/-- A thread calls `execve` when the process ends and the leader has seen that. -/
def leaderGone : List Act :=
  [.poll 0, .watch 0, .create 0, .poll 1, .watch 1, .create 0, .poll 2, .watch 2, .yield 0, .exitGroup 1 0, .enter 1,
    .watch 0, .free 0]

/-- Each of the other faults is reached. -/
theorem faults_reached : (∃ p, (process 2).Reachable p ∧ p.next (.execve 2) = some (.error .unreachable)) ∧
      (∃ p, (process 2).Reachable p ∧ p.next (.execve 1) = some (.error .index)) ∧
      (∃ p, (process 2).Reachable p ∧ p.next (.look 0) = some (.error .slice)) ∧
      ∃ p, (process 2).Reachable p ∧ p.next (.execve 2) = some (.error .unwrap) := by
  refine ⟨⟨?_, ⟨_, twoExecves, rfl, ?_⟩, ?_⟩, ⟨?_, ⟨_, lateExecve, rfl, ?_⟩, ?_⟩, ⟨?_, ⟨_, leaderLooks, rfl, ?_⟩, ?_⟩,
    ?_, ⟨_, leaderGone, rfl, ?_⟩, ?_⟩
  all_goals repeat' first | exact .nil _ | refine .cons rfl ?_ | rfl

/-- The `execve` of a thread when the leader has exited. -/
theorem no_fault_execve : ∃ p, ((process 1).only Calm).Reachable p ∧ (p.thread 0).state = .paused ∧
    Calm p (.execve 1) ∧ (∀ f, p.next (.execve 1) ≠ some (.error f)) ∧
    p.next (.execve 1) ≠ some (.error .deadlock) := by
  have hrun : ((process 1).only Calm).Run (.new 1)
      [.poll 0, .watch 0, .create 0, .poll 1, .watch 1, .exit 0 0, .count 0] _ :=
    .cons ⟨trivial, rfl⟩ (.cons ⟨trivial, rfl⟩ (.cons ⟨trivial, rfl⟩ (.cons ⟨trivial, rfl⟩ (.cons ⟨trivial, rfl⟩
      (.cons ⟨nofun, rfl⟩ (.cons ⟨trivial, rfl⟩ (.nil _)))))))
  have hcalm := (no_fault 1 _ (.execve 1)).2 ⟨_, _, rfl, hrun⟩ ⟨rfl, nofun⟩
  have hlock := (no_fault 1 _ (.execve 1)).1 ⟨_, _, rfl, hrun.of_only⟩
  exact ⟨_, ⟨_, _, rfl, hrun⟩, rfl, ⟨rfl, nofun⟩, hcalm, hlock⟩

end Mushroom.L6.Threads
