import Mushroom.Core.Ledger
import Mushroom.L6Process.ThreadGroup

/-!
# The running counter

A thread is counted by its first poll and counted out behind the change of its
`State`, by `exit` or by the one that terminates it (`Thread.weight`). The
counter and the weights move together (`Inv.step`), so whoever finds the counter
at one is the last of the threads that have been polled.

A thread that waits for its first poll is not counted. If the others exit before
that, the process ends (`exit_before_first_poll`); for init the output is
committed. `ends_when_due` holds as long as this does not happen.
-/
namespace Mushroom.L6.Threads
open List Function

open Ledger (upTo upTo_succ upTo_update upTo_update_of_le le_upTo add_le_upTo upTo_add upTo_congr length_filter_range)

/-- A thread in `exit` that has changed its `State` and is still counted. -/
def Pc.inFlight : Pc → Nat
  | exiting _ => 1
  | _ => 0

/-- What the thread contributes to the counter. -/
def Thread.weight (th : Thread) : Nat := (if th.pc ≠ .unpolled ∧ th.left = true then 1 else 0) + th.pc.inFlight

variable {th : Thread}

lemma weight_of_left (hpc : th.pc ≠ .unpolled) (hs : th.state = .running ∨ th.state = .restart) :
    th.weight = 1 + th.pc.inFlight := by
  have hleft : th.left := by
    unfold Thread.left
    rcases hs with h | h <;> rw [h] <;> rfl
  unfold Thread.weight
  rw [if_pos ⟨hpc, hleft⟩]

lemma weight_of_exited (hs : th.state = .paused ∨ th.state = .terminated) : th.weight = th.pc.inFlight := by
  have hleft : th.left = false := by
    unfold Thread.left
    rcases hs with h | h <;> rw [h] <;> rfl
  unfold Thread.weight
  rw [hleft, if_neg (fun h => nomatch h.2), Nat.zero_add]

/-- What holds until the exit status is set. -/
structure Young (p : Process) : Prop where
  list : (p.thread 0).pc ≠ .unpolled → ∃ rest, p.threads = 0 :: rest
  state : (p.thread 0).state ≠ .terminated
  done : (p.thread 0).pc ≠ .done
  gone : (p.thread 0).pc ≠ .gone
  others : ∀ t, t ≠ 0 → t < p.created → (p.thread t).state = .running ∨ (p.thread t).state = .terminated

/-- `E` is whether the counter is exact behind the end of the process too. -/
structure Inv (E : Prop) (p : Process) : Prop where
  positive : 0 < p.created
  ids : ∀ t ∈ p.threads, t < p.created ∧ (p.thread t).pc ≠ .unpolled
  nodup : p.threads.Nodup
  alone : (p.thread 0).pc = .unpolled → p.created = 1
  fresh : ∀ t, t < p.created → (p.thread t).pc = .unpolled → (p.thread t).state = .running
  killing : ∀ t, t < p.created → ∀ status locked, (p.thread t).pc = .killing status locked → p.exitStatus.isSome = true
  young : p.exitStatus = none → Young p
  counted : upTo Thread.weight p.thread p.created ≤ p.running
  exact : p.exitStatus = none ∨ E → upTo Thread.weight p.thread p.created = p.running

lemma Inv.new (E : Prop) (pid : Nat) : Inv E (.new pid) where
  positive := Nat.one_pos
  ids _ ht := nomatch ht
  nodup := nodup_nil
  alone _ := rfl
  fresh _ _ _ := rfl
  killing _ _ _ _ h := nomatch h
  young _ := ⟨fun h => absurd rfl h, nofun, nofun, nofun, fun _ _ _ => .inl rfl⟩
  counted := Nat.le_refl 0
  exact _ := rfl

def Process.Unpended (p : Process) : Prop := ∀ i < p.created, (p.thread i).state ≠ .restart

/-- The end of the process does not hit a thread about to be restarted, which would not be counted out. -/
def Steady (p : Process) : Act → Prop
  | .kill _ => p.Unpended
  | .execve _ => p.exitStatus = none ∨ p.Unpended
  | _ => True

section

variable {E : Prop} {p q : Process} {t status l : Nat} {rest : List Nat}

lemma set_thread (p : Process) (t : Nat) (th : Thread) (i : Nat) :
    (p.set t th).thread i = if i = t then th else p.thread i := update_apply ..

/-- A step of one polled thread that moves its weight and the counter alike. -/
lemma Inv.own (hi : Inv E p) (th : Thread) (ht : t < p.created) (hpc : (p.thread t).pc ≠ .unpolled)
    (hpc' : th.pc ≠ .unpolled) (hw : th.weight + p.running = (p.thread t).weight + q.running)
    (hthread : q.thread = update p.thread t th) (hcreated : q.created = p.created)
    (hthreads : q.threads = p.threads) (hset : p.exitStatus.isSome → q.exitStatus.isSome)
    (hkill : ∀ status locked, th.pc = .killing status locked → q.exitStatus.isSome)
    (hleader : q.exitStatus = none → t = 0 → th.state ≠ .terminated ∧ th.pc ≠ .done ∧ th.pc ≠ .gone)
    (hother : q.exitStatus = none → t ≠ 0 → th.state = .running ∨ th.state = .terminated) : Inv E q := by
  have hunset : q.exitStatus = none → p.exitStatus = none := fun h => by simpa [h] using hset
  have hsum := upTo_update Thread.weight p.thread ht th
  have hget : ∀ i, q.thread i = if i = t then th else p.thread i := fun i => by rw [hthread, update_apply]
  rw [← hthread] at hsum
  obtain ⟨hpos, hids, hnodup, halone, hfresh, hkilling, hyoung, hcounted, hexact⟩ := hi
  refine ⟨by omega, ?_, by rw [hthreads]; exact hnodup, ?_, ?_, ?_, fun h => ?_, ?_, fun h => ?_⟩
  · grind
  · grind
  · grind
  · grind
  · obtain ⟨hlist, hstate, hdone, hgone, hothers⟩ := hyoung (hunset h)
    constructor <;> grind
  · rw [hcreated]; omega
  · have he := hexact (h.imp_left hunset)
    rw [hcreated]; omega

/-! ### Terminations -/

lemma weight_stopped (n : Bool) (hpc : th.pc ≠ .unpolled) (hs : th.state = .running ∨ th.state = .restart) :
    Thread.weight ⟨.terminated, n, th.pc⟩ + 1 = th.weight := by
  rw [weight_of_exited (.inr rfl), weight_of_left hpc hs, Nat.add_comm]

lemma weight_paused (n : Bool) (hs : th.state = .paused) : Thread.weight ⟨.terminated, n, th.pc⟩ = th.weight := by
  rw [weight_of_exited (.inr rfl), weight_of_exited (.inl hs)]

/-- The counter along the terminations of the threads `ts`. -/
structure Tally (E : Prop) (ts : List Nat) (p : Process) : Prop where
  ids : ∀ t ∈ ts, t < p.created ∧ (p.thread t).pc ≠ .unpolled
  counted : upTo Thread.weight p.thread p.created ≤ p.running
  exact : p.exitStatus = none ∨ E → upTo Thread.weight p.thread p.created = p.running ∧
    ∀ t ∈ ts, (p.thread t).state ≠ .restart

variable {ts : List Nat} {own : Option Nat} {pc : Pc}

/-- Weights and counter move alike, but a thread about to be restarted is not counted out. -/
lemma Stop.balance (h : Stop status p t q) (hlt : t < p.created) (hpc : (p.thread t).pc ≠ .unpolled)
    (hc : upTo Thread.weight p.thread p.created ≤ p.running) :
    upTo Thread.weight q.thread q.created + p.running ≤ upTo Thread.weight p.thread p.created + q.running ∧
      ((p.thread t).state ≠ .restart →
        upTo Thread.weight q.thread q.created + p.running = upTo Thread.weight p.thread p.created + q.running) := by
  cases h with
  | already => exact ⟨Nat.le_refl _, fun _ => rfl⟩
  | quiet hs =>
    have hsum := upTo_update Thread.weight p.thread hlt ⟨.terminated, (p.thread t).notified, (p.thread t).pc⟩
    show upTo Thread.weight (update p.thread t _) p.created + p.running ≤ _ + p.running ∧
      (_ → upTo Thread.weight (update p.thread t _) p.created + p.running = _ + p.running)
    rcases hs with hs | hs
    · have hw := weight_paused (p.thread t).notified hs
      refine ⟨?_, fun _ => ?_⟩ <;> omega
    · have hw := weight_stopped (p.thread t).notified hpc (.inr hs)
      exact ⟨by omega, fun hne => absurd hs hne⟩
  | counted hs hrun | last hs hrun =>
    have hsum := upTo_update Thread.weight p.thread hlt ⟨.terminated, true, (p.thread t).pc⟩
    have hw := weight_stopped true hpc (.inl hs)
    show upTo Thread.weight (update p.thread t _) p.created + p.running ≤ _ + (p.running - 1) ∧
      (_ → upTo Thread.weight (update p.thread t _) p.created + p.running = _ + (p.running - 1))
    refine ⟨?_, fun _ => ?_⟩ <;> omega

lemma Tally.stop (hc : Tally E ts p) (ht : t ∈ ts) (h : Stop status p t q) : Tally E ts q := by
  obtain ⟨hlt, hpc⟩ := hc.ids t ht
  have hswept := h.swept
  have hcount := hc.counted
  obtain ⟨hle, heq⟩ := h.balance hlt hpc hcount
  have hkeep : ∀ i, (p.thread i).state ≠ .restart → (q.thread i).state ≠ .restart := fun i hi he => by
    rcases hswept.state i with hs | hs
    · exact hi (hs.symm.trans he)
    · cases hs.symm.trans he
  refine ⟨fun i hi => by rw [hswept.created, hswept.pc]; exact hc.ids i hi, by omega, fun he => ?_⟩
  rw [hswept.exitStatus] at he
  obtain ⟨hexact, hrestart⟩ := hc.exact he
  have hbalance := heq (hrestart t ht)
  exact ⟨by omega, fun i hi => hkeep i (hrestart i hi)⟩

lemma Tally.terminateAll (hc : Tally E ts p) (h : p.terminateAll own status ts = .ok q) : Tally E ts q :=
  foldlM_keeps (fun _ _ _ ht hp hstop => hp.stop (mem_filter.1 ht).1 (stop_of_terminate hstop)) hc h

/-- Terminations of polled threads leave the leader as long as the status is not set. -/
lemma Inv.swept (hi : Inv E p) (h : Swept p q) (hc : Tally E ts q) (hothers : ∀ i, i ∉ ts → q.thread i = p.thread i)
    (hleader : p.exitStatus = none → (q.thread 0).state ≠ .terminated) : Inv E q := by
  refine ⟨by rw [h.created]; exact hi.positive, fun i hm => ?_, by rw [h.threads]; exact hi.nodup, fun hu => ?_,
    fun i hlt hu => ?_, fun i hlt status locked hk => ?_, fun hes => ?_, hc.counted, fun hes => (hc.exact hes).1⟩
  · rw [h.threads] at hm
    rw [h.created, h.pc]
    exact hi.ids i hm
  · rw [h.pc] at hu
    rw [h.created]
    exact hi.alone hu
  · -- a thread that waits for its first poll is none of those
    have hnot : i ∉ ts := fun hm => (hc.ids i hm).2 hu
    rw [hothers i hnot] at hu ⊢
    exact hi.fresh i (h.created ▸ hlt) hu
  · rw [h.pc] at hk
    rw [h.exitStatus]
    exact hi.killing i (h.created ▸ hlt) status locked hk
  rw [h.exitStatus] at hes
  have hy := hi.young hes
  refine ⟨?_, hleader hes, by rw [h.pc]; exact hy.done, by rw [h.pc]; exact hy.gone, fun i h0 hlt => ?_⟩
  · rw [h.pc, h.threads]
    exact hy.list
  rcases h.state i with hs | hs
  · rw [hs]
    exact hy.others i h0 (h.created ▸ hlt)
  · exact .inr hs

/-! ### The steps of one thread -/

lemma weight_congr {a b : Thread} (hs : a.state = b.state) (ha : a.pc ≠ .unpolled) (hb : b.pc ≠ .unpolled)
    (hf : a.pc.inFlight = b.pc.inFlight) : a.weight = b.weight := by
  unfold Thread.weight Thread.left
  rw [hs, hf]
  simp [ha, hb]

lemma Pc.polled_of_runs (h : pc.runs) : pc ≠ .unpolled ∧ pc.inFlight = 0 := by
  cases pc with
  | watching | user | parked => exact ⟨nofun, rfl⟩
  | _ => cases h

lemma Pc.polled_of_ends (h : pc.ends) : pc ≠ .unpolled ∧ pc.inFlight = 0 := by
  cases pc with
  | watching | parked | looked | suspended => exact ⟨nofun, rfl⟩
  | _ => cases h

lemma Pc.of_runs (h : pc.runs) : (∀ status locked, pc ≠ .killing status locked) ∧ pc ≠ .done ∧ pc ≠ .gone := by
  cases pc with
  | watching | user | parked => exact ⟨nofun, nofun, nofun⟩
  | _ => cases h

section

variable (hi : Inv E p)

include hi

/-- A polled thread goes from one place to another, outside of `exit`. -/
lemma Inv.move (ht : t < p.created) (n : Bool) (pc : Pc)
    (hpc : (p.thread t).pc ≠ .unpolled ∧ (p.thread t).pc.inFlight = 0) (hpc' : pc ≠ .unpolled ∧ pc.inFlight = 0)
    (hkill : ∀ status locked, pc ≠ .killing status locked)
    (hdone : p.exitStatus = none → t = 0 → (p.thread t).state ≠ .terminated → pc ≠ .done ∧ pc ≠ .gone) :
    Inv E (p.set t ⟨(p.thread t).state, n, pc⟩) := by
  refine hi.own ⟨(p.thread t).state, n, pc⟩ ht hpc.1 hpc'.1 ?_ rfl rfl rfl id
    (fun status locked h => absurd h (hkill status locked))
    (fun hes h0 => ?_) fun hes h0 => ?_
  · rw [@weight_congr ⟨(p.thread t).state, n, pc⟩ (p.thread t) rfl hpc'.1 hpc.1 (hpc'.2.trans hpc.2.symm)]
    rfl
  · subst h0
    exact ⟨(hi.young hes).state, hdone hes rfl (hi.young hes).state⟩
  · exact (hi.young hes).others t h0 ht

lemma Inv.hop (ht : t < p.created) (n : Bool) (pc' : Pc) (hpc : (p.thread t).pc = pc)
    (h : pc ≠ .unpolled ∧ pc.inFlight = 0 := by exact ⟨nofun, rfl⟩)
    (h' : pc' ≠ .unpolled ∧ pc'.inFlight = 0 := by exact ⟨nofun, rfl⟩)
    (hkill : ∀ status locked, pc' ≠ .killing status locked := by nofun)
    (hends : pc' ≠ .done ∧ pc' ≠ .gone := by exact ⟨nofun, nofun⟩) : Inv E (p.set t ⟨(p.thread t).state, n, pc'⟩) :=
  hi.move ht n pc' (hpc ▸ h) h' hkill fun _ _ _ => hends

lemma Inv.create (ht : t < p.created) (hpc : (p.thread t).pc = .user)
    (hthread : q.thread = update p.thread p.created .new) (hcreated : q.created = p.created + 1)
    (hthreads : q.threads = p.threads) (hrunning : q.running = p.running) (hes : q.exitStatus = p.exitStatus) :
    Inv E q := by
  have hsum : upTo Thread.weight q.thread q.created = upTo Thread.weight p.thread p.created := by
    rw [hcreated, upTo_succ, hthread, update_self]
    exact upTo_update_of_le _ _ (Nat.le_refl _) _
  have hget : ∀ i, q.thread i = if i = p.created then .new else p.thread i := fun i => by rw [hthread, update_apply]
  have hnew : Thread.new.pc = .unpolled ∧ Thread.new.state = .running := ⟨rfl, rfl⟩
  obtain ⟨hpos, hids, hnodup, halone, hfresh, hkilling, hyoung, hcounted, hexact⟩ := hi
  refine ⟨by omega, ?_, by rw [hthreads]; exact hnodup, ?_, ?_, ?_, fun h => ?_, by omega, fun h => ?_⟩
  · grind
  · grind
  · grind
  · grind
  · obtain ⟨hlist, hstate, hdone, hgone, hothers⟩ := hyoung (hes ▸ h)
    constructor <;> grind
  · rw [hsum, hrunning]
    exact hexact (hes ▸ h)

lemma Inv.nil_of_unpolled (hpc : (p.thread 0).pc = .unpolled) : p.threads = [] := by
  refine eq_nil_iff_forall_not_mem.2 fun i hm => ?_
  obtain ⟨hlt, hne⟩ := hi.ids i hm
  have hone := hi.alone hpc
  have hi0 : i = 0 := by omega
  exact hne (hi0 ▸ hpc)

lemma Inv.poll (ht : t < p.created) (hpc : (p.thread t).pc = .unpolled)
    (hthread : q.thread = update p.thread t ⟨(p.thread t).state, (p.thread t).notified, .watching⟩)
    (hcreated : q.created = p.created) (hthreads : q.threads = p.threads ++ [t]) (hrunning : q.running = p.running + 1)
    (hes : q.exitStatus = p.exitStatus) : Inv E q := by
  have hstate := hi.fresh t ht hpc
  have hnil := hi.nil_of_unpolled
  have hsum := upTo_update Thread.weight p.thread ht ⟨(p.thread t).state, (p.thread t).notified, .watching⟩
  have hzero : (p.thread t).weight = 0 := by simp [Thread.weight, hpc, Pc.inFlight]
  rw [← hthread, hzero,
    @weight_of_left ⟨(p.thread t).state, (p.thread t).notified, .watching⟩ nofun (.inl hstate)] at hsum
  have hget : ∀ i, q.thread i = if i = t then ⟨.running, (p.thread t).notified, .watching⟩ else p.thread i := by
    intro i
    rw [hthread, update_apply, hstate]
  obtain ⟨hpos, hids, hnodup, halone, hfresh, hkilling, hyoung, hcounted, hexact⟩ := hi
  have hnot : t ∉ p.threads := fun hm => (hids t hm).2 hpc
  simp only [Pc.inFlight] at hsum
  refine ⟨by omega, ?_, ?_, ?_, ?_, ?_, fun h => ?_, ?_, fun h => ?_⟩
  · grind
  · rw [hthreads]
    exact hnodup.append (nodup_singleton t) (disjoint_singleton.2 hnot)
  · grind
  · grind
  · grind
  · obtain ⟨hlist, hstate, hdone, hgone, hothers⟩ := hyoung (hes ▸ h)
    refine ⟨fun _ => ?_, ?_, ?_, ?_, ?_⟩
    · by_cases h0 : t = 0
      · subst h0
        exact ⟨[], by rw [hthreads, hnil hpc]; rfl⟩
      · obtain ⟨rest, hr⟩ := hlist (by grind)
        exact ⟨rest ++ [t], by rw [hthreads, hr]; rfl⟩
    all_goals grind
  · rw [hcreated]; omega
  · have he := hexact (hes ▸ h)
    rw [hcreated]; omega

lemma Inv.narrow (hsub : ts.Sublist p.threads)
    (hlist : p.exitStatus = none → ∃ rest, ts = 0 :: rest) : Inv E { p with threads := ts } := by
  refine ⟨hi.positive, fun i hm => hi.ids i (hsub.subset hm), hi.nodup.sublist hsub, hi.alone, hi.fresh, hi.killing,
    fun hes => ?_, hi.counted, hi.exact⟩
  have hy := hi.young hes
  exact ⟨fun _ => hlist hes, hy.state, hy.done, hy.gone, hy.others⟩

variable (hes : p.exitStatus.isSome) (hE : E → p.Unpended)
include hes hE

lemma Inv.tally_kill :
    Tally E p.threads { p with threads := [] } := by
  refine ⟨hi.ids, hi.counted, fun he => ?_⟩
  have hexact : E := he.resolve_left fun he => by
    have he' : p.exitStatus = none := he
    rw [he'] at hes
    cases hes
  exact ⟨hi.exact (.inr hexact), fun i hm => hE hexact i (hi.ids i hm).1⟩

lemma Inv.kill (h : p.kill own status = .ok q) : Inv E q ∧ Swept { p with threads := [] } q := by
  have hne : p.exitStatus ≠ none := fun he => by
    rw [he] at hes
    cases hes
  have hi' : Inv E { p with threads := [] } := hi.narrow (nil_sublist _) fun he => absurd he hne
  obtain ⟨hswept, -, hothers⟩ := terminateAll_swept h
  exact ⟨hi'.swept hswept ((hi.tally_kill hes hE).terminateAll h) hothers fun he => absurd he hne, hswept⟩

end

lemma Inv.head (hi : Inv E p) (hl : p.threads = l :: rest) (hes : p.exitStatus = none) : l = 0 := by
  obtain ⟨hlt, hpc⟩ := hi.ids l (by rw [hl]; exact mem_cons_self)
  have hpolled : (p.thread 0).pc ≠ .unpolled := fun h => by
    have hone := hi.alone h
    have h0 : l = 0 := by omega
    exact hpc (h0 ▸ h)
  obtain ⟨rest', hr⟩ := (hi.young hes).list hpolled
  rw [hl] at hr
  exact (List.cons.inj hr).1

lemma Inv.restartLeader (hi : Inv E p) (hl : l ∈ p.threads) (hhead : p.exitStatus = none → l = 0)
    (h : p.restartLeader l = .ok q) :
    Inv E q ∧ q.threads = p.threads ∧ q.exitStatus = p.exitStatus ∧ q.created = p.created ∧
      q.requested = p.requested ∧ q.entries = p.entries ∧ (∀ i, (q.thread i).pc = (p.thread i).pc) ∧
      ∀ i, i ≠ l → q.thread i = p.thread i := by
  obtain ⟨hlt, hpc⟩ := hi.ids l hl
  set x : Thread := ⟨.restart, true, (p.thread l).pc⟩
  have hown : ∀ r : Nat, x.weight + p.running = (p.thread l).weight + r →
      Inv E { p.change l .restart with running := r } := by
    intro r hw
    refine hi.own x hlt hpc hpc hw rfl rfl rfl id
      (fun status locked hk => hi.killing l hlt status locked hk)
      (fun hes h0 => ?_) fun hes h0 => ?_
    · subst h0
      exact ⟨nofun, (hi.young hes).done, (hi.young hes).gone⟩
    · exact absurd (hhead hes) h0
  have hthread : ∀ i, ((p.change l .restart).thread i).pc = (p.thread i).pc := fun i => by
    unfold Process.change
    rw [set_thread]
    split
    · rename_i he
      rw [he]
    · rfl
  have hothers : ∀ i, i ≠ l → (p.change l .restart).thread i = p.thread i := fun i he => update_of_ne he ..
  unfold Process.restartLeader at h
  cases hs : (p.thread l).state with
  | running =>
    rw [hs] at h
    cases h
    refine ⟨hown p.running ?_, rfl, rfl, rfl, rfl, rfl, hthread, hothers⟩
    rw [weight_of_left hpc (.inl hs), @weight_of_left x hpc (.inr rfl)]
  | paused =>
    rw [hs] at h
    cases h
    refine ⟨hown (p.running + 1) ?_, rfl, rfl, rfl, rfl, rfl, hthread, hothers⟩
    rw [weight_of_exited (.inl hs), @weight_of_left x hpc (.inr rfl)]
    show 1 + (p.thread l).pc.inFlight + p.running = _
    omega
  | terminated =>
    rw [hs] at h
    cases h
    exact ⟨hi, rfl, rfl, rfl, rfl, rfl, fun _ => rfl, fun _ _ => rfl⟩
  | restart =>
    rw [hs] at h
    cases h

lemma Inv.countOut (hi : Inv E p) (ht : t < p.created) (hpc : (p.thread t).pc = .exiting status) (pc : Pc)
    (hpc' : pc ≠ .unpolled ∧ pc.inFlight = 0) (hkill : ∀ status locked, pc ≠ .killing status locked)
    (hdone : pc ≠ .done) (hgone : pc ≠ .gone) (hthread : q.thread = update p.thread t { p.thread t with pc := pc })
    (hcreated : q.created = p.created) (hthreads : q.threads = p.threads) (hrunning : q.running = p.running - 1)
    (hes : q.exitStatus = p.exitStatus) : Inv E q := by
  have hflight : (p.thread t).pc.inFlight = 1 := by rw [hpc]; rfl
  have hw : (p.thread t).weight = Thread.weight { p.thread t with pc := pc } + 1 := by
    unfold Thread.weight
    rw [hflight, hpc'.2]
    simp [hpc, hpc'.1, Thread.left]
  have hle := le_upTo Thread.weight p.thread ht
  have hc := hi.counted
  refine hi.own { p.thread t with pc := pc } ht (by rw [hpc]; nofun) hpc'.1 (by omega) hthread
    hcreated hthreads (by rw [hes]; exact id) (fun status locked h => absurd h (hkill status locked))
    (fun he h0 => ?_) fun he h0 => ?_
  · subst h0
    exact ⟨(hi.young (hes ▸ he)).state, hdone, hgone⟩
  · exact (hi.young (hes ▸ he)).others t h0 ht

/-- What `execve` does: the leader is restarted, then all others are terminated. -/
lemma execve_cases (h : p.execve = .ok q) : ∃ l rest p1, p.threads = l :: rest ∧ p.alive l ∧
    p.restartLeader l = .ok p1 ∧ { p1 with threads := [l] }.terminateAll none 0 rest = .ok q := by
  unfold Process.execve at h
  split at h
  · cases h
  rename_i l rest hl
  split at h
  · rename_i ha
    cases hr : p.restartLeader l with
    | error f =>
      rw [hr] at h
      cases h
    | ok p1 =>
      rw [hr] at h
      exact ⟨l, rest, p1, hl, ha, hr, h⟩
  · cases h

lemma Inv.tally_execve {p1 : Process} (hi : Inv E p)
    (hE : E → p.exitStatus = none ∨ p.Unpended) (hl : p.threads = l :: rest) (hr : p.restartLeader l = .ok p1) :
    Tally E rest { p1 with threads := [l] } := by
  have hmem : l ∈ p.threads := by rw [hl]; exact mem_cons_self
  have hrest : ∀ i ∈ rest, i ∈ p.threads := fun i him => by rw [hl]; exact mem_cons_of_mem l him
  obtain ⟨hi1, hthreads, hes, -, -, -, -, hothers⟩ := hi.restartLeader hmem (hi.head hl) hr
  obtain ⟨hnot, -⟩ := nodup_cons.1 (hl ▸ hi.nodup)
  refine ⟨fun i him => ?_, hi1.counted, fun he => ⟨hi1.exact he, fun i him hs => ?_⟩⟩
  · exact hi1.ids i (by rw [hthreads]; exact hrest i him)
  -- only the leader is restarted
  have hne : i ≠ l := fun he => hnot (he ▸ him)
  have hlt := (hi.ids i (hrest i him)).1
  have hs' : (p.thread i).state = .restart := by
    rw [← hothers i hne]
    exact hs
  have hyoung : p.exitStatus = none → False := fun he => by
    have h0 := hi.head hl he
    rcases (hi.young he).others i (h0 ▸ hne) hlt with hr | hr <;> cases hr.symm.trans hs'
  rcases he with he | hexact
  · exact hyoung (hes ▸ he)
  rcases hE hexact with he | hun
  · exact hyoung he
  · exact hun i hlt hs'

lemma Inv.execve (hi : Inv E p) (hE : E → p.exitStatus = none ∨ p.Unpended) (h : p.execve = .ok q) :
    Inv E q ∧ ∀ i, (q.thread i).pc = (p.thread i).pc ∧ q.created = p.created ∧ q.exitStatus = p.exitStatus := by
  obtain ⟨l, rest, p1, hl, ha, hr, hall⟩ := execve_cases h
  have hmem : l ∈ p.threads := by rw [hl]; exact mem_cons_self
  obtain ⟨hi1, hthreads, hes, hcreated, -, -, hpc, hothers⟩ := hi.restartLeader hmem (hi.head hl) hr
  obtain ⟨hnot, -⟩ := nodup_cons.1 (hl ▸ hi.nodup)
  have hi2 : Inv E { p1 with threads := [l] } := by
    refine hi1.narrow ?_ fun he => ⟨[], ?_⟩
    · rw [hthreads, hl]
      exact (nil_sublist rest).cons_cons l
    · rw [hi.head hl (hes ▸ he)]
  obtain ⟨hswept, -, hrest⟩ := terminateAll_swept hall
  refine ⟨hi2.swept hswept ((hi.tally_execve hE hl hr).terminateAll hall) hrest fun he => ?_, fun i =>
    ⟨(hswept.pc i).trans (hpc i), hswept.created.trans hcreated, hswept.exitStatus.trans hes⟩⟩
  have h0 := hi.head hl (hes ▸ he)
  rw [hrest 0 (h0 ▸ hnot)]
  exact (hi1.young he).state

lemma Inv.step {a : Act} (hi : Inv E p) (hE : E → Steady p a) (h : Step p a q) : Inv E q := by
  cases h with
  | create ht hpc => exact hi.create ht hpc rfl rfl rfl rfl rfl
  | poll ht hpc => exact hi.poll ht hpc rfl rfl rfl rfl rfl
  | go n pc ht hruns hruns' hn =>
    obtain ⟨hkill, hends⟩ := Pc.of_runs hruns'
    exact hi.hop ht n pc rfl (Pc.polled_of_runs hruns) (Pc.polled_of_runs hruns') hkill hends
  | @finish a t n ht hends hover =>
    refine hi.move ht n .done (Pc.polled_of_ends hends) ⟨nofun, rfl⟩ nofun fun hes _ hs => ?_
    rcases hover with h | h
    · rw [hes] at h
      cases h
    · exact absurd h hs
  | arrive n ht hends hs => exact hi.hop ht n .arriving rfl (Pc.polled_of_ends hends)
  | @exit t status ht hpc hs =>
    refine hi.own ⟨if t = 0 then .paused else .terminated, true, .exiting status⟩ ht (by rw [hpc]; nofun) nofun ?_ rfl
      rfl rfl id nofun (fun _ h0 => ?_) fun _ h0 => ?_
    · have hexited : (if t = 0 then State.paused else State.terminated) = .paused ∨
          (if t = 0 then State.paused else State.terminated) = .terminated := by
        split
        · exact .inl rfl
        · exact .inr rfl
      rw [weight_of_exited hexited, weight_of_left (by rw [hpc]; nofun) (.inl hs), hpc]
      rfl
    · rw [if_pos h0]
      exact ⟨nofun, nofun, nofun⟩
    · rw [if_neg h0]
      exact .inr rfl
  | @count t status ht hpc hrun => exact hi.countOut ht hpc .parked ⟨nofun, rfl⟩ nofun nofun nofun rfl rfl rfl rfl rfl
  | @last t status ht hpc hrun =>
    exact hi.countOut ht hpc (.entering status true) ⟨nofun, rfl⟩ nofun nofun nofun rfl rfl rfl rfl rfl
  | @request t status ht hpc =>
    refine hi.own { p.thread t with pc := .entering status false } ht (by rw [hpc]; nofun) nofun ?_
      rfl rfl rfl id nofun (fun hes h0 => ?_) fun hes h0 => (hi.young hes).others t h0 ht
    · rw [@weight_congr { p.thread t with pc := .entering status false } (p.thread t) rfl nofun
        (by rw [hpc]; nofun) (by rw [hpc]; rfl)]
      rfl
    · subst h0
      exact ⟨(hi.young hes).state, nofun, nofun⟩
  | late ht hpc hes => exact hi.hop ht _ .parked hpc
  | @enter t status locked ht hpc hes =>
    refine hi.own { p.thread t with pc := .killing status locked } ht (by rw [hpc]; nofun) nofun ?_
      rfl rfl rfl (fun _ => rfl) (fun _ _ _ => rfl) nofun nofun
    rw [@weight_congr { p.thread t with pc := .killing status locked } (p.thread t) rfl nofun
      (by rw [hpc]; nofun) (by rw [hpc]; rfl)]
    rfl
  | @kill t status locked q ht hpc hk =>
    obtain ⟨hi', hswept⟩ := hi.kill (hi.killing t ht status locked hpc) hE hk
    have hpc' : (q.thread t).pc = .killing status locked := (hswept.pc t).trans hpc
    exact hi'.hop (hswept.created ▸ ht) _ .parked hpc'
  | @execve t q ht hpc hx =>
    obtain ⟨hi', hkept⟩ := hi.execve hE hx
    obtain ⟨hpc', hcreated, -⟩ := hkept t
    exact hi'.hop (hcreated ▸ ht) _ .parked (hpc'.trans hpc)
  | wait ht hpc => exact hi.hop ht _ .getting hpc
  | look pc ht hpc hpc' =>
    rcases hpc' with rfl | rfl
    · exact hi.hop ht _ .suspended hpc
    · exact hi.hop ht _ .looked hpc
  | stay ht hpc hs => exact hi.hop ht _ .suspended hpc
  | @take t ht hpc hs =>
    refine hi.own ⟨.running, (p.thread t).notified, .restarting⟩ ht (by rw [hpc]; nofun) nofun ?_
      rfl rfl rfl id nofun (fun hes h0 => ⟨nofun, nofun, nofun⟩) fun hes h0 => .inl rfl
    rw [weight_of_left (by nofun) (.inl rfl), weight_of_left (by rw [hpc]; nofun) (.inr hs), hpc]
    rfl
  | idle => exact hi
  | restart ht hpc => exact hi.hop ht true .watching hpc
  | @free t ht hpc =>
    refine hi.move ht _ .gone (by rw [hpc]; exact ⟨nofun, rfl⟩) ⟨nofun, rfl⟩ nofun fun hes h0 _ => ?_
    exact absurd (h0 ▸ hpc) (hi.young hes).done

/-! ## The end of the process -/

/-- The end has been requested, or no thread waits for its first poll. -/
def Process.Settled (p : Process) : Prop := p.requested = true ∨ ∀ i < p.created, (p.thread i).pc ≠ .unpolled

/-- No thread is counted out while another waits for its first poll, unless the end has been requested; an
`execve` in time leaves the leader. -/
def Polled (p : Process) : Act → Prop
  | .count _ | .kill _ => p.Settled
  | .execve _ => p.exitStatus = none ∨ p.Settled
  | _ => True

/-- Every `exit_group` was requested or came when all threads had exited. -/
def Process.Due (p : Process) : Prop := ∀ e ∈ p.entries, e.requested = true ∨ e.left = []

lemma Due.call {p : Process} (hd : p.Due) (h : p.requested ∨ p.left = []) : (p.call status).Due := by
  intro e he
  rcases mem_append.1 he with he | he
  · exact hd e he
  rw [mem_singleton.1 he]
  exact h

lemma left_eq_nil (h : ∀ i < p.created, (p.thread i).left = false) : p.left = [] := by
  refine filter_eq_nil_iff.2 fun i hm => ?_
  rw [h i (mem_range.1 hm)]
  exact Bool.false_ne_true

lemma weight_pos (hpc : th.pc ≠ .unpolled) (h : th.left) : 1 + th.pc.inFlight ≤ th.weight := by
  unfold Thread.weight
  rw [if_pos ⟨hpc, h⟩]

/-- If no polled thread is counted, no thread is left but those that wait for
their first poll. -/
lemma left_of_zero {created : Nat} (hzero : upTo Thread.weight p.thread created ≤ 0) (hcreated : p.created = created)
    (hpolled : ∀ i < created, (p.thread i).pc ≠ .unpolled) : p.left = [] := by
  subst hcreated
  refine left_eq_nil fun i hlt => Bool.eq_false_iff.2 fun hleft => ?_
  have hpos := weight_pos (hpolled i hlt) hleft
  have hle := le_upTo Thread.weight p.thread hlt
  omega

lemma Settled.swept (hs : p.Settled) (h : Swept p q) : q.Settled := by
  rcases hs with hs | hs
  · exact .inl (h.requested.trans hs)
  refine .inr fun i hlt => ?_
  rw [h.pc]
  exact hs i (h.created ▸ hlt)

section

variable (hd : p.Due) (hs : p.exitStatus = none ∨ p.Settled) (hc : Tally E ts p)
include hd hs hc

lemma Due.stop (ht : t ∈ ts)
    (h : Stop status p t q) : q.Due := by
  have htally := hc.stop ht h
  have hswept := h.swept
  cases h with
  | already => exact hd
  | quiet => exact hd
  | counted => exact hd
  | last hstate hrun hes =>
    refine Due.call (p := { p.set t ⟨.terminated, true, (p.thread t).pc⟩ with running := p.running - 1 }) hd ?_
    rcases hs with hs | hs
    · rw [hs] at hes
      cases hes
    rcases hs with hs | hs
    · exact .inl hs
    -- the counter is at zero now
    have hcount : upTo Thread.weight (p.set t ⟨.terminated, true, (p.thread t).pc⟩).thread p.created ≤
        p.running - 1 := htally.counted
    have hzero : p.running - 1 = 0 := by omega
    rw [hzero] at hcount
    exact .inr (left_of_zero hcount rfl fun i hlt h => hs i hlt ((hswept.pc i).symm.trans h))

lemma Due.terminateAll (h : p.terminateAll own status ts = .ok q) : q.Due := by
  have hall : q.Due ∧ (q.exitStatus = none ∨ q.Settled) ∧ Tally E ts q := by
    refine foldlM_keeps (P := fun p => p.Due ∧ (p.exitStatus = none ∨ p.Settled) ∧ Tally E ts p) ?_ ⟨hd, hs, hc⟩ h
    rintro p t q ht ⟨hd, hs, hc⟩ hstep
    have hstop := stop_of_terminate hstep
    have hmem := (mem_filter.1 ht).1
    refine ⟨Due.stop hd hs hc hmem hstop, ?_, hc.stop hmem hstop⟩
    exact hs.imp hstop.swept.exitStatus.trans fun h => Settled.swept h hstop.swept
  exact hall.1

end

/-- The last thread in `exit` finds all others gone. -/
lemma Inv.left_of_last (hi : Inv E p) (ht : t < p.created) (hpc : (p.thread t).pc = .exiting status)
    (hrun : p.running = 1) (hpolled : ∀ i < p.created, (p.thread i).pc ≠ .unpolled) : p.left = [] := by
  have hflight : (p.thread t).pc.inFlight = 1 := by rw [hpc]; rfl
  have hone : 1 ≤ (p.thread t).weight := by
    unfold Thread.weight
    omega
  have hc := hi.counted
  refine left_eq_nil fun i hlt => Bool.eq_false_iff.2 fun hleft => ?_
  have hpos := weight_pos (hpolled i hlt) hleft
  by_cases he : i = t
  · subst he
    have hle := le_upTo Thread.weight p.thread hlt
    omega
  · have hle := add_le_upTo Thread.weight p.thread hlt ht he
    omega

lemma Due.step {a : Act} (hi : Inv False p) (hd : p.Due) (hp : Polled p a) (h : Step p a q) : q.Due := by
  cases h with
  | last ht hpc hrun =>
    refine Due.call (p := { p with running := p.running - 1 }) hd ?_
    exact hp.imp_right (hi.left_of_last ht hpc hrun)
  | request ht hpc => exact Due.call (p := { p with requested := true }) hd (.inl rfl)
  | @kill t status locked q ht hpc hk =>
    have hes := hi.killing t ht status locked hpc
    have hdue : q.Due := Due.terminateAll (p := { p with threads := [] }) hd (.inr hp) (hi.tally_kill hes nofun) hk
    exact hdue
  | @execve t q ht hpc hx =>
    obtain ⟨l, rest, p1, hl, -, hr, hall⟩ := execve_cases hx
    obtain ⟨-, -, hes, hcreated, hreq, hentries, hpc', -⟩ :=
      hi.restartLeader (by rw [hl]; exact mem_cons_self) (hi.head hl) hr
    have hdue : q.Due := by
      refine Due.terminateAll ?_ ?_ (hi.tally_execve nofun hl hr) hall
      · intro e he
        exact hd e (hentries ▸ he)
      refine hp.imp hes.trans fun hs => ?_
      rcases hs with hs | hs
      · exact .inl (hreq.trans hs)
      · exact .inr fun i hlt h => hs i (hcreated ▸ hlt) ((hpc' i).symm.trans h)
    exact hdue
  | _ => exact hd

end

def Process.waiting (p : Process) : List Nat := (List.range p.created).filter fun i => (p.thread i).pc = .unpolled

/-- The threads in `exit` that have not been counted out yet. -/
def Process.leaving (p : Process) : List Nat := (List.range p.created).filter fun i => (p.thread i).pc.inFlight = 1

lemma inFlight_le (pc : Pc) : pc.inFlight ≤ 1 := by
  cases pc with
  | exiting => exact Nat.le_refl 1
  | _ => exact Nat.zero_le 1

lemma weight_split (hfresh : th.pc = .unpolled → th.state = .running) :
    th.weight + (decide (th.pc = .unpolled)).toNat = th.left.toNat + (decide (th.pc.inFlight = 1)).toNat := by
  have hflight : (decide (th.pc.inFlight = 1)).toNat = th.pc.inFlight := by
    have hle := inFlight_le th.pc
    by_cases h : th.pc.inFlight = 1
    · rw [decide_eq_true h, h]
      rfl
    have h0 : th.pc.inFlight = 0 := by omega
    rw [decide_eq_false h, h0]
    rfl
  unfold Thread.weight
  rw [hflight]
  by_cases hpc : th.pc = .unpolled
  · have hleft : th.left := by
      unfold Thread.left
      rw [hfresh hpc]
      rfl
    rw [if_neg (fun h => h.1 hpc), hpc, hleft]
    rfl
  · cases hl : th.left <;> simp [hpc]

lemma Inv.count {E : Prop} {p : Process} (hi : Inv E p) :
    upTo Thread.weight p.thread p.created + p.waiting.length = p.left.length + p.leaving.length := by
  unfold Process.waiting Process.left Process.leaving
  rw [length_filter_range p.thread (fun th => decide (th.pc = .unpolled)), length_filter_range p.thread Thread.left,
    length_filter_range p.thread (fun th => decide (th.pc.inFlight = 1)), ← upTo_add, ← upTo_add]
  exact upTo_congr _ _ fun i hlt => weight_split (hi.fresh i hlt)

lemma inductive_polled (pid : Nat) : ((process pid).only Polled).Inductive fun p => Inv False p ∧ p.Due where
  init p hp := by
    cases hp
    exact ⟨.new False pid, fun e he => nomatch he⟩
  step p a q hp h := by
    obtain ⟨hpolled, hstep⟩ := h
    have hs := step_of_next hstep
    exact ⟨hp.1.step nofun hs, Due.step hp.1 hp.2 hpolled hs⟩

lemma inductive_steady (pid : Nat) : ((process pid).only Steady).Inductive (Inv True) where
  init p hp := by
    cases hp
    exact .new True pid
  step _ _ _ hp h := hp.step (fun _ => h.1) (step_of_next h.2)

/-- If no thread is counted out while another one waits for its first poll, `exit_group` is entered on request or
when all threads have exited. The counter is the number of threads that have not exited, short of those that
wait for their first poll and those whose `exit` has not come to it. -/
theorem ends_when_due (pid : Nat) (p : Process) :
    (((process pid).only Polled).Reachable p → ∀ e ∈ p.entries, e.requested = true ∨ e.left = []) ∧
      (((process pid).only Steady).Reachable p → p.running + p.waiting.length = p.left.length + p.leaving.length) := by
  refine ⟨fun hp => ?_, fun hp => ?_⟩
  · exact ((inductive_polled pid).reachable p hp).2
  have hi := (inductive_steady pid).reachable p hp
  rw [← hi.exact (.inr trivial)]
  exact hi.count

/-- Init creates a thread and exits with the status 0 before the first poll of the thread. -/
theorem exit_before_first_poll : ∃ p, (process 1).Reachable p ∧ p.requested = false ∧ p.left = [1] ∧ p.running = 0 ∧
    p.entries = [⟨false, [1], some .commit⟩] := by
  have hrun : (process 1).Run (.new 1) [.poll 0, .watch 0, .create 0, .exit 0 0, .count 0] _ :=
    .cons rfl (.cons rfl (.cons rfl (.cons rfl (.cons rfl (.nil _)))))
  exact ⟨_, ⟨_, _, rfl, hrun⟩, rfl, rfl, rfl, rfl⟩

/-- Both threads of init are polled and exit. -/
theorem ends_when_due_last : ∃ p, ((process 1).only Polled).Reachable p ∧ ((process 1).only Steady).Reachable p ∧
    p.entries = [⟨false, [], some .commit⟩] ∧ (∀ e ∈ p.entries, e.requested = true ∨ e.left = []) ∧
    p.running + p.waiting.length = p.left.length + p.leaving.length := by
  let acts : List Act := [.poll 0, .watch 0, .create 0, .poll 1, .watch 1, .exit 0 0, .count 0, .exit 1 0, .count 1]
  have hpolled : ((process 1).only Polled).Run (.new 1) acts _ :=
    .cons ⟨trivial, rfl⟩ (.cons ⟨trivial, rfl⟩ (.cons ⟨trivial, rfl⟩ (.cons ⟨trivial, rfl⟩ (.cons ⟨trivial, rfl⟩
      (.cons ⟨trivial, rfl⟩ (.cons ⟨.inr (by decide), rfl⟩ (.cons ⟨trivial, rfl⟩ (.cons ⟨.inr (by decide), rfl⟩
        (.nil _)))))))))
  have hsteady : ((process 1).only Steady).Run (.new 1) acts _ :=
    .cons ⟨trivial, rfl⟩ (.cons ⟨trivial, rfl⟩ (.cons ⟨trivial, rfl⟩ (.cons ⟨trivial, rfl⟩ (.cons ⟨trivial, rfl⟩
      (.cons ⟨trivial, rfl⟩ (.cons ⟨trivial, rfl⟩ (.cons ⟨trivial, rfl⟩ (.cons ⟨trivial, rfl⟩ (.nil _)))))))))
  have hdue := (ends_when_due 1 _).1 ⟨_, _, rfl, hpolled⟩
  have hcount := (ends_when_due 1 _).2 ⟨_, _, rfl, hsteady⟩
  exact ⟨_, ⟨_, _, rfl, hpolled⟩, ⟨_, _, rfl, hsteady⟩, rfl, hdue, hcount⟩

end Mushroom.L6.Threads
