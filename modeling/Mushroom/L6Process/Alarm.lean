import Mushroom.Core.LTS
import Mushroom.L6Process.Timespec

/-!
# `alarm`

`kernel/user/process.rs:370-407`. The task of an alarm polls the cancellation and
then the timer. The answer of a call is the time since the deadline, not until it,
and the state stays when the alarm has fired. The monotonic clock goes on by itself.
-/
namespace Mushroom.L6.Alarm

open Function Time

/-- The full seconds from `b` to `a`. -/
def since (a b : Timespec) : Nat := (a.checkedSub b).elim 0 Timespec.sec

/-- Before the poll of the cancellation, between the two polls, and when the task is over. -/
inductive Pc where
  | recv | sleep | over
  deriving DecidableEq

/-- An alarm of some seconds, scheduled at the time `start`. -/
structure Task where
  start : Timespec
  seconds : Nat
  deadline : Timespec
  (cancelled fired : Bool)
  pc : Pc

structure State where
  now : Timespec
  /-- the task that the stored state cancels -/
  alarm : Option Nat
  count : Nat
  tasks : Nat → Task

namespace State

def new : State := ⟨⟨1, 0⟩, none, 0, fun _ => ⟨⟨0, 0⟩, 0, ⟨0, 0⟩, false, false, .over⟩⟩

def cancel (s : State) : State :=
  { s with alarm := none, tasks := fun i => { s.tasks i with cancelled := (s.tasks i).cancelled || s.alarm == some i } }

/-- syscall.rs:1172-1179 -/
def schedule (s : State) (seconds : Nat) : Option State :=
  if seconds = 0 then some s.cancel
  else (s.now.saturatingAdd ⟨seconds, 0⟩).map fun deadline =>
    { s.cancel with
      alarm := some s.count
      count := s.count + 1
      tasks := update s.cancel.tasks s.count ⟨s.now, seconds, deadline, false, false, .recv⟩ }

/-- What a call has to answer: the full seconds that are left of the stored alarm. -/
def left (s : State) : Nat :=
  s.alarm.elim 0 fun i =>
    if (s.tasks i).fired then 0 else ((s.tasks i).deadline.intoNs - s.now.intoNs) / 10 ^ 9

def setPc (s : State) (i : Nat) (pc : Pc) (fired : Bool) : State :=
  { s with tasks := update s.tasks i { s.tasks i with pc, fired } }

end State

inductive Act where
  | alarm (seconds : UInt32) | advance (now : Timespec) | poll (i : Nat)

def next (s : State) : Act → Option State
  | .alarm seconds => s.schedule seconds.toNat
  | .advance now => if now.before s.now ∨ 2 ^ 32 ≤ now.sec ∨ 10 ^ 9 ≤ now.nsec then none else some { s with now }
  | .poll i =>
    match (s.tasks i).pc with
    | .recv => some (s.setPc i (if (s.tasks i).cancelled then .over else .sleep) false)
    | .sleep => some (if s.now.before (s.tasks i).deadline then s.setPc i .recv false else s.setPc i .over true)
    | .over => none

/-- Each call in any state of the tasks, on any CPU. -/
def system : LTS State Act := LTS.ofFn (· = .new) next

/-! ## The invariant -/

structure Task.Ok (t : Task) (now : Timespec) : Prop where
  start : t.start.Normal ∧ t.start.intoNs ≤ now.intoNs
  deadline : t.start.saturatingAdd ⟨t.seconds, 0⟩ = some t.deadline ∧ t.deadline.Normal
  fired : t.fired = true → t.pc = .over ∧ t.deadline.intoNs ≤ now.intoNs

structure Inv (s : State) : Prop where
  now : s.now.Normal
  alarm : ∀ i, s.alarm = some i → i < s.count
  tasks : ∀ i < s.count, (s.tasks i).Ok s.now
  unused : ∀ i, s.count ≤ i → (s.tasks i).pc = .over

variable {s s' : State}

lemma Inv.cancel (h : Inv s) : Inv s.cancel := by
  refine ⟨h.now, nofun, fun i hi => ?_, h.unused⟩
  obtain ⟨hstart, hdeadline, hfired⟩ := h.tasks i hi
  exact ⟨hstart, hdeadline, hfired⟩

lemma Inv.schedule (h : Inv s) {seconds : Nat} (hlt : seconds < 2 ^ 32) : ∃ s', s.schedule seconds = some s' ∧ Inv s' ∧
    ∀ i < s.count, s'.tasks i = s.cancel.tasks i := by
  unfold State.schedule
  split
  · exact ⟨_, rfl, h.cancel, fun _ _ => rfl⟩
  obtain ⟨deadline, hadd, hnormal, -⟩ := h.now.saturatingAdd (b := ⟨seconds, 0⟩) ⟨hlt, Nat.zero_lt_succ _⟩
  have hold : ∀ i, i ≠ s.count → ∀ t, update s.cancel.tasks s.count t i = s.cancel.tasks i :=
    fun i hi t => update_of_ne hi ..
  rw [hadd, Option.map_some]
  refine ⟨_, rfl, ⟨h.now, fun i hi => ?_, fun i hi => ?_, fun i hi => ?_⟩, fun i hi => hold i (by omega) _⟩
  · cases hi
    exact Nat.lt_succ_self _
  · by_cases he : i = s.count
    · subst he
      simp only [update_self]
      exact ⟨⟨h.now, le_rfl⟩, ⟨hadd, hnormal⟩, nofun⟩
    · simp only [hold i he]
      exact h.cancel.tasks i (Nat.lt_of_le_of_ne (Nat.le_of_lt_succ hi) he)
  · have hlt : s.count < i := hi
    simp only [hold i (Nat.ne_of_gt hlt)]
    exact h.unused i hlt.le

lemma Inv.setPc (h : Inv s) {i : Nat} {pc : Pc} {fired : Bool} (hpc : (s.tasks i).pc ≠ .over)
    (hfired : fired = true → pc = .over ∧ s.now.before (s.tasks i).deadline = false) : Inv (s.setPc i pc fired) := by
  have hi : i < s.count := Nat.lt_of_not_le fun hle => hpc (h.unused i hle)
  refine ⟨h.now, h.alarm, fun j hj => ?_, fun j hj => ?_⟩
  · by_cases he : j = i
    · subst he
      obtain ⟨hstart, hdeadline, -⟩ := h.tasks j hj
      simp only [State.setPc, update_self]
      refine ⟨hstart, hdeadline, fun hf => ⟨(hfired hf).1, ?_⟩⟩
      have hnot := mt (h.now.before_iff hdeadline.2).2 (by rw [(hfired hf).2]; decide)
      exact Nat.le_of_not_lt hnot
    · simp only [State.setPc, update_of_ne he]
      exact h.tasks j hj
  · have he : j ≠ i := by
      rintro rfl
      exact absurd hi (Nat.not_lt.2 hj)
    simp only [State.setPc, update_of_ne he]
    exact h.unused j hj

lemma Inv.next {a : Act} (h : Inv s) (hn : next s a = some s') : Inv s' := by
  cases a with
  | alarm seconds =>
    obtain ⟨s1, hs1, hinv, -⟩ := h.schedule seconds.toNat_lt
    cases hs1.symm.trans hn
    exact hinv
  | advance now =>
    obtain ⟨hnot, hn⟩ := Option.ite_none_left_eq_some.1 hn
    cases hn
    have hnormal : now.Normal := ⟨by omega, by omega⟩
    have hle : s.now.intoNs ≤ now.intoNs :=
      Nat.le_of_not_lt fun hlt => hnot (.inl ((hnormal.before_iff h.now).2 hlt))
    refine ⟨hnormal, h.alarm, fun i hi => ?_, h.unused⟩
    obtain ⟨hstart, hdeadline, hfired⟩ := h.tasks i hi
    exact ⟨⟨hstart.1, hstart.2.trans hle⟩, hdeadline, fun hf => ⟨(hfired hf).1, (hfired hf).2.trans hle⟩⟩
  | poll i =>
    simp only [Alarm.next] at hn
    split at hn
    · rename_i hpc
      cases hn
      exact h.setPc (by rw [hpc]; decide) nofun
    · rename_i hpc
      split at hn <;> cases hn
      · exact h.setPc (by rw [hpc]; decide) nofun
      · rename_i hb
        exact h.setPc (by rw [hpc]; decide) fun _ => ⟨rfl, by simpa using hb⟩
    · cases hn

lemma inv_reachable (hs : system.Reachable s) : Inv s := by
  refine LTS.Inductive.reachable ⟨?_, fun _ _ _ h hn => h.next hn⟩ s hs
  rintro s rfl
  exact ⟨⟨by decide, by decide⟩, nofun, fun i hi => absurd hi (Nat.not_lt_zero i), fun _ _ => rfl⟩

/-! ## Cancelled alarms -/

/-- A cancelled alarm that will see it. -/
structure Quiet (s : State) (i : Nat) : Prop where
  known : i < s.count
  cancelled : (s.tasks i).cancelled = true
  pc : (s.tasks i).pc ≠ .sleep
  fired : (s.tasks i).fired = false

lemma Quiet.next {i : Nat} {a : Act} (h : Quiet s i) (hn : next s a = some s') : Quiet s' i := by
  obtain ⟨hlt, hc, hpc, hf⟩ := h
  cases a with
  | alarm seconds =>
    simp only [Alarm.next, State.schedule] at hn
    split at hn
    · cases hn
      exact ⟨hlt, by simp [State.cancel, hc], hpc, hf⟩
    · obtain ⟨deadline, -, rfl⟩ := Option.map_eq_some_iff.1 hn
      have hne : i ≠ s.count := Nat.ne_of_lt hlt
      refine ⟨Nat.lt_succ_of_lt hlt, ?_, ?_, ?_⟩ <;> simp only [update_of_ne hne, State.cancel]
      · simp [hc]
      · exact hpc
      · exact hf
  | advance now =>
    obtain ⟨-, hn⟩ := Option.ite_none_left_eq_some.1 hn
    cases hn
    exact ⟨hlt, hc, hpc, hf⟩
  | poll j =>
    by_cases hj : j = i
    · subst hj
      simp only [Alarm.next] at hn
      split at hn
      · cases hn
        exact ⟨hlt, by simp [State.setPc, hc], by simp [State.setPc, hc], by simp [State.setPc]⟩
      · rename_i hsleep
        exact absurd hsleep hpc
      · cases hn
    · have hsame : s'.count = s.count ∧ s'.tasks i = s.tasks i := by
        have hset : ∀ pc fired, (s.setPc j pc fired).tasks i = s.tasks i := fun pc fired => update_of_ne (Ne.symm hj) ..
        simp only [Alarm.next] at hn
        split at hn
        · cases hn
          exact ⟨rfl, hset ..⟩
        · split at hn <;> cases hn <;> exact ⟨rfl, hset ..⟩
        · cases hn
      exact ⟨hsame.1.symm ▸ hlt, hsame.2.symm ▸ hc, hsame.2.symm ▸ hpc, hsame.2.symm ▸ hf⟩

end Mushroom.L6.Alarm
