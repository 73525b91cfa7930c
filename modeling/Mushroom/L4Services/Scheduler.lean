import Mushroom.Core.LTS

/-!
# Waking and launching vCPUs

The scheduler has a bit for every vCPU that runs or was asked to. `pick_any`
takes the first clear bit: a launched vCPU that has halted, or the next one to
launch. The supervisor launches vCPUs in the order of its own counter, so the
bit has to be the one behind those of the launched vCPUs (`scheduler_ok`).

A step is one critical section of the scheduler's lock, or the supervisor's
handling of a `StartNextAp`; the supervisor launches the first vCPU itself.
-/
namespace Mushroom.L4

open Function

/-- The bits of the `u128`, `launched` and `is_launching`.
kernel/supervisor.rs:198-206 -/
structure SchedulerState where
  bits : Fin 128 → Bool
  launched : Nat
  isLaunching : Bool

inductive ScheduledCpu where
  | nothing
  | existing (idx : Nat)
  | new

namespace SchedulerState

def new : SchedulerState := ⟨fun i => i = 0, 0, true⟩

def maxApsCount : Nat := 32

def trailingOnes (bits : Fin 128 → Bool) : Nat := (List.finRange 128).findIdx fun i => !bits i

def setBit (bits : Fin 128 → Bool) (idx : Nat) (value : Bool) : Fin 128 → Bool :=
  fun i => if i.val = idx then value else bits i

/-- supervisor.rs:217-235 -/
def pickAny (s : SchedulerState) : ScheduledCpu × SchedulerState :=
  let idx := trailingOnes s.bits
  if idx < s.launched then (.existing idx, { s with bits := setBit s.bits idx true })
  else if s.isLaunching || decide (maxApsCount ≤ idx) then (.nothing, s)
  else (.new, { s with isLaunching := true, bits := setBit s.bits idx true })

/-- `none` is `LastRunningVcpuError`. supervisor.rs:237-247 -/
def halt (s : SchedulerState) (idx : Nat) : Option SchedulerState :=
  if ∀ i, setBit s.bits idx false i = false then none else some { s with bits := setBit s.bits idx false }

/-- supervisor.rs:249-252 -/
def resume (s : SchedulerState) (idx : Nat) : SchedulerState := { s with bits := setBit s.bits idx true }

/-- `none` is the failed assertion. supervisor.rs:254-259 -/
def finishLaunch (s : SchedulerState) : Option SchedulerState :=
  if s.isLaunching then some { s with isLaunching := false, launched := s.launched + 1 } else none

end SchedulerState

open SchedulerState

/-- The scheduler, the `StartNextAp` commands under way, `APIC_COUNTER`, the vCPUs started and not up, and
those halted. -/
structure Vcpus where
  sched : SchedulerState
  (requests apicCounter coming : Nat)
  halted : Nat → Bool

inductive VcpuAct where
  | pickAny
  | startNextAp
  | finishLaunch
  | halt (idx : Nat)
  | resume (idx : Nat)

/-- A vCPU that is up halts and resumes in turn, and may resume at any time.
supervisor.rs:175-188,266-280, kernel/main.rs:97, supervisor-snp/ap.rs:22-28 -/
def Vcpus.next (s : Vcpus) : VcpuAct → Option Vcpus
  | .pickAny =>
    match s.sched.pickAny with
    | (.new, sched) => some { s with sched := sched, requests := s.requests + 1 }
    | (_, sched) => some { s with sched := sched }
  | .startNextAp =>
    if s.requests = 0 then none
    else if maxApsCount ≤ s.apicCounter then some { s with requests := s.requests - 1 }
    else some { s with requests := s.requests - 1, apicCounter := s.apicCounter + 1, coming := s.coming + 1 }
  | .finishLaunch =>
    if s.coming = 0 then none
    else s.sched.finishLaunch.map fun sched => { s with sched := sched, coming := s.coming - 1 }
  | .halt idx =>
    if idx < s.sched.launched ∧ s.halted idx = false then
      match s.sched.halt idx with
      | none => some s
      | some sched => some { s with sched := sched, halted := update s.halted idx true }
    else none
  | .resume idx =>
    if s.halted idx then some { s with sched := s.sched.resume idx, halted := update s.halted idx false } else none

def vcpus : LTS Vcpus VcpuAct := LTS.ofFn (· = ⟨.new, 1, 0, 0, fun _ => false⟩) Vcpus.next

/-! ## The invariant -/

structure VcpusOk (s : Vcpus) : Prop where
  running : ∃ i, s.sched.bits i = true
  above : ∀ i : Fin 128, s.sched.launched ≤ i →
    (s.sched.bits i = true ↔ i.val = s.sched.launched ∧ s.sched.isLaunching = true)
  launching : s.requests + s.coming = if s.sched.isLaunching then 1 else 0
  counter : s.apicCounter = s.sched.launched + s.coming
  max : s.sched.launched + s.requests + s.coming ≤ maxApsCount
  halted : ∀ i, s.halted i = true → i < s.sched.launched

variable {s s' : Vcpus} {bits : Fin 128 → Bool}

lemma trailingOnes_clear (h : trailingOnes bits < 128) : bits ⟨trailingOnes bits, h⟩ = false := by
  have hlt : trailingOnes bits < (List.finRange 128).length := by simpa using h
  have hfound : (!bits ((List.finRange 128).get ⟨trailingOnes bits, hlt⟩)) = true := List.findIdx_getElem (w := hlt)
  rw [List.get_finRange] at hfound
  simpa using hfound

lemma trailingOnes_set {i : Fin 128} (h : i.val < trailingOnes bits) : bits i := by
  have hbefore := List.not_of_lt_findIdx h
  simpa using hbefore

/-- If no launched vCPU is halted, the first clear bit is the one of the next vCPU. -/
lemma VcpusOk.next_vcpu (h : VcpusOk s) (hidle : s.sched.isLaunching = false)
    (hge : s.sched.launched ≤ trailingOnes s.sched.bits) : trailingOnes s.sched.bits = s.sched.launched := by
  have hmax : s.sched.launched ≤ maxApsCount := by have := h.max; omega
  by_contra hne
  have hset := trailingOnes_set (i := ⟨s.sched.launched, by unfold maxApsCount at hmax; omega⟩)
    (Nat.lt_of_le_of_ne hge (Ne.symm hne))
  have hnot := ((h.above _ (Nat.le_refl _)).1 hset).2
  rw [hidle] at hnot
  cases hnot

lemma VcpusOk.setBit (h : VcpusOk s) {idx : Nat} {value : Bool} {halted : Nat → Bool} (hidx : idx < s.sched.launched)
    (hrun : ∃ i, SchedulerState.setBit s.sched.bits idx value i) (hhalted : ∀ i, halted i → i < s.sched.launched) :
    VcpusOk
      { s with sched := { s.sched with bits := SchedulerState.setBit s.sched.bits idx value }, halted := halted } := by
  refine ⟨hrun, fun i hi => ?_, h.launching, h.counter, h.max, hhalted⟩
  have hne : ¬i.val = idx := by
    have hi' : s.sched.launched ≤ i.val := hi
    omega
  simp only [SchedulerState.setBit, if_neg hne]
  exact h.above i hi

lemma exists_setBit (bits : Fin 128 → Bool) {idx : Nat} (h : idx < 128) : ∃ i, setBit bits idx true i :=
  ⟨⟨idx, h⟩, if_pos rfl⟩

lemma VcpusOk.pickAny (h : VcpusOk s) (hs : s.next .pickAny = some s') : VcpusOk s' := by
  have hmax := h.max
  unfold maxApsCount at hmax
  simp only [Vcpus.next, SchedulerState.pickAny] at hs
  by_cases hlt : trailingOnes s.sched.bits < s.sched.launched
  · rw [if_pos hlt] at hs
    cases hs
    exact h.setBit hlt (exists_setBit _ (by omega)) h.halted
  rw [if_neg hlt] at hs
  by_cases hnone : (s.sched.isLaunching || decide (maxApsCount ≤ trailingOnes s.sched.bits)) = true
  · rw [if_pos hnone] at hs
    cases hs
    exact h
  rw [if_neg hnone] at hs
  cases hs
  simp only [Bool.or_eq_true, decide_eq_true_eq, not_or, Bool.not_eq_true] at hnone
  have hnext := h.next_vcpu hnone.1 (by omega)
  have hroom := hnone.2
  unfold maxApsCount at hroom
  have hlaunch := h.launching
  rw [hnone.1] at hlaunch
  simp only [Bool.false_eq_true, if_false] at hlaunch
  refine ⟨exists_setBit _ (by omega), fun i hi => ?_, ?_, h.counter, ?_, h.halted⟩
  · simp only [SchedulerState.setBit, hnext, and_true]
    split
    · rename_i he
      simp [he]
    · rename_i hne
      simp [hne, h.above i hi, hnone.1]
  · simp only [if_true]
    omega
  · simp only [maxApsCount]
    omega

lemma VcpusOk.step {a : VcpuAct} (h : VcpusOk s) (hs : s.next a = some s') : VcpusOk s' := by
  have hmax := h.max
  have hlaunch := h.launching
  have hcounter := h.counter
  cases a with
  | pickAny => exact h.pickAny hs
  | startNextAp =>
    simp only [Vcpus.next] at hs
    split at hs
    · cases hs
    split at hs
    · omega
    cases hs
    refine ⟨h.running, h.above, ?_, ?_, ?_, h.halted⟩ <;> simp only <;> omega
  | finishLaunch =>
    simp only [Vcpus.next, SchedulerState.finishLaunch] at hs
    split at hs
    · cases hs
    split at hs
    · rename_i hcoming hlaunching
      cases hs
      rw [hlaunching, if_pos rfl] at hlaunch
      refine ⟨h.running, fun i hi => ?_, ?_, ?_, ?_, fun i hi => Nat.lt_succ_of_lt (h.halted i hi)⟩
      · have hi' : s.sched.launched + 1 ≤ i.val := hi
        simp only [h.above i (by omega), Bool.false_eq_true, and_false, iff_false, not_and]
        omega
      · simp only [Bool.false_eq_true, if_false]
        omega
      · simp only
        omega
      · simp only
        omega
    · cases hs
  | halt idx =>
    simp only [Vcpus.next, SchedulerState.halt] at hs
    split at hs
    · rename_i hidx
      split at hs
      · cases hs
        exact h
      rename_i sched hsched
      obtain ⟨hrun, hsched⟩ := Option.ite_none_left_eq_some.1 hsched
      cases hsched
      cases hs
      rw [not_forall] at hrun
      refine h.setBit hidx.1 (hrun.imp fun i hi => by simpa using hi) fun i hi => ?_
      by_cases he : i = idx
      · exact he ▸ hidx.1
      · exact h.halted i (by rwa [update_of_ne he] at hi)
    · cases hs
  | resume idx =>
    simp only [Vcpus.next] at hs
    split at hs
    · rename_i hhalted
      cases hs
      have hidx := h.halted idx hhalted
      unfold maxApsCount at hmax
      refine h.setBit hidx (exists_setBit _ (by omega)) fun i hi => ?_
      by_cases he : i = idx
      · exact he ▸ hidx
      · exact h.halted i (by rwa [update_of_ne he] at hi)
    · cases hs

lemma vcpusOk_reachable (h : vcpus.Reachable s) : VcpusOk s := by
  have hind : vcpus.Inductive VcpusOk := by
    refine ⟨fun s hs => ?_, fun s l s' hok hs => hok.step hs⟩
    cases hs
    refine ⟨⟨0, rfl⟩, fun i _ => ?_, rfl, rfl, by decide, nofun⟩
    simp [SchedulerState.new]
  exact hind.reachable s h

/-- What the scheduler has recorded is right, `Existing` is a launched vCPU that has halted, `New` the next one
to launch, and the assertion of `finish_launch` holds. -/
theorem scheduler_ok (s : Vcpus) (h : vcpus.Reachable s) : VcpusOk s ∧
    (∀ idx sched, s.sched.pickAny = (.existing idx, sched) →
      idx < s.sched.launched ∧ ∃ i : Fin 128, i.val = idx ∧ s.sched.bits i = false) ∧
    (∀ sched, s.sched.pickAny = (.new, sched) → s.requests = 0 ∧ s.coming = 0 ∧ s.apicCounter = s.sched.launched ∧
      s.sched.launched < maxApsCount ∧ sched.bits = setBit s.sched.bits s.sched.launched true) ∧
    (0 < s.coming → s.sched.finishLaunch.isSome = true) := by
  have hok := vcpusOk_reachable h
  have hmax := hok.max
  have hlaunch := hok.launching
  have hcounter := hok.counter
  refine ⟨hok, fun idx sched hp => ?_, fun sched hp => ?_, fun hcoming => ?_⟩
  · simp only [SchedulerState.pickAny] at hp
    split at hp
    · rename_i hlt
      cases hp
      have hin : trailingOnes s.sched.bits < 128 := by
        unfold maxApsCount at hmax
        omega
      exact ⟨hlt, ⟨_, hin⟩, rfl, trailingOnes_clear hin⟩
    · split at hp <;> cases hp
  · simp only [SchedulerState.pickAny] at hp
    split at hp
    · cases hp
    split at hp
    · cases hp
    rename_i hge hnone
    cases hp
    simp only [Bool.or_eq_true, decide_eq_true_eq, not_or, Bool.not_eq_true] at hnone
    have hnext := hok.next_vcpu hnone.1 (by omega)
    rw [hnone.1] at hlaunch
    simp only [Bool.false_eq_true, if_false] at hlaunch
    refine ⟨by omega, by omega, by omega, by omega, by simp only [hnext]⟩
  · unfold SchedulerState.finishLaunch
    split
    · rfl
    rename_i hnot
    rw [if_neg hnot] at hlaunch
    omega

/-- The first vCPU is up and the second one is coming. -/
theorem scheduler_ok_launching : ∃ s, vcpus.Reachable s ∧ s.sched.launched = 1 ∧ s.coming = 1 ∧ VcpusOk s ∧
    s.sched.finishLaunch.isSome = true := by
  have hrun : ((LTS.runFn Vcpus.next ⟨.new, 1, 0, 0, fun _ => false⟩
      [.startNextAp, .finishLaunch, .pickAny, .startNextAp]).any
        fun s => s.sched.launched = 1 && s.coming = 1) = true := by
    decide +kernel
  obtain ⟨s, hs, hp⟩ := (Option.any_eq_true _ _).1 hrun
  simp only [Bool.and_eq_true, decide_eq_true_eq] at hp
  have hreach : vcpus.Reachable s := ⟨_, _, rfl, LTS.runFn_run hs⟩
  obtain ⟨hok, -, -, hfinish⟩ := scheduler_ok s hreach
  exact ⟨s, hreach, hp.1, hp.2, hok, hfinish (by omega)⟩

end Mushroom.L4
