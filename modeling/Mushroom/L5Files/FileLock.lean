import Mushroom.Core.LTS
import Mushroom.Core.Ledger

/-!
# `flock`

`kernel/fs/fd.rs:569-687`. Any number of `FileLock`s share the counter of one
record. A call on a `FileLock` has the mutex of its state from the release of
what it held before to the end of the attempt, so the calls on one `FileLock`
take turns; those on different ones meet in the accesses to the counter. A
request that has to wait gives the mutex back and starts over when it is notified.
-/
namespace Mushroom.L5.FileLock

open Ledger

/-- fd.rs:683-687 -/
inductive FileLockState where
  | unlocked | shared | exclusive
  deriving DecidableEq

/-- A call of `lock_shared` or `lock_exclusive`. -/
structure Request where
  (exclusive nonBlocking : Bool)
  deriving DecidableEq

inductive Outcome where
  | granted
  | again
  | waits
  deriving DecidableEq

namespace Request

def state (req : Request) : FileLockState := if req.exclusive then .exclusive else .shared

/-- The condition of `compare_exchange(0, -1)` and of `fetch_update`. -/
def admitted (req : Request) (counter : Int) : Bool := if req.exclusive then counter = 0 else 0 ≤ counter

/-- The future to wait for is made if the request is non-blocking, and `Again` returned if there is none.
fd.rs:611-654 -/
def outcome (req : Request) (counter : Int) : Outcome :=
  if req.admitted counter then .granted else if req.nonBlocking then .waits else .again

@[simp] lemma outcome_granted {req : Request} {counter : Int} :
    req.outcome counter = .granted ↔ req.admitted counter := by
  unfold outcome
  cases req.admitted counter <;> cases req.nonBlocking <;> simp

end Request

/-- A `FileLock`: its mutex is free, its old state is about to be released, the attempt comes next, or the counter is
changed and the new state not stored yet. No request is an `unlock` or the drop. -/
inductive Pc where
  | free
  | releasing (prev : FileLockState) (req : Option Request)
  | trying (req : Request)
  | taken (req : Request)
  deriving DecidableEq

structure Lock where
  state : FileLockState
  pc : Pc
  deriving DecidableEq

/-- The state the counter knows. -/
def Lock.held (l : Lock) : FileLockState :=
  match l.pc with
  | .free => l.state
  | .releasing prev _ => prev
  | .trying _ => .unlocked
  | .taken req => req.state

variable {ι : Type} [DecidableEq ι]

structure Locks (ι : Type) where
  counter : Int
  locks : ι → Lock

def Locks.new : Locks ι := ⟨0, fun _ => ⟨.unlocked, .free⟩⟩

inductive Act (ι : Type) where
  | enter (i : ι) (req : Option Request)
  | release (i : ι)
  | attempt (i : ι)
  | store (i : ι)

/-- The counter behind `unlock_internal`.
fd.rs:661-680 -/
def unlockInternal (counter : Int) : FileLockState → Int
  | .unlocked => counter
  | .shared => counter - 1
  | .exclusive => 0

/-- fd.rs:611-680 -/
def next (s : Locks ι) : Act ι → Option (Locks ι)
  | .enter i req =>
    if (s.locks i).pc = .free then
      some { s with locks := Function.update s.locks i ⟨.unlocked, .releasing (s.locks i).state req⟩ }
    else none
  | .release i =>
    match (s.locks i).pc with
    | .releasing prev req =>
      some ⟨unlockInternal s.counter prev, Function.update s.locks i ⟨.unlocked, req.elim .free .trying⟩⟩
    | _ => none
  | .attempt i =>
    match (s.locks i).pc with
    | .trying req =>
      if req.outcome s.counter = .granted then
        some ⟨if req.exclusive then -1 else s.counter + 1, Function.update s.locks i ⟨.unlocked, .taken req⟩⟩
      else some { s with locks := Function.update s.locks i ⟨.unlocked, .free⟩ }
    | _ => none
  | .store i =>
    match (s.locks i).pc with
    | .taken req => some { s with locks := Function.update s.locks i ⟨req.state, .free⟩ }
    | _ => none

def system (ι : Type) [DecidableEq ι] : LTS (Locks ι) (Act ι) := LTS.ofFn (· = .new) next

variable [Fintype ι]

/-- How many hold the file in this way. -/
def Locks.holders (s : Locks ι) (v : FileLockState) : Nat := total (fun l : Lock => if l.held = v then 1 else 0) s.locks

structure Inv (s : Locks ι) : Prop where
  counter : s.counter = s.holders .shared - s.holders .exclusive
  alone : s.holders .exclusive = 0 ∨ s.holders .exclusive = 1 ∧ s.holders .shared = 0

lemma holders_update (s : Locks ι) (i : ι) (l : Lock) (counter : Int) (v : FileLockState) :
    (⟨counter, Function.update s.locks i l⟩ : Locks ι).holders v + (if (s.locks i).held = v then 1 else 0) =
      s.holders v + if l.held = v then 1 else 0 := total_update ..

/-- The counter follows what one `FileLock` holds, and an exclusive lock is taken by itself. -/
lemma Inv.update {s : Locks ι} (hi : Inv s) (i : ι) (l : Lock) {counter : Int}
    (h : l.held = (s.locks i).held ∧ counter = s.counter ∨
      l.held = .unlocked ∧ counter = unlockInternal s.counter (s.locks i).held ∨
      (s.locks i).held = .unlocked ∧ (l.held = .exclusive ∧ s.counter = 0 ∧ counter = -1 ∨
        l.held = .shared ∧ 0 ≤ s.counter ∧ counter = s.counter + 1)) : Inv ⟨counter, Function.update s.locks i l⟩ := by
  obtain ⟨hcounter, halone⟩ := hi
  have hs := holders_update s i l counter .shared
  have hx := holders_update s i l counter .exclusive
  rcases h with ⟨hl, rfl⟩ | ⟨hl, rfl⟩ | ⟨hu, ⟨hl, h0, rfl⟩ | ⟨hl, h0, rfl⟩⟩
  · rw [hl] at hs hx
    exact ⟨by simp only; omega, by omega⟩
  · cases hh : (s.locks i).held <;> simp only [hl, hh, unlockInternal, reduceCtorEq, if_true, if_false] at hs hx ⊢ <;>
      exact ⟨by simp only; omega, by omega⟩
  all_goals
    simp only [hl, hu, reduceCtorEq, if_true, if_false] at hs hx
    exact ⟨by simp only; omega, by omega⟩

lemma Inv.step {s s' : Locks ι} {a : Act ι} (hi : Inv s) (h : next s a = some s') : Inv s' := by
  cases a with
  | enter i req =>
    obtain ⟨hpc, h⟩ := Option.ite_none_right_eq_some.1 h
    cases h
    exact hi.update i _ (.inl ⟨by simp [Lock.held, hpc], rfl⟩)
  | release i =>
    simp only [next] at h
    split at h <;> cases h
    rename_i prev req hpc
    refine hi.update i _ (.inr (.inl ⟨?_, by simp [Lock.held, hpc]⟩))
    cases req <;> rfl
  | attempt i =>
    simp only [next] at h
    split at h
    · rename_i req hpc
      split at h <;> cases h
      · rename_i hgrant
        refine hi.update i _ (.inr (.inr ⟨by simp [Lock.held, hpc], ?_⟩))
        cases hx : req.exclusive <;> simp_all [Lock.held, Request.state, Request.admitted]
      · exact hi.update i _ (.inl ⟨by simp [Lock.held, hpc], rfl⟩)
    · cases h
  | store i =>
    simp only [next] at h
    split at h <;> cases h
    rename_i req hpc
    exact hi.update i _ (.inl ⟨by simp [Lock.held, hpc], rfl⟩)

lemma inv_inductive : (system ι).Inductive Inv where
  init s hs := by
    cases hs
    have hnone : ∀ v, v ≠ .unlocked → (Locks.new : Locks ι).holders v = 0 := fun v hv =>
      (total_eq_zero_iff ..).2 fun i => if_neg (Ne.symm hv)
    simp only [Locks.new] at hnone
    exact ⟨by simp [Locks.new, hnone], .inl (hnone _ nofun)⟩
  step _ _ _ hi h := hi.step h

/-- What a request promises: a non-blocking one that is not granted returns `Again`, a blocking one never does. -/
def Request.Contract (req : Request) (o : Outcome) : Prop :=
  (req.nonBlocking = true → o ≠ .granted → o = .again) ∧ (req.nonBlocking = false → o ≠ .again)

/-- In every state the counter tells who holds the file, and shared and exclusive holders do not meet; but a request
keeps its promise exactly if it is granted at once. -/
theorem flock_iff {s : Locks ι} (hs : (system ι).Reachable s) :
    (s.counter = -1 ↔ s.holders .exclusive = 1 ∧ s.holders .shared = 0) ∧
    (∀ n : Nat, 0 < n → (s.counter = n ↔ s.holders .shared = n)) ∧
    (s.counter = 0 ↔ s.holders .exclusive = 0 ∧ s.holders .shared = 0) ∧ s.holders .exclusive ≤ 1 ∧
    ∀ req : Request, req.Contract (req.outcome s.counter) ↔ req.admitted s.counter = true := by
  obtain ⟨hcounter, halone⟩ := inv_inductive.reachable s hs
  refine ⟨by omega, fun n hn => by omega, by omega, by omega, fun req => ?_⟩
  unfold Request.Contract Request.outcome
  cases req.admitted s.counter <;> cases req.nonBlocking <;> simp

/-- One `FileLock` has the file exclusively while a shared request is made on another. -/
lemma contended : ∃ s : Locks (Fin 2), (system (Fin 2)).Reachable s ∧ s.counter = -1 ∧
    (s.locks 1).pc = .trying ⟨false, false⟩ := by
  have hsome : ((LTS.runFn next (Locks.new : Locks (Fin 2))
      [.enter 0 (some ⟨true, false⟩), .release 0, .attempt 0, .store 0,
      .enter 1 (some ⟨false, false⟩), .release 1]).any fun s =>
        s.counter = -1 && (s.locks 1).pc = .trying ⟨false, false⟩) = true := by decide +kernel
  obtain ⟨s, hs, hp⟩ := (Option.any_eq_true _ _).1 hsome
  simp only [Bool.and_eq_true, decide_eq_true_eq] at hp
  exact ⟨s, ⟨_, _, rfl, LTS.runFn_run hs⟩, hp.1, hp.2⟩

/-- While another `FileLock` has the file exclusively, a blocking request returns `Again` and a non-blocking one
waits. -/
theorem blocking_again : ∃ s : Locks (Fin 2), (system (Fin 2)).Reachable s ∧ s.counter = -1 ∧
    (s.locks 1).pc = .trying ⟨false, false⟩ ∧ (⟨false, false⟩ : Request).outcome s.counter = .again ∧
    (⟨false, true⟩ : Request).outcome s.counter = .waits := by
  obtain ⟨s, hs, hcounter, hpc⟩ := contended
  exact ⟨s, hs, hcounter, hpc, by rw [hcounter]; rfl, by rw [hcounter]; rfl⟩

theorem flock_iff_contended : ∃ s : Locks (Fin 2), (system (Fin 2)).Reachable s ∧
    (s.locks 1).pc = .trying ⟨false, false⟩ ∧ s.holders .exclusive = 1 ∧ s.holders .shared = 0 ∧
    ¬ (⟨false, false⟩ : Request).Contract ((⟨false, false⟩ : Request).outcome s.counter) := by
  obtain ⟨s, hs, hcounter, hpc⟩ := contended
  obtain ⟨hheld, -, -, -, hreq⟩ := flock_iff hs
  obtain ⟨hone, hnone⟩ := hheld.1 hcounter
  refine ⟨s, hs, hpc, hone, hnone, fun h => ?_⟩
  have hadmitted := (hreq ⟨false, false⟩).1 h
  rw [hcounter] at hadmitted
  cases hadmitted

end Mushroom.L5.FileLock
