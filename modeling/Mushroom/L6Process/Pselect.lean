import Mushroom.L1Encoding.Path
import Mushroom.L6Process.Timespec

/-!
# `pselect6` and the signal mask

`kernel/user/process/syscall.rs:3628-3683`. The mask of the thread is exchanged
before the timeout is read, and that read returns early when it fails.
-/
namespace Mushroom.L6.Pselect

open L1 Time

/-- What a call finds at its pointers, `none` for null: `PSelectSigsetArg` and the set it points to, and the timeout;
and how the wait ends, interrupted or not. -/
structure Call where
  sigmask : Option (Except ErrorKind (Except ErrorKind (BitVec 64)))
  timeout : Option (Except ErrorKind Timespec)
  select : Option Timespec → BitVec 64 → Except ErrorKind Nat

/-- The mask that is supplied. -/
def Call.supplied (c : Call) : Except ErrorKind (Option (BitVec 64)) :=
  match c.sigmask with
  | none => .ok none
  | some arg => do
    let ss ← arg
    return some (← ss)

structure Outcome where
  res : Except ErrorKind Nat
  sigmask : BitVec 64
  /-- the mask during the wait -/
  waited : Option (BitVec 64)

/-- The call of a thread with the mask `old`. -/
def pselect6 (c : Call) (old : BitVec 64) : Outcome :=
  match c.supplied with
  | .error e => ⟨.error e, old, none⟩
  | .ok sigmask =>
    let mask := sigmask.getD old
    match c.timeout with
    | some (.error e) => ⟨.error e, mask, none⟩
    | some (.ok t) => ⟨c.select (some t) mask, old, some mask⟩
    | none => ⟨c.select none mask, old, some mask⟩

/-- A wait is under the mask that is supplied, and the old mask is back exactly if the timeout can be read, or no other
mask is supplied. -/
theorem pselect6_restores_iff (c : Call) (old : BitVec 64) :
    (∀ mask, (pselect6 c old).waited = some mask → ∃ set, c.supplied = .ok set ∧ mask = set.getD old) ∧
    ((pselect6 c old).sigmask = old ↔ ∀ set e, c.supplied = .ok (some set) → c.timeout = some (.error e) →
      set = old) := by
  unfold pselect6
  cases c.supplied with
  | error e => simp
  | ok set => cases set <;> rcases c.timeout with _ | _ | _ <;> simp

/-- The timeout is at an address that is not mapped: the thread keeps the mask of the call. -/
theorem pselect6_keeps_mask :
    (pselect6 ⟨some (.ok (.ok 1)), some (.error .fault), fun _ _ => .ok 0⟩ 0).sigmask = 1 := rfl

end Mushroom.L6.Pselect
