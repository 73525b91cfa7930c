import Mushroom.L1Encoding.Path

/-!
# `clone`

`kernel/user/process/syscall.rs:1411-1507`. `Process::new` enters the process into
the children of its parent and into its group before the steps that can fail, and
nothing takes it back.
-/
namespace Mushroom.L6.CloneCall

open Function
open L1 (ErrorKind)

structure Process where
  group : Nat
  (children threads : List Nat)

/-- Processes are numbered in the order of their creation; `spawned` are the threads with a task. -/
structure State where
  count : Nat
  procs : Nat → Process
  members : Nat → List Nat
  spawned : List Nat

/-- `Process::new` for a child of `p`.
process.rs:91-134 -/
def State.register (s : State) (p : Nat) : State :=
  { s with
    count := s.count + 1
    procs := update (update s.procs p { s.procs p with children := (s.procs p).children ++ [s.count] }) s.count
      ⟨(s.procs p).group, [], []⟩
    members := update s.members (s.procs p).group (s.members (s.procs p).group ++ [s.count]) }

/-- The flags and the ABI, as far as they decide which steps can fail, and how these end. -/
structure Args where
  (thread vm settls i386 parentSettid childSettid : Bool)
  (signal memory userDesc parentTid childTid : Except ErrorKind Unit)

/-- What follows the creation of the process. -/
def Args.rest (c : Args) : Except ErrorKind Unit := do
  unless c.vm do c.memory
  if c.settls && c.i386 then c.userDesc
  if c.parentSettid then c.parentTid
  if c.childSettid then c.childTid

/-- The call by a thread of `p`. -/
def State.clone (s : State) (p tid : Nat) (c : Args) : Except ErrorKind Nat × State :=
  match c.signal with
  | .error e => (.error e, s)
  | .ok () =>
    let s := if c.thread then s else s.register p
    match c.rest with
    | .error e => (.error e, s)
    | .ok () => (.ok tid, { s with spawned := s.spawned ++ [tid] })

structure Unchanged (s s' : State) (p : Nat) : Prop where
  reached : ∀ x, Relation.ReflTransGen (fun i c => c ∈ (s'.procs i).children) 0 x ↔
    Relation.ReflTransGen (fun i c => c ∈ (s.procs i).children) 0 x
  members : s'.members = s.members
  threads : (s'.procs p).threads = (s.procs p).threads
  spawned : s'.spawned = s.spawned

/-- A call that fails after `Process::new` leaves the process behind. -/
theorem clone_atomic_iff (s : State) (p tid : Nat) (c : Args) :
    (∀ e, (s.clone p tid c).1 = .error e → Unchanged s (s.clone p tid c).2 p) ↔
      c.thread = true ∨ c.signal ≠ .ok () ∨ c.rest = .ok () := by
  have hsame : Unchanged s s p := ⟨fun _ => Iff.rfl, rfl, rfl, rfl⟩
  unfold State.clone
  cases hsig : c.signal with
  | error e => simp [hsame]
  | ok u =>
    cases hrest : c.rest with
    | ok u => simp
    | error e =>
      cases hthread : c.thread with
      | true => simp [hsame]
      | false =>
        have hnew : ¬Unchanged s (s.register p) p := by
          intro h
          have hm := congrFun h.members (s.procs p).group
          simp [State.register] at hm
        simpa using hnew

/-- A fork by init whose tid cannot be stored: the child is in the tree and in the group, without a task. -/
theorem clone_leaves_process : ∃ (c : Args) (s : State),
    State.clone ⟨1, fun _ => ⟨0, [], [1]⟩, fun _ => [0], [1]⟩ 0 2 c = (.error .fault, s) ∧
    1 ∈ (s.procs 0).children ∧ 1 ∈ s.members 0 ∧ s.spawned = [1] :=
  ⟨⟨false, false, false, false, true, false, .ok (), .ok (), .ok (), .error .fault, .ok ()⟩, _, rfl,
    by decide, by decide, rfl⟩

end Mushroom.L6.CloneCall
