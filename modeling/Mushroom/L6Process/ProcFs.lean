import Mushroom.L2Memory.Mapping
import Mushroom.L5Files.StreamBuffer
import Mushroom.L6Process.ThreadSafe

/-!
# `/proc/<pid>/fd` and `/proc/<pid>/maps`

`kernel/fs/node/procfs.rs`. The files of a process are those of the first thread
in its list. `Process::all` yields the process from its creation until it is
waited for, but the list is empty until the leader is polled for the first time,
and again from `exit_group` on; a thread that was created and is polled only then
is put into the empty list (`filled`). The text of the maps has the end of every
mapping, and a read to a user's memory takes the address as it is given.
-/
namespace Mushroom.L6.Threads
open List

open L1 (ErrorKind FileName)
open L2 (Canonical CanonicalPage Mapping Mappings VirtAddr pageAdd)
open L5.StreamBuffer (UserMemory)

/-- process.rs:247-249 -/
def Process.threadGroupLeader (p : Process) : Except Fault Nat :=
  match p.threads with
  | [] => .error .index
  | leader :: _ => .ok leader

/-- The two `upgrade`s, with what is returned if one fails; `none` is a process that is freed. -/
def withLeader {α : Type} (process : Option Process) (srch : α) (f : Nat → Except Fault α) : Except Fault α :=
  match process with
  | none => .ok srch
  | some p => p.threadGroupLeader.bind fun t => if p.alive t then f t else .ok srch

/-- What the nodes ask of a thread; `line` is the text for a mapping and its end. -/
structure ProcFs (N E : Type) where
  fdNum : FileName → Option Int
  getNode : Nat → Int → Except ErrorKind N
  entries : Nat → List E
  mappings : Nat → Mappings
  line : Nat × Mapping → Nat → Bytes

namespace ProcFs

variable {N E : Type} (fs : ProcFs N E) (process : Option Process)

/-- procfs.rs:668-684 -/
def fdGetNode (name : FileName) : Except Fault (Except ErrorKind N) :=
  match fs.fdNum name with
  | none => .ok (.error .noEnt)
  | some fd => withLeader process (.error .srch) fun t => .ok (fs.getNode t fd)

/-- procfs.rs:734-739 -/
def fdListEntries : Except Fault (Except ErrorKind (List E)) :=
  withLeader process (.error .srch) fun t => .ok (.ok (fs.entries t))

/-- The sum of the first page and the length panics unless it is canonical.
kernel/user/process/memory.rs:314-333 -/
def maps : Mappings → Except Fault Bytes
  | [] => .ok []
  | x :: ms =>
    match pageAdd x.1 x.2.len with
    | none => .error .unwrap
    | some stop => (maps ms).map (fs.line x stop ++ ·)

/-- procfs.rs:1114-1123 -/
def mapsRead (offset len : Nat) : Except Fault (Except ErrorKind Bytes) :=
  withLeader process (.error .srch) fun t => (fs.maps (fs.mappings t)).map fun maps => .ok ((maps.drop offset).take len)

/-- `Pointer::get` panics unless the address is canonical.
procfs.rs:1125-1141, kernel/user/process/syscall/args.rs:229-231 -/
def mapsReadToUser (m : UserMemory) (pointer offset len : Nat) : Except Fault (Except ErrorKind Nat × UserMemory) :=
  withLeader process (.error .srch, m) fun t => (fs.maps (fs.mappings t)).bind fun maps =>
    match VirtAddr.new pointer with
    | none => .error .unwrap
    | some addr =>
      let maps := (maps.drop offset).take len
      let (r, m) := m.writeBytes addr maps
      .ok (r.map fun _ => maps.length, m)

end ProcFs

inductive Access where
  | getNode (name : FileName)
  | listEntries
  | read (offset len : Nat)
  | readToUser (m : UserMemory) (pointer offset len : Nat)

/-- The access returns data or an error. -/
def ProcFs.Returns {N E : Type} (fs : ProcFs N E) (process : Option Process) : Access → Prop
  | .getNode name => (fs.fdGetNode process name).isOk = true
  | .listEntries => (fs.fdListEntries process).isOk = true
  | .read offset len => (fs.mapsRead process offset len).isOk = true
  | .readToUser m pointer offset len => (fs.mapsReadToUser process m pointer offset len).isOk = true

/-! ## The thread list over the life of a process -/

/-- Whether the list has a thread behind a step. -/
def listed (b : Bool) : Act → Bool
  | .poll _ => true
  | .kill _ => false
  | _ => b

/-- The list has been filled by the first poll of a thread and not been emptied by `exit_group` since. -/
def filled (ls : List Act) : Bool := ls.foldl listed false

section

variable {p q : Process} {a : Act}

/-- `execve` keeps the leader in the list. -/
lemma threads_of_shape (h : Shape p a q) (ha : ∀ b, listed b a = b) : q.threads = [] ↔ p.threads = [] := by
  cases h with
  | turn t th ht hturn hq hthreads hcreated => rw [hthreads]
  | create ht hpc => exact Iff.rfl
  | poll ht hpc => cases ha false
  | kill ht hpc hk => cases ha true
  | execve ht hpc he =>
    obtain ⟨l, rest, p1, hl, -, -, hq⟩ := execve_cases he
    simp [Process.goto, Process.set, (terminateAll_swept hq).1.threads, hl]
  | idle => exact Iff.rfl

lemma threads_of_next (h : p.next a = some (.ok q)) {b : Bool} (hb : p.threads = [] ↔ b = false) :
    q.threads = [] ↔ listed b a = false := by
  cases a with
  | poll t =>
    simp only [Process.next] at h
    split at h
    · cases h
      simp [listed]
    · cases h
  | kill t =>
    simp only [Process.next] at h
    split at h
    · split at h
      · rename_i status locked hpc
        cases hk : p.kill (if locked then some t else none) status with
        | error f => simp [hk, Except.map] at h
        | ok q' =>
          rw [hk] at h
          cases h
          simp [listed, Process.goto, Process.set, (terminateAll_swept hk).1.threads]
      · cases h
    · cases h
  | _ => exact (threads_of_shape (shape_of_step (step_of_next h)) fun _ => rfl).trans hb

/-- The list is empty exactly while it is not filled. -/
lemma threads_of_run {ls : List Act} {pid : Nat} (h : (process pid).Run p ls q) :
    ∀ {b : Bool}, (p.threads = [] ↔ b = false) → (q.threads = [] ↔ ls.foldl listed b = false) := by
  induction h with
  | nil s => exact fun hb => hb
  | cons hs _ ih => exact fun hb => ih (threads_of_next hs hb)

end

/-! ## The accesses -/

section

variable {α β N E : Type} (fs : ProcFs N E) {p : Process}

open ProcFs

@[simp] lemma isOk_ok (a : α) : (.ok a : Except Fault α).isOk = true := rfl

@[simp] lemma isOk_error (f : Fault) : (.error f : Except Fault α).isOk = false := rfl

@[simp] lemma isOk_map (x : Except Fault α) (f : α → β) : (x.map f).isOk = x.isOk := by cases x <;> rfl

lemma isOk_bind {x : Except Fault α} {f : α → Except Fault β} {P : Prop} (hf : ∀ a, (f a).isOk = true ↔ P) :
    (x.bind f).isOk = true ↔ x.isOk = true ∧ P := by
  cases x <;> simp [Except.bind, hf]

lemma withLeader_isOk {srch : α} {f : Nat → Except Fault α} : (withLeader (some p) srch f).isOk = true ↔
    p.threads ≠ [] ∧ ∀ t ∈ p.threads.head?, p.alive t = true → (f t).isOk = true := by
  simp only [withLeader, Process.threadGroupLeader]
  cases p.threads with
  | nil => simp [Except.bind]
  | cons t rest => cases ha : p.alive t <;> simp [Except.bind, ha]

/-- No mapping ends behind the last page of a half. -/
def Ends (ms : Mappings) : Prop := ∀ x ∈ ms, CanonicalPage (x.1 + x.2.len)

lemma maps_isOk {ms : Mappings} : (fs.maps ms).isOk = true ↔ Ends ms := by
  induction ms with
  | nil => simp [maps, Ends]
  | cons x ms ih =>
    rw [Ends, forall_mem_cons, ← Ends, ← ih, maps, pageAdd]
    by_cases hx : CanonicalPage (x.1 + x.2.len) <;> simp [hx]

/-- The name is refused before the process is looked at. -/
def ProcFs.Refuses : Access → Prop
  | .getNode name => fs.fdNum name = none
  | _ => False

/-- What is asked of thread `t` has an answer. -/
def ProcFs.Proper (t : Nat) : Access → Prop
  | .getNode _ | .listEntries => True
  | .read _ _ => Ends (fs.mappings t)
  | .readToUser _ pointer _ _ => Ends (fs.mappings t) ∧ Canonical pointer

/-- Over the whole life of a process, an access returns data or an error exactly if the list is filled and, if its
first thread is there, what is asked of that thread is proper. -/
theorem procfs_returns_iff {pid : Nat} {ls : List Act} (h : (process pid).Run (.new pid) ls p) (a : Access) :
    fs.Returns (some p) a ↔
      fs.Refuses a ∨ filled ls = true ∧ ∀ t ∈ p.threads.head?, p.alive t = true → fs.Proper t a := by
  have hfilled : p.threads ≠ [] ↔ filled ls = true := by
    rw [Ne, threads_of_run h (b := false) (by simp [Process.new]), Bool.not_eq_false]
    rfl
  rw [← hfilled]
  cases a with
  | getNode name => cases hn : fs.fdNum name <;> simp [Returns, Refuses, Proper, fdGetNode, hn, withLeader_isOk]
  | listEntries => simp [Returns, Refuses, Proper, fdListEntries, withLeader_isOk]
  | read offset len => simp [Returns, Refuses, Proper, mapsRead, withLeader_isOk, maps_isOk]
  | readToUser m pointer offset len =>
    simp only [Returns, Refuses, Proper, mapsReadToUser, withLeader_isOk, ← maps_isOk fs, false_or]
    refine and_congr_right fun _ => forall₂_congr fun t _ => imp_congr_right fun _ => isOk_bind fun maps => ?_
    by_cases hc : Canonical pointer <;> simp [VirtAddr.new, hc]

end

/-- A running process, whose leader is in the list. -/
theorem procfs_returns_iff_running : ∃ p, (process 2).Run (.new 2) [.poll 0, .watch 0] p ∧
    ∀ {N E : Type} (fs : ProcFs N E), fs.Returns (some p) .listEntries := by
  have hrun : (process 2).Run (.new 2) [.poll 0, .watch 0] _ := .cons rfl (.cons rfl (.nil _))
  exact ⟨_, hrun, fun fs => (procfs_returns_iff fs hrun .listEntries).2 (.inr ⟨rfl, fun _ _ _ => trivial⟩)⟩

/-- A process before the first poll of its leader, and a zombie: the list is empty and `/proc/<pid>/fd` cannot be
listed. A running process: its maps are read to an address that is not canonical, or have the last page of the lower
half. -/
theorem procfs_panics : (∃ zombie, (process 2).Reachable zombie ∧ zombie.exitStatus = some 0 ∧
      ∀ p ∈ [Process.new 2, zombie], ∀ {N E : Type} (fs : ProcFs N E), fs.fdListEntries (some p) = .error .index) ∧
    ∃ p, (process 2).Reachable p ∧ ∀ {N E : Type} (fs : ProcFs N E),
      (∀ m, fs.mappings 0 = [] → fs.mapsReadToUser (some p) m 0x8000000000000000 0 1 = .error .unwrap) ∧
      ∀ x : Mapping, x.len = 1 → fs.mappings 0 = [(2 ^ 35 - 1, x)] → fs.mapsRead (some p) 0 1 = .error .unwrap := by
  have hrun : (process 2).Run (.new 2) [.poll 0, .watch 0, .exitGroup 0 0, .enter 0, .kill 0] _ :=
    .cons rfl (.cons rfl (.cons rfl (.cons rfl (.cons rfl (.nil _)))))
  have hrunning : (process 2).Run (.new 2) [.poll 0, .watch 0] _ := .cons rfl (.cons rfl (.nil _))
  refine ⟨⟨_, ⟨_, _, rfl, hrun⟩, rfl, fun p hp => ?_⟩, _, ⟨_, _, rfl, hrunning⟩, fun fs => ⟨fun m hm => ?_,
    fun x hx hm => ?_⟩⟩
  · simp only [List.mem_cons, List.not_mem_nil, or_false] at hp
    rcases hp with rfl | rfl <;> exact fun _ => rfl
  · have hnew : VirtAddr.new 0x8000000000000000 = none := dif_neg (by decide)
    change Except.bind (fs.maps (fs.mappings 0)) _ = _
    simp only [hm, ProcFs.maps, Except.bind, hnew]
  · have hadd : pageAdd (2 ^ 35 - 1) 1 = none := by decide
    change Except.map _ (fs.maps (fs.mappings 0)) = _
    simp only [hm, ProcFs.maps, hx, hadd, Except.map]

end Mushroom.L6.Threads
