import Mushroom.Core.Bfs
import Mushroom.Core.Gather
import Mushroom.Core.LTS
import Mushroom.L1Encoding.Path

/-!
# The process tree

`kernel/user/process.rs`. A process is kept alive by its parent's list;
`Process::all` walks the tree from init, breadth first, and every search by pid
uses it.

A process that ends stays in the list until its parent waits for it. Nothing
moves its own children elsewhere then: they are in no list that the walk meets
(`orphan_not_found`). `processes_found` holds as long as that does not happen.

Processes are numbered in the order of their creation. `reaped` marks those taken
out of a list; `ticket` is the call of `new_tid` that gave a process its pid.
Threads take a tid as well (`Act.tid`). A thread may be in `clone` while its
process ends, so any process may create another at any time.
-/
namespace Mushroom.L6.Tree
open List Option

open L1 (ErrorKind)

/-- The counter starts at 1 and wraps around.
kernel/user/process/thread.rs:60-63 -/
def newTid (n : Nat) : Nat := (1 + n) % 2 ^ 32

/-- process.rs:62-86 -/
structure Process where
  ticket : Nat
  parent : Option Nat
  children : List Nat
  exitStatus : Option Nat
  reaped : Bool

def Process.pid (p : Process) : Nat := newTid p.ticket

structure State where
  count : Nat
  procs : Nat → Process
  /-- calls of `new_tid` -/
  issued : Nat

inductive Act where
  | tid
  | fork (p : Nat)
  | exitGroup (p status : Nat)
  | wait (p : Nat) (pid : Option Nat) (noHang : Bool)
  deriving DecidableEq

namespace State

/-- Init has no parent.
process.rs:525-528, thread.rs:162-176 -/
def new : State := ⟨1, fun _ => ⟨0, none, [], none, false⟩, 1⟩

def set (s : State) (i : Nat) (p : Process) : State := { s with procs := Function.update s.procs i p }

/-- Put into the list of the process that creates it.
process.rs:91-134, syscall.rs:1415-1433 -/
def fork (s : State) (p : Nat) : State :=
  { (s.set s.count ⟨s.issued, some p, [], none, false⟩).set p
      { s.procs p with children := (s.procs p).children ++ [s.count] } with
    count := s.count + 1
    issued := s.issued + 1 }

/-- The status is set once.
process.rs:201-224 -/
def exitGroup (s : State) (p status : Nat) : State :=
  s.set p { s.procs p with exitStatus := (s.procs p).exitStatus <|> some status }

def isDead (s : State) (pid : Option Nat) (child : Nat) : Bool :=
  (match pid with
    | some pid => (s.procs child).pid = pid
    | none => true) && (s.procs child).exitStatus.isSome

/-- One evaluation of the closure; `none` keeps waiting.
process.rs:257-296 -/
def waitForChildDeath (s : State) (p : Nat) (pid : Option Nat) (noHang : Bool) :
    State × Option (Except ErrorKind (Option (Nat × Nat))) :=
  if (s.procs p).children = [] then (s, some (.error .child))
  else
    match (s.procs p).children.findIdx? (s.isDead pid) with
    | none => (s, if noHang then some (.ok none) else none)
    | some idx =>
      let child := (s.procs p).children.getD idx 0
      let s' := s.set p { s.procs p with children := Gather.swapRemove (s.procs p).children idx }
      (s'.set child { s'.procs child with reaped := true },
        some (.ok (((s.procs child).exitStatus).map ((s.procs child).pid, ·))))

def next (s : State) : Act → Option State
  | .tid => some { s with issued := s.issued + 1 }
  | .fork p => if p < s.count then some (s.fork p) else none
  | .exitGroup p status => if p < s.count then some (s.exitGroup p status) else none
  | .wait p pid noHang => if p < s.count then some (s.waitForChildDeath p pid noHang).1 else none

/-- process.rs:356-368 -/
def all (s : State) (fuel : Nat) : Option (List Nat) := Bfs.bfs (fun i => (s.procs i).children) fuel [0]

/-- process.rs:348-350 -/
def findByPid (s : State) (fuel pid : Nat) : Option Nat :=
  (s.all fuel).bind fun l => l.find? fun i => (s.procs i).pid = pid

/-- The process exists and has not been reaped: it is running or a zombie. -/
def Present (s : State) (i : Nat) : Prop := i < s.count ∧ (s.procs i).reaped = false

end State

def system : LTS State Act := LTS.ofFn (· = .new) State.next

/-- A reaped process creates none, and only a process without children is reaped. -/
def Orderly (s : State) : Act → Prop
  | .fork p => (s.procs p).reaped = false
  | .wait p pid _ =>
    match (s.procs p).children.findIdx? (s.isDead pid) with
    | none => True
    | some idx => (s.procs ((s.procs p).children.getD idx 0)).children = []
  | .tid | .exitGroup _ _ => True

/-! ## The tree as long as no process loses its parent -/

structure Inv (s : State) : Prop where
  rooted : s.Present 0
  top : (s.procs 0).parent = none
  child : ∀ i c, s.Present i → c ∈ (s.procs i).children → s.Present c ∧ (s.procs c).parent = some i
  nodup : ∀ i, s.Present i → (s.procs i).children.Nodup
  listed : ∀ c, s.Present c → c ≠ 0 → ∃ p, s.Present p ∧ p < c ∧ c ∈ (s.procs p).children
  gone : ∀ i, i < s.count → (s.procs i).reaped = true → (s.procs i).children = []
  ticket : ∀ i j, i < j → j < s.count → (s.procs i).ticket < (s.procs j).ticket
  issued : ∀ i, i < s.count → (s.procs i).ticket < s.issued

lemma set_procs (s : State) (i : Nat) (p : Process) (j : Nat) :
    (s.set i p).procs j = if j = i then p else s.procs j := Function.update_apply ..

lemma Inv.new : Inv .new where
  rooted := ⟨Nat.one_pos, rfl⟩
  top := rfl
  child _ _ _ hc := nomatch hc
  nodup _ _ := nodup_nil
  listed c hc hne := absurd (Nat.lt_one_iff.1 hc.1) hne
  gone _ _ _ := rfl
  ticket i j hij hj := by
    have hj' : j < 1 := hj
    omega
  issued _ _ := Nat.one_pos

variable {s : State}

lemma Inv.congr {s' : State} (hi : Inv s) (hcount : s'.count = s.count) (hissued : s.issued ≤ s'.issued)
    (hprocs : ∀ i, (s'.procs i).ticket = (s.procs i).ticket ∧ (s'.procs i).parent = (s.procs i).parent ∧
      (s'.procs i).children = (s.procs i).children ∧ (s'.procs i).reaped = (s.procs i).reaped) : Inv s' := by
  have hpresent : ∀ i, s'.Present i ↔ s.Present i := fun i => by
    unfold State.Present
    rw [hcount, (hprocs i).2.2.2]
  refine ⟨(hpresent 0).2 hi.rooted, (hprocs 0).2.1.trans hi.top, fun i c hp hc => ?_, fun i hp => ?_,
    fun c hp hne => ?_, fun i hlt hr => ?_, fun i j hij hj => ?_, fun i hlt => ?_⟩
  · rw [(hprocs i).2.2.1] at hc
    obtain ⟨hc', hpar⟩ := hi.child i c ((hpresent i).1 hp) hc
    exact ⟨(hpresent c).2 hc', (hprocs c).2.1.trans hpar⟩
  · rw [(hprocs i).2.2.1]
    exact hi.nodup i ((hpresent i).1 hp)
  · obtain ⟨p, hp', hlt, hmem⟩ := hi.listed c ((hpresent c).1 hp) hne
    exact ⟨p, (hpresent p).2 hp', hlt, by rw [(hprocs p).2.2.1]; exact hmem⟩
  · rw [(hprocs i).2.2.1]
    exact hi.gone i (hcount ▸ hlt) ((hprocs i).2.2.2.symm.trans hr)
  · rw [(hprocs i).1, (hprocs j).1]
    exact hi.ticket i j hij (hcount ▸ hj)
  · rw [(hprocs i).1]
    exact Nat.lt_of_lt_of_le (hi.issued i (hcount ▸ hlt)) hissued

lemma Inv.exitGroup (hi : Inv s) (p status : Nat) : Inv (s.exitGroup p status) := by
  refine hi.congr rfl (Nat.le_refl _) fun i => ?_
  unfold State.exitGroup
  rw [set_procs]
  split
  · rename_i he
    rw [he]
    exact ⟨rfl, rfl, rfl, rfl⟩
  · exact ⟨rfl, rfl, rfl, rfl⟩

lemma Inv.fork (hi : Inv s) {p : Nat} (hp : s.Present p) : Inv (s.fork p) := by
  have hne : p ≠ s.count := Nat.ne_of_lt hp.1
  have hparent : (s.fork p).procs p = { s.procs p with children := (s.procs p).children ++ [s.count] } :=
    Function.update_self ..
  have hchild : (s.fork p).procs s.count = ⟨s.issued, some p, [], none, false⟩ := by
    show ((s.set s.count _).set p _).procs s.count = _
    rw [set_procs, if_neg (Ne.symm hne), set_procs, if_pos rfl]
  have hother : ∀ i, i ≠ p → i ≠ s.count → (s.fork p).procs i = s.procs i := fun i h1 h2 => by
    show ((s.set s.count _).set p _).procs i = _
    rw [set_procs, if_neg h1, set_procs, if_neg h2]
  -- what an old process keeps
  have hold : ∀ i, i < s.count → ((s.fork p).procs i).ticket = (s.procs i).ticket ∧
      ((s.fork p).procs i).parent = (s.procs i).parent ∧ ((s.fork p).procs i).reaped = (s.procs i).reaped ∧
      ∀ c, c ∈ ((s.fork p).procs i).children ↔ c ∈ (s.procs i).children ∨ (i = p ∧ c = s.count) := by
    intro i hlt
    by_cases i = p <;> grind
  have hcases : ∀ i, (s.fork p).Present i → s.Present i ∨ i = s.count := fun i ⟨hlt, hr⟩ => by
    have hlt' : i < s.count + 1 := hlt
    rcases Nat.lt_succ_iff_lt_or_eq.1 hlt' with hlt | he
    · exact .inl ⟨hlt, (hold i hlt).2.2.1.symm.trans hr⟩
    · exact .inr he
  have hstill : ∀ i, s.Present i → (s.fork p).Present i := fun i h =>
    ⟨Nat.lt_succ_of_lt h.1, (hold i h.1).2.2.1.trans h.2⟩
  have hnew : (s.fork p).Present s.count := ⟨Nat.lt_succ_self _, by rw [hchild]⟩
  refine ⟨hstill 0 hi.rooted, (hold 0 hi.rooted.1).2.1.trans hi.top, fun i c hpi hc => ?_, fun i hpi => ?_,
    fun c hpc hc0 => ?_, fun i hlt hr => ?_, fun i j hij hj => ?_, fun i hlt => ?_⟩
  · rcases hcases i hpi with hpi | he
    · rcases ((hold i hpi.1).2.2.2 c).1 hc with hc | ⟨hip, hcn⟩
      · obtain ⟨hpc, hpar⟩ := hi.child i c hpi hc
        exact ⟨hstill c hpc, (hold c hpc.1).2.1.trans hpar⟩
      · rw [hcn, hip]
        exact ⟨hnew, by rw [hchild]⟩
    · rw [he, hchild] at hc
      cases hc
  · rcases hcases i hpi with hpi' | he
    · by_cases hip : i = p
      · subst hip
        rw [hparent]
        refine (hi.nodup i hpi').append (nodup_singleton _) (disjoint_singleton.2 fun hmem => ?_)
        exact Nat.lt_irrefl _ (hi.child i _ hpi' hmem).1.1
      · rw [hother i hip (Nat.ne_of_lt hpi'.1)]
        exact hi.nodup i hpi'
    · rw [he, hchild]
      exact nodup_nil
  · rcases hcases c hpc with hpc | he
    · obtain ⟨q, hq, hlt, hmem⟩ := hi.listed c hpc hc0
      exact ⟨q, hstill q hq, hlt, ((hold q hq.1).2.2.2 c).2 (.inl hmem)⟩
    · rw [he]
      exact ⟨p, hstill p hp, hp.1, ((hold p hp.1).2.2.2 _).2 (.inr ⟨rfl, rfl⟩)⟩
  · have hcount : (s.fork p).count = s.count + 1 := rfl
    have hgone := hi.gone i
    have hlive := hp.2
    by_cases i = p <;> grind
  · have hcount : (s.fork p).count = s.count + 1 := rfl
    have hticket := hi.ticket i j hij
    have hissued := hi.issued i
    grind
  · have hcount : (s.fork p).count = s.count + 1 := rfl
    have hcounter : (s.fork p).issued = s.issued + 1 := rfl
    have hissued := hi.issued i
    grind

lemma Inv.reap {s' : State} (hi : Inv s) {p c : Nat} {rest : List Nat} (hp : s.Present p)
    (hperm : (c :: rest).Perm (s.procs p).children) (hleaf : (s.procs c).children = [])
    (hcount : s'.count = s.count) (hissued : s'.issued = s.issued)
    (hparent : s'.procs p = { s.procs p with children := rest })
    (hchild : s'.procs c = { s.procs c with reaped := true })
    (hother : ∀ i, i ≠ p → i ≠ c → s'.procs i = s.procs i) : Inv s' := by
  have hmem : ∀ x, x ∈ (s.procs p).children ↔ x = c ∨ x ∈ rest := fun x => by rw [← hperm.mem_iff, mem_cons]
  obtain ⟨hpc, hpar⟩ := hi.child p c hp ((hmem c).2 (.inl rfl))
  obtain ⟨hcrest, hrest⟩ := nodup_cons.1 (hperm.nodup_iff.2 (hi.nodup p hp))
  have hc0 : c ≠ 0 := fun he => by
    rw [he, hi.top] at hpar
    cases hpar
  have hsame : ∀ i, (s'.procs i).ticket = (s.procs i).ticket ∧ (s'.procs i).parent = (s.procs i).parent := by
    intro i
    by_cases i = p <;> by_cases i = c <;> grind
  have hchildren : ∀ i x, x ∈ (s'.procs i).children ↔ x ∈ (s.procs i).children ∧ ¬(i = p ∧ x = c) := by
    intro i x
    by_cases i = p <;> by_cases i = c <;> grind
  have hpresent : ∀ i, s'.Present i ↔ s.Present i ∧ i ≠ c := by
    intro i
    simp only [State.Present, hcount]
    by_cases i = p <;> by_cases i = c <;> grind
  refine ⟨(hpresent 0).2 ⟨hi.rooted, Ne.symm hc0⟩, (hsame 0).2.trans hi.top, fun i x hpi hx => ?_, fun i hpi => ?_,
    fun x hpx hx0 => ?_, fun i hlt hr => ?_, fun i j hij hj => ?_, fun i hlt => ?_⟩
  · obtain ⟨hx, hne⟩ := (hchildren i x).1 hx
    obtain ⟨hpx, hparx⟩ := hi.child i x ((hpresent i).1 hpi).1 hx
    refine ⟨(hpresent x).2 ⟨hpx, fun he => ?_⟩, (hsame x).2.trans hparx⟩
    -- `c` is in no other list
    subst he
    exact hne ⟨Option.some.inj (hparx.symm.trans hpar), rfl⟩
  · obtain ⟨hpi, hic⟩ := (hpresent i).1 hpi
    by_cases hip : i = p
    · rw [hip, hparent]
      exact hrest
    · rw [hother i hip hic]
      exact hi.nodup i hpi
  · obtain ⟨hpx, hxc⟩ := (hpresent x).1 hpx
    obtain ⟨q, hq, hlt, hqx⟩ := hi.listed x hpx hx0
    have hqc : q ≠ c := fun he => by
      rw [he, hleaf] at hqx
      cases hqx
    exact ⟨q, (hpresent q).2 ⟨hq, hqc⟩, hlt, (hchildren q x).2 ⟨hqx, fun h => hxc h.2⟩⟩
  · have hold := hi.gone i (hcount ▸ hlt)
    by_cases i = p <;> by_cases i = c <;> grind
  · rw [(hsame i).1, (hsame j).1]
    exact hi.ticket i j hij (hcount ▸ hj)
  · rw [(hsame i).1, hissued]
    exact hi.issued i (hcount ▸ hlt)

lemma Inv.wait {s : State} (hi : Inv s) {p : Nat} {pid : Option Nat} {noHang : Bool} (hlt : p < s.count)
    (ho : Orderly s (.wait p pid noHang)) : Inv (s.waitForChildDeath p pid noHang).1 := by
  unfold State.waitForChildDeath
  split
  · exact hi
  rename_i hne
  cases hidx : (s.procs p).children.findIdx? (s.isDead pid) with
  | none => exact hi
  | some idx =>
    obtain ⟨hlen, -⟩ := List.findIdx?_eq_some_iff_getElem.1 hidx
    have hget : (s.procs p).children[idx]? = some ((s.procs p).children.getD idx 0) := by
      rw [getD_eq_getElem?_getD, List.getElem?_eq_getElem hlen, getD_some]
    have hleaf : (s.procs ((s.procs p).children.getD idx 0)).children = [] := by
      simp only [Orderly, hidx] at ho
      exact ho
    have hperm := Gather.swapRemove_perm hget
    have hp : s.Present p := by
      refine ⟨hlt, ?_⟩
      cases hr : (s.procs p).reaped with
      | false => rfl
      | true => exact absurd (hi.gone p hlt hr) hne
    have hpc : (s.procs p).children.getD idx 0 ≠ p := fun he => by
      rw [he] at hleaf
      exact hne hleaf
    refine hi.reap hp hperm hleaf rfl rfl ?_ ?_ fun i hip hic => ?_
    · rw [set_procs, if_neg (Ne.symm hpc), set_procs, if_pos rfl]
    · rw [set_procs, if_pos rfl, set_procs, if_neg hpc]
    · rw [set_procs, if_neg hic, set_procs, if_neg hip]

lemma Inv.step {s s' : State} {a : Act} (hi : Inv s) (ho : Orderly s a) (h : s.next a = some s') : Inv s' := by
  cases a with
  | tid =>
    cases h
    exact hi.congr rfl (Nat.le_succ _) fun _ => ⟨rfl, rfl, rfl, rfl⟩
  | fork p =>
    obtain ⟨hlt, h⟩ := ite_none_right_eq_some.1 h
    cases h
    exact hi.fork ⟨hlt, ho⟩
  | exitGroup p status =>
    obtain ⟨hlt, h⟩ := ite_none_right_eq_some.1 h
    cases h
    exact hi.exitGroup p status
  | wait p pid noHang =>
    obtain ⟨hlt, h⟩ := ite_none_right_eq_some.1 h
    cases h
    exact hi.wait hlt ho

/-! ## The walk -/

lemma Inv.isForest (hi : Inv s) : Bfs.IsForest (fun i => (s.procs i).children) 0
    ((List.range s.count).filter fun i => (s.procs i).reaped = false) := by
  have hmem : ∀ i, i ∈ ((List.range s.count).filter fun i => (s.procs i).reaped = false) ↔ s.Present i := fun i => by
    rw [mem_filter, mem_range, decide_eq_true_eq]
    rfl
  refine ⟨(hmem 0).2 hi.rooted, fun i h c hc => ?_, fun i h => hi.nodup i ((hmem i).1 h), fun i h j h' c hc hc' => ?_,
    fun i h hc => ?_⟩
  · exact (hmem c).2 (hi.child i c ((hmem i).1 h) hc).1
  · exact Option.some.inj ((hi.child i c ((hmem i).1 h) hc).2.symm.trans (hi.child j c ((hmem j).1 h') hc').2)
  · exact nomatch hi.top.symm.trans (hi.child i 0 ((hmem i).1 h) hc).2

/-- The walk meets the present processes, each once. -/
lemma Inv.all (hi : Inv s) :
    ∃ l, (∀ fuel, s.count ≤ fuel → s.all fuel = some l) ∧ l.Nodup ∧ ∀ i, i ∈ l ↔ s.Present i := by
  obtain ⟨l, hl, hnodup, hsub, hroot, hclosed⟩ := Bfs.bfs_forest hi.isForest
  have hlen : ((List.range s.count).filter fun i => (s.procs i).reaped = false).length ≤ s.count :=
    (length_filter_le _ _).trans (Nat.le_of_eq length_range)
  refine ⟨l, fun fuel hfuel => hl fuel (Nat.le_trans hlen hfuel), hnodup, fun i => ⟨fun h => ?_, fun h => ?_⟩⟩
  · have hi' := hsub h
    rw [mem_filter, mem_range, decide_eq_true_eq] at hi'
    exact hi'
  -- a process is younger than the one that has it in its list
  induction i using Nat.strong_induction_on with
  | _ i ih =>
    by_cases hi0 : i = 0
    · rw [hi0]
      exact hroot
    · obtain ⟨p, hp, hlt, hmem⟩ := hi.listed i h hi0
      exact hclosed p (ih p hlt hp) i hmem

lemma newTid_injective {m n : Nat} (hm : m < 2 ^ 32) (hn : n < 2 ^ 32) (h : newTid m = newTid n) : m = n := by
  unfold newTid at h
  omega

lemma Inv.pid_injective (hi : Inv s) (hissued : s.issued ≤ 2 ^ 32) {i j : Nat} (h : s.Present i)
    (h' : s.Present j) (hpid : (s.procs i).pid = (s.procs j).pid) : i = j := by
  have hticket := newTid_injective (Nat.lt_of_lt_of_le (hi.issued i h.1) hissued)
    (Nat.lt_of_lt_of_le (hi.issued j h'.1) hissued) hpid
  rcases Nat.lt_trichotomy i j with hlt | he | hlt
  · exact absurd hticket (Nat.ne_of_lt (hi.ticket i j hlt h'.1))
  · exact he
  · exact absurd hticket.symm (Nat.ne_of_lt (hi.ticket j i hlt h.1))

/-- Along every run in which no reaped process creates another and only processes without children are reaped,
`Process::all` comes to its end and yields every process that is running or a zombie exactly once, and nothing
else. A search for a pid finds a process with it, the process itself until the pids wrap around. -/
theorem processes_found {s : State} (hs : (system.only Orderly).Reachable s) :
    ∃ l, (∀ fuel, s.count ≤ fuel → s.all fuel = some l) ∧ (∀ i ∈ l, s.Present i) ∧
      ∀ i, s.Present i → l.count i = 1 ∧ ∀ fuel, s.count ≤ fuel →
        (∃ j, s.findByPid fuel (s.procs i).pid = some j ∧ (s.procs j).pid = (s.procs i).pid) ∧
        (s.issued ≤ 2 ^ 32 → s.findByPid fuel (s.procs i).pid = some i) := by
  have hind : (system.only Orderly).Inductive Inv :=
    ⟨fun s hs => (show s = .new from hs) ▸ .new, fun s a s' hi hstep => hi.step hstep.1 hstep.2⟩
  have hi := hind.reachable s hs
  obtain ⟨l, hl, hnodup, hmem⟩ := hi.all
  refine ⟨l, hl, fun i h => (hmem i).1 h, fun i hp => ⟨count_eq_one_of_mem hnodup ((hmem i).2 hp), ?_⟩⟩
  intro fuel hfuel
  have hfind : s.findByPid fuel (s.procs i).pid = l.find? fun j => (s.procs j).pid = (s.procs i).pid := by
    unfold State.findByPid
    rw [hl fuel hfuel]
    rfl
  obtain ⟨j, hj⟩ : ∃ j, l.find? (fun j => (s.procs j).pid = (s.procs i).pid) = some j :=
    isSome_iff_exists.1 (List.find?_isSome.2 ⟨i, (hmem i).2 hp, decide_eq_true rfl⟩)
  have hdec := List.find?_some hj
  have hpid : (s.procs j).pid = (s.procs i).pid := of_decide_eq_true hdec
  refine ⟨⟨j, hfind.trans hj, hpid⟩, fun hissued => ?_⟩
  have he : j = i := hi.pid_injective hissued ((hmem j).1 (mem_of_find?_eq_some hj)) hp hpid
  rw [hfind, hj, he]

/-- Init has a child that has a child; the child ends and is reaped by init. -/
def orphaned : List Act := [.fork 0, .fork 1, .exitGroup 1 0, .wait 0 none false]

/-- The grandchild is running, but the walk yields init only, and the search finds nothing. -/
theorem orphan_not_found : ∃ s, system.Reachable s ∧ s.Present 2 ∧ (s.procs 2).exitStatus = none ∧
    s.all 3 = some [0] ∧ s.findByPid 3 (s.procs 2).pid = none := by
  have hsome : ((LTS.runFn State.next .new orphaned).any fun s =>
      2 < s.count && !(s.procs 2).reaped && (s.procs 2).exitStatus = none && s.all 3 = some [0] &&
        s.findByPid 3 (s.procs 2).pid = none) = true := by
    decide +kernel
  obtain ⟨s, hr, hp⟩ := (any_eq_true _ _).1 hsome
  simp only [Bool.and_eq_true, decide_eq_true_eq, Bool.not_eq_true'] at hp
  obtain ⟨⟨⟨⟨hlt, hreaped⟩, hexit⟩, hall⟩, hfind⟩ := hp
  exact ⟨s, ⟨_, _, rfl, LTS.runFn_run hr⟩, ⟨hlt, hreaped⟩, hexit, hall, hfind⟩

/-- A child is reaped by its parent, which ends and is found as a zombie. -/
theorem processes_found_zombie : ∃ s, (system.only Orderly).Reachable s ∧ s.Present 1 ∧
    (s.procs 1).exitStatus = some 0 ∧ s.findByPid 3 (s.procs 1).pid = some 1 := by
  have hrun : (system.only Orderly).Run .new
      [.fork 0, .fork 1, .exitGroup 2 0, .wait 1 none false, .exitGroup 1 0] _ :=
    .cons ⟨rfl, rfl⟩ (.cons ⟨rfl, rfl⟩ (.cons ⟨trivial, rfl⟩ (.cons ⟨rfl, rfl⟩ (.cons ⟨trivial, rfl⟩ (.nil _)))))
  obtain ⟨l, -, -, hfound⟩ := processes_found ⟨_, _, rfl, hrun⟩
  refine ⟨_, ⟨_, _, rfl, hrun⟩, ⟨Nat.lt_succ_of_lt Nat.one_lt_two, rfl⟩, rfl, ?_⟩
  exact ((hfound 1 ⟨Nat.lt_succ_of_lt Nat.one_lt_two, rfl⟩).2 3 (Nat.le_refl 3)).2 (by decide)

/-- Along the same runs every process but init has a parent that is older and still there, and is one of its
children once. -/
theorem parents_present {s : State} (hs : (system.only Orderly).Reachable s) (c : Nat) (hc : s.Present c) (h0 : c ≠ 0) :
    ∃ p < c, s.Present p ∧ (s.procs c).parent = some p ∧ (s.procs p).children.count c = 1 ∧
      ∀ q, s.Present q → c ∈ (s.procs q).children → q = p := by
  have hind : (system.only Orderly).Inductive Inv :=
    ⟨fun s hs => (show s = .new from hs) ▸ .new, fun s a s' hi hstep => hi.step hstep.1 hstep.2⟩
  have hi := hind.reachable s hs
  obtain ⟨p, hp, hlt, hmem⟩ := hi.listed c hc h0
  have hparent := (hi.child p c hp hmem).2
  refine ⟨p, hlt, hp, hparent, count_eq_one_of_mem (hi.nodup p hp) hmem, fun q hq hqc => ?_⟩
  exact some.inj ((hi.child q c hq hqc).2.symm.trans hparent)

theorem parents_present_fork : ∃ s, (system.only Orderly).Reachable s ∧ (s.procs 1).parent = some 0 := by
  have hrun : (system.only Orderly).Run .new [.fork 0] _ := .cons ⟨rfl, rfl⟩ (.nil _)
  obtain ⟨p, hlt, -, hp, -⟩ := parents_present ⟨_, _, rfl, hrun⟩ 1 ⟨Nat.one_lt_two, rfl⟩ Nat.one_ne_zero
  exact ⟨_, ⟨_, _, rfl, hrun⟩, Nat.lt_one_iff.1 hlt ▸ hp⟩

end Mushroom.L6.Tree
