import Mushroom.Core.Gather
import Mushroom.Core.LTS

/-!
# Notifications

`kernel/rt/notify.rs`. A `Notify` counts its notifications in `generation` and
keeps the wakers of the futures that wait for the next one. A wait future
remembers its generation and the waker it has registered; it is ready as soon as
the generation is another one.

Every operation takes the lock once and is a single step. Wakers are compared by
`will_wake` only, so several futures may register equal ones. `none` is a panic:
the `unwrap` in `remove_waker`, or the overflow of the generation.

The system has any number of wait futures, polled with any wakers and dropped
at any time, and of calls of `wait_until`, each with its own condition. `woken`
(who was woken by which generation) and `since` are for the statements only.
-/
namespace Mushroom.L4.Notify
open List Option Function

open Gather

variable {W : Type} [DecidableEq W]

/-- notify.rs:20-23 -/
structure State (W : Type) where
  generation : Nat
  wakers : List W

/-- notify.rs:42-46 -/
structure Wait (W : Type) where
  startGeneration : Nat
  registeredWaker : Option W

inductive Poll where
  | ready
  | pending
  deriving DecidableEq

namespace State

/-- notify.rs:25-32 -/
def new : State W := ⟨0, []⟩

/-- notify.rs:106-115 -/
def wait (s : State W) : Wait W := ⟨s.generation, none⟩

/-- notify.rs:49-63 -/
def removeWaker (s : State W) (self : Wait W) (waker : W) : Option (State W) :=
  if s.generation ≠ self.startGeneration then some s
  else
    match s.wakers.findIdx? (· = waker) with
    | none => none
    | some idx => some { s with wakers := swapRemove s.wakers idx }

def push (s : State W) (waker : W) : State W := { s with wakers := s.wakers ++ [waker] }

/-- notify.rs:69-92 -/
def poll (s : State W) (self : Wait W) (waker : W) : Option (State W × Wait W × Poll) :=
  if s.generation ≠ self.startGeneration then some (s, self, .ready)
  else
    match self.registeredWaker with
    | some old =>
      if old = waker then some (s, self, .pending)
      else
        match s.removeWaker { self with registeredWaker := some waker } old with
        | none => none
        | some s' => some (s'.push waker, { self with registeredWaker := some waker }, .pending)
    | none => some (s.push waker, { self with registeredWaker := some waker }, .pending)

/-- notify.rs:95-104 -/
def drop (s : State W) (self : Wait W) : Option (State W) :=
  match self.registeredWaker with
  | none => some s
  | some waker => s.removeWaker self waker

/-- The wakers of the old generation are woken.
notify.rs:129-135 -/
def notify (s : State W) : Option (State W) :=
  if s.generation + 1 < 2 ^ 64 then some ⟨s.generation + 1, []⟩ else none

end State

/-! ## The futures -/

variable {κ : Type} [DecidableEq κ]

structure Shared (W κ : Type) where
  state : State W
  waits : AList fun _ : κ => Wait W
  /-- who was woken at the end of which generation -/
  woken : List (Nat × W)

namespace Shared

def new : Shared W κ := ⟨State.new, ∅, []⟩

def wait (s : Shared W κ) (k : κ) : Option (Shared W κ) :=
  if k ∈ s.waits then none else some { s with waits := s.waits.insert k s.state.wait }

def poll (s : Shared W κ) (k : κ) (waker : W) : Option (Shared W κ × Poll) :=
  match s.waits.lookup k with
  | none => none
  | some self =>
    match s.state.poll self waker with
    | none => none
    | some (state, self', p) => some ({ s with state := state, waits := s.waits.insert k self' }, p)

def drop (s : Shared W κ) (k : κ) : Option (Shared W κ) :=
  match s.waits.lookup k with
  | none => none
  | some self =>
    match s.state.drop self with
    | none => none
    | some state => some { s with state := state, waits := s.waits.erase k }

def notify (s : Shared W κ) : Option (Shared W κ) :=
  match s.state.notify with
  | none => none
  | some state => some { s with state := state, woken := s.woken ++ s.state.wakers.map (s.state.generation, ·) }

end Shared

/-- The waker that a future has registered for the end of the generation `g`. -/
def Wait.current (g : Nat) (w : Wait W) : Option W := if w.startGeneration = g then w.registeredWaker else none

/-- The wakers registered by live futures made since the last notification. -/
def registered (s : Shared W κ) : List W := gather (Wait.current s.state.generation) s.waits

structure Inv (s : Shared W κ) : Prop where
  wakers : s.state.wakers.Perm (registered s)
  start : ∀ k w, s.waits.lookup k = some w → w.startGeneration ≤ s.state.generation
  woken : ∀ k w waker, s.waits.lookup k = some w → w.startGeneration ≠ s.state.generation →
    w.registeredWaker = some waker → (w.startGeneration, waker) ∈ s.woken

omit [DecidableEq W] in
lemma Inv.new : Inv (Shared.new : Shared W κ) := ⟨.nil, nofun, nofun⟩

section Operations

variable {s s' : Shared W κ}

lemma removeWaker_perm {st : State W} (self : Wait W) {waker : W} {rest : List W}
    (hg : self.startGeneration = st.generation) (h : st.wakers.Perm (waker :: rest)) :
    ∃ wakers, st.removeWaker self waker = some { st with wakers := wakers } ∧ wakers.Perm rest := by
  have hmem : waker ∈ st.wakers := h.symm.subset mem_cons_self
  cases hidx : st.wakers.findIdx? (· = waker) with
  | none =>
    have hnot := List.findIdx?_eq_none_iff.1 hidx waker hmem
    simp at hnot
  | some idx =>
    have hget : st.wakers[idx]? = some waker := by
      obtain ⟨hlt, hp, -⟩ := List.findIdx?_eq_some_iff_getElem.1 hidx
      rw [List.getElem?_eq_getElem hlt]
      exact congrArg some (of_decide_eq_true hp)
    refine ⟨swapRemove st.wakers idx, ?_, ?_⟩
    · unfold State.removeWaker
      rw [if_neg (not_not.2 hg.symm), hidx]
    · exact ((swapRemove_perm hget).trans h).cons_inv

omit [DecidableEq W] in
lemma current_self (w : Wait W) : w.current w.startGeneration = w.registeredWaker := if_pos rfl

section

variable (hi : Inv s)

include hi

omit [DecidableEq W] in
/-- The wakers of the others, when `k` has a future of this generation. -/
lemma Inv.split {k : κ} {w : Wait W} (hk : s.waits.lookup k = some w) (hg : w.startGeneration = s.state.generation) :
    s.state.wakers.Perm (w.registeredWaker.toList ++ gather (Wait.current s.state.generation) (s.waits.erase k)) := by
  have h := hi.wakers.trans (gather_perm (Wait.current s.state.generation) hk)
  rwa [← hg, current_self, hg] at h

/-- Nothing happens to a future of an older generation; another has the new waker registered. -/
lemma Inv.poll_cases {k : κ} {w : Wait W} (hk : s.waits.lookup k = some w) (waker : W) :
    (w.startGeneration ≠ s.state.generation ∧ s.state.poll w waker = some (s.state, w, .ready)) ∨
    (w.startGeneration = s.state.generation ∧ ∃ wakers,
      s.state.poll w waker = some ({ s.state with wakers := wakers }, ⟨w.startGeneration, some waker⟩, .pending) ∧
      wakers.Perm (waker :: gather (Wait.current s.state.generation) (s.waits.erase k))) := by
  by_cases hg : w.startGeneration = s.state.generation
  · refine .inr ⟨hg, ?_⟩
    have hsplit := hi.split hk hg
    unfold State.poll
    rw [if_neg (not_not.2 hg.symm)]
    obtain ⟨start, reg⟩ := w
    cases reg with
    | none => exact ⟨_, rfl, (perm_append_singleton waker _).trans (hsplit.cons waker)⟩
    | some old =>
      by_cases hold : old = waker
      · subst hold
        exact ⟨s.state.wakers, if_pos rfl, hsplit⟩
      obtain ⟨wakers, he, hperm⟩ := removeWaker_perm ⟨start, some waker⟩ hg hsplit
      simp only [if_neg hold, he]
      exact ⟨_, rfl, (perm_append_singleton waker _).trans (hperm.cons waker)⟩
  · exact .inl ⟨hg, if_pos fun h => hg h.symm⟩

/-- Dropping a future takes its waker out of the list, if the list has it. -/
lemma Inv.drop_cases {k : κ} {w : Wait W} (hk : s.waits.lookup k = some w) :
    ∃ wakers, s.state.drop w = some { s.state with wakers := wakers } ∧
      wakers.Perm (gather (Wait.current s.state.generation) (s.waits.erase k)) := by
  by_cases hg : w.startGeneration = s.state.generation
  · have hsplit := hi.split hk hg
    unfold State.drop
    cases hreg : w.registeredWaker with
    | none =>
      rw [hreg] at hsplit
      exact ⟨s.state.wakers, rfl, hsplit⟩
    | some waker =>
      rw [hreg] at hsplit
      exact removeWaker_perm w hg hsplit
  · have hperm := hi.wakers.trans (gather_perm (Wait.current s.state.generation) hk)
    have hcur : w.current s.state.generation = none := if_neg hg
    rw [hcur] at hperm
    refine ⟨s.state.wakers, ?_, hperm⟩
    unfold State.drop
    cases hreg : w.registeredWaker with
    | none => rfl
    | some waker => exact if_pos fun h => hg h.symm

omit [DecidableEq W] in
lemma Inv.wait {k : κ} (h : s.wait k = some s') :
    Inv s' ∧ s'.state = s.state ∧ s'.woken = s.woken ∧ s'.waits = s.waits.insert k s.state.wait := by
  unfold Shared.wait at h
  split at h
  · cases h
  rename_i hk
  cases h
  refine ⟨?_, rfl, rfl, rfl⟩
  have hlookup : ∀ k' w, (s.waits.insert k s.state.wait).lookup k' = some w →
      w = s.state.wait ∨ s.waits.lookup k' = some w := fun k' w hw => by
    by_cases hkk : k' = k
    · subst hkk
      rw [AList.lookup_insert] at hw
      exact .inl (Option.some.inj hw).symm
    · rw [AList.lookup_insert_ne hkk] at hw
      exact .inr hw
  refine ⟨?_, fun k' w hw => ?_, fun k' w waker hw hg hr => ?_⟩
  · show s.state.wakers.Perm (gather (Wait.current s.state.generation) (s.waits.insert k s.state.wait))
    have hnone : s.state.wait.current s.state.generation = none := current_self s.state.wait
    rw [gather_insert, erase_of_notMem hk, hnone]
    exact hi.wakers
  · rcases hlookup k' w hw with he | hw
    · rw [he]
      exact Nat.le_refl _
    · exact hi.start k' w hw
  · rcases hlookup k' w hw with he | hw
    · rw [he] at hr
      cases hr
    · exact hi.woken k' w waker hw hg hr

/-- The future is ready, and nothing changes, or pending with the new waker registered. -/
lemma Inv.poll {k : κ} {waker : W} {p : Poll} (h : s.poll k waker = some (s', p)) :
    Inv s' ∧ s'.state.generation = s.state.generation ∧ s'.woken = s.woken ∧
      (∀ k', k' ≠ k → s'.waits.lookup k' = s.waits.lookup k') ∧ ∃ w, s.waits.lookup k = some w ∧
        ((p = .ready ∧ w.startGeneration ≠ s.state.generation ∧ s'.waits.lookup k = some w) ∨
          (p = .pending ∧ w.startGeneration = s.state.generation ∧
            s'.waits.lookup k = some ⟨w.startGeneration, some waker⟩)) := by
  unfold Shared.poll at h
  split at h
  · cases h
  rename_i w hk
  have hlookup : ∀ (v : Wait W) k', (s.waits.insert k v).lookup k' = if k' = k then some v else s.waits.lookup k' := by
    intro v k'
    split
    · rename_i he
      rw [he, AList.lookup_insert]
    · exact AList.lookup_insert_ne ‹_›
  have hstart := hi.start
  have hwoken := hi.woken
  rcases hi.poll_cases hk waker with ⟨hg, he⟩ | ⟨hg, wakers, he, hperm⟩
  · rw [he] at h
    cases h
    refine ⟨⟨?_, ?_, ?_⟩, rfl, rfl, fun k' hne => AList.lookup_insert_ne hne, w, hk,
      .inl ⟨rfl, hg, AList.lookup_insert _⟩⟩
    · show s.state.wakers.Perm (gather (Wait.current s.state.generation) (s.waits.insert k w))
      rw [gather_insert]
      exact hi.wakers.trans (gather_perm _ hk)
    all_goals
      simp only [hlookup]
      grind
  rw [he] at h
  cases h
  refine ⟨⟨?_, ?_, ?_⟩, rfl, rfl, fun k' hne => AList.lookup_insert_ne hne, w, hk,
    .inr ⟨rfl, hg, AList.lookup_insert _⟩⟩
  · show wakers.Perm (gather (Wait.current s.state.generation) (s.waits.insert k ⟨w.startGeneration, some waker⟩))
    have hcur : Wait.current s.state.generation ⟨w.startGeneration, some waker⟩ = some waker := if_pos hg
    rw [gather_insert, hcur]
    exact hperm
  all_goals
    simp only [hlookup]
    grind

lemma Inv.drop {k : κ} (h : s.drop k = some s') :
    Inv s' ∧ s'.state.generation = s.state.generation ∧ s'.woken = s.woken ∧ s'.waits = s.waits.erase k := by
  unfold Shared.drop at h
  split at h
  · cases h
  rename_i w hk
  obtain ⟨wakers, he, hperm⟩ := hi.drop_cases hk
  rw [he] at h
  cases h
  have hlookup : ∀ k' v, (s.waits.erase k).lookup k' = some v → s.waits.lookup k' = some v := fun k' v hv => by
    by_cases hkk : k' = k
    · subst hkk
      rw [AList.lookup_erase] at hv
      cases hv
    · rwa [AList.lookup_erase_ne hkk] at hv
  exact ⟨⟨hperm, fun k' v hv => hi.start k' v (hlookup k' v hv),
    fun k' v old hv hne hr => hi.woken k' v old (hlookup k' v hv) hne hr⟩, rfl, rfl, rfl⟩

omit [DecidableEq W] in
/-- A notification wakes every registered waker of its generation. -/
lemma Inv.notify (h : s.notify = some s') :
    Inv s' ∧ s'.state.generation = s.state.generation + 1 ∧ s'.waits = s.waits := by
  unfold Shared.notify State.notify at h
  split at h
  · cases h
  rename_i state hst
  split at hst
  · cases hst
    cases h
    refine ⟨⟨?_, fun k w hk => Nat.le_succ_of_le (hi.start k w hk), fun k w waker hk hne hr => ?_⟩, rfl, rfl⟩
    · have hnil : gather (Wait.current (s.state.generation + 1)) s.waits = [] := by
        refine eq_nil_iff_forall_not_mem.2 fun waker hmem => ?_
        obtain ⟨k, w, hk, hcur⟩ := mem_gather.1 hmem
        have hstart := hi.start k w hk
        rw [Wait.current, if_neg (by omega)] at hcur
        cases hcur
      show List.Perm [] (gather (Wait.current (s.state.generation + 1)) s.waits)
      rw [hnil]
    · by_cases hg : w.startGeneration = s.state.generation
      · refine mem_append_right _ (mem_map.2 ⟨waker, ?_, by rw [hg]⟩)
        refine hi.wakers.symm.subset (mem_gather.2 ⟨k, w, hk, ?_⟩)
        rw [← hg, current_self]
        exact hr
      · exact mem_append_left _ (hi.woken k w waker hk hg hr)
  · cases hst

end

end Operations

/-! ## Calls of `wait_until` -/

/-- Before the loop's `wait`, behind it, at the `.await` for the first time, suspended there, or behind it. -/
inductive Pc where
  | idle | start | created | awaiting | suspended | resolved | returned
  deriving DecidableEq

/-- `cond` tells whether the closure would return `Some`, `since` whether a notification came after that. -/
structure Call where
  pc : Pc
  (cond since : Bool)

/-- Wait futures `φ` and calls of `wait_until` `υ` on one `Notify`. -/
structure Sys (W φ υ : Type) where
  shared : Shared W (φ ⊕ υ)
  calls : υ → Call

inductive Act (W φ υ : Type) where
  | wait (f : φ)
  | poll (f : φ) (waker : W)
  | drop (f : φ)
  | notify
  | call (u : υ)
  | begin (u : υ)
  | check (u : υ)
  | await (u : υ) (waker : W)
  | leave (u : υ)
  | cancel (u : υ)
  | set (u : υ) (cond : Bool)

variable {φ υ : Type} [DecidableEq φ] [DecidableEq υ]

namespace Sys

def setPc (s : Sys W φ υ) (u : υ) (pc : Pc) : Sys W φ υ :=
  ⟨s.shared, Function.update s.calls u { s.calls u with pc := pc }⟩

def setCond (s : Sys W φ υ) (u : υ) (cond : Bool) : Sys W φ υ :=
  ⟨s.shared, Function.update s.calls u
    { s.calls u with cond := cond, since := (s.calls u).since && ((s.calls u).cond || !cond) }⟩

/-- The futures by themselves, the loop of `wait_until` and the conditions.
notify.rs:118-127 -/
def next (s : Sys W φ υ) : Act W φ υ → Option (Sys W φ υ)
  | .wait f => (s.shared.wait (.inl f)).map fun shared => { s with shared := shared }
  | .poll f waker => (s.shared.poll (.inl f) waker).map fun (shared, _) => { s with shared := shared }
  | .drop f => (s.shared.drop (.inl f)).map fun shared => { s with shared := shared }
  | .notify => s.shared.notify.map fun shared => ⟨shared, fun u => { s.calls u with since := true }⟩
  | .call u => if (s.calls u).pc = .idle then some (s.setPc u .start) else none
  | .begin u =>
    if (s.calls u).pc = .start then
      (s.shared.wait (.inr u)).map fun shared => { s.setPc u .created with shared := shared }
    else none
  | .check u =>
    if (s.calls u).pc = .created then
      if (s.calls u).cond then (s.shared.drop (.inr u)).map fun shared => { s.setPc u .returned with shared := shared }
      else some (s.setPc u .awaiting)
    else none
  | .await u waker =>
    if (s.calls u).pc = .awaiting ∨ (s.calls u).pc = .suspended then
      (s.shared.poll (.inr u) waker).map fun (shared, p) =>
        { s.setPc u (if p = .ready then .resolved else .suspended) with shared := shared }
    else none
  | .leave u =>
    if (s.calls u).pc = .resolved then
      (s.shared.drop (.inr u)).map fun shared => { s.setPc u .start with shared := shared }
    else none
  | .cancel u =>
    if (s.calls u).pc = .suspended then
      (s.shared.drop (.inr u)).map fun shared => { s.setPc u .idle with shared := shared }
    else none
  | .set u cond => some (s.setCond u cond)

end Sys

def system (W φ υ : Type) [DecidableEq W] [DecidableEq φ] [DecidableEq υ] : LTS (Sys W φ υ) (Act W φ υ) :=
  LTS.ofFn (fun s => s.shared = .new ∧ ∀ u, (s.calls u).pc = .idle ∧ (s.calls u).since = false) Sys.next

inductive Step (s : Sys W φ υ) : Act W φ υ → Sys W φ υ → Prop where
  | wait {f : φ} {shared : Shared W (φ ⊕ υ)} : s.shared.wait (.inl f) = some shared →
      Step s (.wait f) ⟨shared, s.calls⟩
  | poll {f : φ} {waker : W} {shared : Shared W (φ ⊕ υ)} {p : Poll} :
      s.shared.poll (.inl f) waker = some (shared, p) → Step s (.poll f waker) ⟨shared, s.calls⟩
  | drop {f : φ} {shared : Shared W (φ ⊕ υ)} : s.shared.drop (.inl f) = some shared →
      Step s (.drop f) ⟨shared, s.calls⟩
  | notify {shared : Shared W (φ ⊕ υ)} : s.shared.notify = some shared →
      Step s .notify ⟨shared, fun u => { s.calls u with since := true }⟩
  | call {u : υ} : (s.calls u).pc = .idle → Step s (.call u) (s.setPc u .start)
  | begin {u : υ} {shared : Shared W (φ ⊕ υ)} : (s.calls u).pc = .start → s.shared.wait (.inr u) = some shared →
      Step s (.begin u) { s.setPc u .created with shared := shared }
  | found {u : υ} {shared : Shared W (φ ⊕ υ)} : (s.calls u).pc = .created → (s.calls u).cond = true →
      s.shared.drop (.inr u) = some shared → Step s (.check u) { s.setPc u .returned with shared := shared }
  | missed {u : υ} : (s.calls u).pc = .created → (s.calls u).cond = false →
      Step s (.check u) (s.setPc u .awaiting)
  | resolve {u : υ} {waker : W} {shared : Shared W (φ ⊕ υ)} :
      (s.calls u).pc = .awaiting ∨ (s.calls u).pc = .suspended → s.shared.poll (.inr u) waker = some (shared, .ready) →
      Step s (.await u waker) { s.setPc u .resolved with shared := shared }
  | suspend {u : υ} {waker : W} {shared : Shared W (φ ⊕ υ)} :
      (s.calls u).pc = .awaiting ∨ (s.calls u).pc = .suspended →
      s.shared.poll (.inr u) waker = some (shared, .pending) →
      Step s (.await u waker) { s.setPc u .suspended with shared := shared }
  | leave {u : υ} {shared : Shared W (φ ⊕ υ)} : (s.calls u).pc = .resolved → s.shared.drop (.inr u) = some shared →
      Step s (.leave u) { s.setPc u .start with shared := shared }
  | cancel {u : υ} {shared : Shared W (φ ⊕ υ)} : (s.calls u).pc = .suspended →
      s.shared.drop (.inr u) = some shared → Step s (.cancel u) { s.setPc u .idle with shared := shared }
  | set (u : υ) (cond : Bool) : Step s (.set u cond) (s.setCond u cond)

variable {s s' : Sys W φ υ} {a : Act W φ υ}

lemma step_of_next (h : s.next a = some s') : Step s a s' := by
  cases a with
  | wait f =>
    obtain ⟨shared, hs, rfl⟩ := map_eq_some_iff.1 h
    exact .wait hs
  | poll f waker =>
    obtain ⟨⟨shared, p⟩, hs, rfl⟩ := map_eq_some_iff.1 h
    exact .poll hs
  | drop f =>
    obtain ⟨shared, hs, rfl⟩ := map_eq_some_iff.1 h
    exact .drop hs
  | notify =>
    obtain ⟨shared, hs, rfl⟩ := map_eq_some_iff.1 h
    exact .notify hs
  | call u =>
    obtain ⟨hpc, h⟩ := ite_none_right_eq_some.1 h
    cases h
    exact .call hpc
  | begin u =>
    obtain ⟨hpc, h⟩ := ite_none_right_eq_some.1 h
    obtain ⟨shared, hs, rfl⟩ := map_eq_some_iff.1 h
    exact .begin hpc hs
  | check u =>
    obtain ⟨hpc, h⟩ := ite_none_right_eq_some.1 h
    split at h
    · rename_i hcond
      obtain ⟨shared, hs, rfl⟩ := map_eq_some_iff.1 h
      exact .found hpc hcond hs
    · rename_i hcond
      cases h
      exact .missed hpc (Bool.eq_false_iff.2 hcond)
  | await u waker =>
    obtain ⟨hpc, h⟩ := ite_none_right_eq_some.1 h
    obtain ⟨⟨shared, p⟩, hs, rfl⟩ := map_eq_some_iff.1 h
    cases p with
    | ready => exact .resolve hpc hs
    | pending => exact .suspend hpc hs
  | leave u =>
    obtain ⟨hpc, h⟩ := ite_none_right_eq_some.1 h
    obtain ⟨shared, hs, rfl⟩ := map_eq_some_iff.1 h
    exact .leave hpc hs
  | cancel u =>
    obtain ⟨hpc, h⟩ := ite_none_right_eq_some.1 h
    obtain ⟨shared, hs, rfl⟩ := map_eq_some_iff.1 h
    exact .cancel hpc hs
  | set u cond =>
    cases h
    exact .set u cond

def Pc.waits : Pc → Bool
  | created | awaiting | suspended | resolved => true
  | idle | start | returned => false

def Pc.awaits : Pc → Bool
  | awaiting | suspended => true
  | idle | start | created | resolved | returned => false

/-- A call that awaits a future of this generation has seen its condition fail since the last notification, so
none came after the condition became true. -/
structure CallOk (call : Call) (wait : Option (Wait W)) (generation : Nat) : Prop where
  live : wait.isSome = call.pc.waits
  fresh : call.pc.awaits = true → ∀ w, wait = some w → w.startGeneration = generation → call.cond = true →
    call.since = false
  registered : call.pc = .suspended → ∀ w, wait = some w → w.registeredWaker.isSome = true

structure SysInv (s : Sys W φ υ) : Prop where
  shared : Inv s.shared
  calls : ∀ u, CallOk (s.calls u) (s.shared.waits.lookup (.inr u)) s.shared.state.generation

omit [DecidableEq W] in
/-- A step that concerns at most the call `u`: the other calls and their futures
stay. -/
lemma SysInv.one (hi : SysInv s) (u : υ) (hshared : Inv s'.shared)
    (hgen : s'.shared.state.generation = s.shared.state.generation) (hcalls : ∀ v, v ≠ u → s'.calls v = s.calls v)
    (hwaits : ∀ v, v ≠ u → s'.shared.waits.lookup (.inr v) = s.shared.waits.lookup (.inr v))
    (hu : CallOk (s'.calls u) (s'.shared.waits.lookup (.inr u)) s.shared.state.generation) : SysInv s' := by
  refine ⟨hshared, fun v => ?_⟩
  rw [hgen]
  by_cases hv : v = u
  · rw [hv]
    exact hu
  · rw [hcalls v hv, hwaits v hv]
    exact hi.calls v

omit [DecidableEq W] in
lemma SysInv.none (hi : SysInv s) {shared : Shared W (φ ⊕ υ)} (hshared : Inv shared)
    (hgen : shared.state.generation = s.shared.state.generation)
    (hwaits : ∀ v, shared.waits.lookup (.inr v) = s.shared.waits.lookup (.inr v)) : SysInv ⟨shared, s.calls⟩ := by
  refine ⟨hshared, fun v => ?_⟩
  rw [hgen, hwaits]
  exact hi.calls v

omit [DecidableEq W] [DecidableEq φ] in
lemma setPc_self (s : Sys W φ υ) (u : υ) (pc : Pc) : (s.setPc u pc).calls u = { s.calls u with pc := pc } :=
  update_self ..

omit [DecidableEq W] [DecidableEq φ] in
lemma setPc_ne (s : Sys W φ υ) (u : υ) (pc : Pc) (v : υ) (hv : v ≠ u) : (s.setPc u pc).calls v = s.calls v :=
  update_of_ne hv ..

variable {u : υ}

lemma SysInv.dropped (hi : SysInv s) {shared : Shared W (φ ⊕ υ)} (pc : Pc)
    (hpc : pc.waits = false) (h : s.shared.drop (.inr u) = some shared) :
    SysInv { s.setPc u pc with shared := shared } := by
  obtain ⟨hs, hgen, -, hwaits⟩ := hi.shared.drop h
  refine hi.one u hs hgen (setPc_ne s u _) (fun v hv => ?_) ?_
  · rw [hwaits, AList.lookup_erase_ne fun he => hv (Sum.inr.inj he)]
  rw [setPc_self, hwaits, AList.lookup_erase]
  exact ⟨hpc.symm, fun _ w hw => (nomatch hw), fun _ w hw => (nomatch hw)⟩

lemma SysInv.step {s s' : Sys W φ υ} {a : Act W φ υ} (hi : SysInv s) (h : Step s a s') : SysInv s' := by
  have hlr : ∀ (v : υ) (f : φ), (Sum.inr v : φ ⊕ υ) ≠ .inl f := nofun
  have hrr : ∀ {v u : υ}, v ≠ u → (Sum.inr v : φ ⊕ υ) ≠ .inr u := fun hv he => hv (Sum.inr.inj he)
  cases h with
  | @wait f shared h =>
    obtain ⟨hs, hstate, -, hwaits⟩ := hi.shared.wait h
    refine hi.none hs (by rw [hstate]) fun v => ?_
    rw [hwaits, AList.lookup_insert_ne (hlr v f)]
  | @poll f waker shared p h =>
    obtain ⟨hs, hgen, -, hothers, -⟩ := hi.shared.poll h
    exact hi.none hs hgen fun v => hothers _ (hlr v f)
  | @drop f shared h =>
    obtain ⟨hs, hgen, -, hwaits⟩ := hi.shared.drop h
    refine hi.none hs hgen fun v => ?_
    rw [hwaits, AList.lookup_erase_ne (hlr v f)]
  | @notify shared h =>
    obtain ⟨hs, hgen, hwaits⟩ := hi.shared.notify h
    refine ⟨hs, fun v => ?_⟩
    have hv := hi.calls v
    rw [hwaits, hgen]
    refine ⟨hv.live, fun _ w hw hg _ => ?_, hv.registered⟩
    have hle := hi.shared.start _ w hw
    omega
  | @call u hpc =>
    have hu := hi.calls u
    refine hi.one u hi.shared rfl (setPc_ne s u _) (fun _ _ => rfl) ?_
    rw [setPc_self]
    exact ⟨hu.live.trans (by rw [hpc]; rfl), nofun, nofun⟩
  | @begin u shared hpc h =>
    obtain ⟨hs, hstate, -, hwaits⟩ := hi.shared.wait h
    refine hi.one u hs (by rw [hstate]) (setPc_ne s u _) (fun v hv => ?_) ?_
    · rw [hwaits, AList.lookup_insert_ne (hrr hv)]
    rw [setPc_self, hwaits, AList.lookup_insert]
    exact ⟨rfl, nofun, nofun⟩
  | found hpc hcond h => exact hi.dropped .returned rfl h
  | @missed u hpc hcond =>
    have hu := hi.calls u
    refine hi.one u hi.shared rfl (setPc_ne s u _) (fun _ _ => rfl) ?_
    rw [setPc_self]
    exact ⟨hu.live.trans (by rw [hpc]; rfl), fun _ _ _ _ hc => (nomatch hcond.symm.trans hc), nofun⟩
  | @resolve u waker shared hpc h =>
    obtain ⟨hs, hgen, -, hothers, w, hw, hcases⟩ := hi.shared.poll h
    refine hi.one u hs hgen (setPc_ne s u _) (fun v hv => hothers _ (hrr hv)) ?_
    show CallOk ((s.setPc u .resolved).calls u) (shared.waits.lookup (.inr u)) _
    rw [setPc_self]
    rcases hcases with ⟨-, -, hw'⟩ | ⟨hp, -⟩
    · rw [hw']
      exact ⟨rfl, nofun, nofun⟩
    · cases hp
  | @suspend u waker shared hpc h =>
    obtain ⟨hs, hgen, -, hothers, w, hw, hcases⟩ := hi.shared.poll h
    refine hi.one u hs hgen (setPc_ne s u _) (fun v hv => hothers _ (hrr hv)) ?_
    show CallOk ((s.setPc u .suspended).calls u) (shared.waits.lookup (.inr u)) _
    rw [setPc_self]
    rcases hcases with ⟨hp, -⟩ | ⟨-, hg, hw'⟩
    · cases hp
    rw [hw']
    refine ⟨rfl, fun _ _ _ _ hcond => ?_, fun _ v hv => by cases hv; rfl⟩
    exact (hi.calls u).fresh (by rcases hpc with hpc | hpc <;> rw [hpc] <;> rfl) w hw hg hcond
  | leave hpc h => exact hi.dropped .start rfl h
  | cancel hpc h => exact hi.dropped .idle rfl h
  | set u cond =>
    have hu := hi.calls u
    refine hi.one u hi.shared rfl (fun v hv => update_of_ne hv ..) (fun _ _ => rfl) ?_
    have hself : (s.setCond u cond).calls u = { s.calls u with
        cond := cond, since := (s.calls u).since && ((s.calls u).cond || !cond) } := update_self ..
    rw [hself]
    refine ⟨hu.live, fun ha w hw hg hc => ?_, hu.registered⟩
    -- a condition that was true before has its record, one that becomes true starts a new one
    show ((s.calls u).since && ((s.calls u).cond || !cond)) = false
    rw [show cond = true from hc]
    cases hcond : (s.calls u).cond with
    | false => simp
    | true =>
      rw [hu.fresh ha w hw hg hcond]
      rfl

/-! ## Behind a notification -/

/-- The steps that end the future `k`. -/
def Act.ends (k : φ ⊕ υ) : Act W φ υ → Bool
  | .drop f => k = .inl f
  | .check u | .leave u | .cancel u => k = .inr u
  | _ => false

/-- A future made before the last notification. -/
structure Stale (s : Sys W φ υ) (k : φ ⊕ υ) (w : Wait W) : Prop where
  live : s.shared.waits.lookup k = some w
  old : w.startGeneration < s.shared.state.generation

section Shared

variable {s s' : Shared W κ} {k k' : κ} {w : Wait W}

omit [DecidableEq W] in
lemma wait_keeps (hi : Inv s) (h : s.wait k' = some s') (hk : s.waits.lookup k = some w) :
    s'.waits.lookup k = some w := by
  have hnot : k' ∉ s.waits := by
    unfold Shared.wait at h
    split at h
    · cases h
    · assumption
  obtain ⟨-, -, -, hwaits⟩ := hi.wait h
  rw [hwaits, AList.lookup_insert_ne]
  · exact hk
  intro he
  rw [he] at hk
  exact hnot (AList.lookup_isSome.1 (by rw [hk]; rfl))

/-- A poll changes nothing about a future of an older generation. -/
lemma poll_keeps (hi : Inv s) {waker : W} {p : Poll} (h : s.poll k' waker = some (s', p))
    (hk : s.waits.lookup k = some w) (hold : w.startGeneration < s.state.generation) : s'.waits.lookup k = some w := by
  obtain ⟨-, -, -, hothers, v, hv, hcases⟩ := hi.poll h
  by_cases he : k = k'
  · subst he
    cases hv.symm.trans hk
    rcases hcases with ⟨-, -, hw⟩ | ⟨-, hg, -⟩
    · exact hw
    · omega
  · rw [hothers k he]
    exact hk

lemma drop_keeps (hi : Inv s) (h : s.drop k' = some s') (hk : s.waits.lookup k = some w) (hne : k ≠ k') :
    s'.waits.lookup k = some w := by
  obtain ⟨-, -, -, hwaits⟩ := hi.drop h
  rw [hwaits, AList.lookup_erase_ne hne]
  exact hk

end Shared

lemma Step.generation_le (hi : SysInv s) (h : Step s a s') :
    s.shared.state.generation ≤ s'.shared.state.generation := by
  cases h with
  | wait h | begin hpc h => exact Nat.le_of_eq (by rw [(hi.shared.wait h).2.1])
  | poll h | resolve hpc h | suspend hpc h => exact Nat.le_of_eq (hi.shared.poll h).2.1.symm
  | drop h | found hpc hcond h | leave hpc h | cancel hpc h => exact Nat.le_of_eq (hi.shared.drop h).2.1.symm
  | @notify shared h =>
    rw [(hi.shared.notify h).2.1]
    exact Nat.le_succ _
  | call hpc | missed hpc hcond | set u cond => exact Nat.le_refl _

lemma Stale.step {s s' : Sys W φ υ} {a : Act W φ υ} {k : φ ⊕ υ} {w : Wait W} (hi : SysInv s) (hw : Stale s k w)
    (h : Step s a s') (hend : a.ends k = false) : Stale s' k w := by
  refine ⟨?_, Nat.lt_of_lt_of_le hw.old (h.generation_le hi)⟩
  cases h with
  | wait h | begin hpc h => exact wait_keeps hi.shared h hw.live
  | poll h | resolve hpc h | suspend hpc h => exact poll_keeps hi.shared h hw.live hw.old
  | drop h | found hpc hcond h | leave hpc h | cancel hpc h =>
    exact drop_keeps hi.shared h hw.live (of_decide_eq_false hend)
  | notify h =>
    rw [(hi.shared.notify h).2.2]
    exact hw.live
  | call hpc | missed hpc hcond | set u cond => exact hw.live

variable {ls : List (Act W φ υ)}

lemma Stale.run {k : φ ⊕ υ} {w : Wait W}
    (h : (system W φ υ).Run s ls s') (hi : SysInv s) (hw : Stale s k w) (hend : ∀ a ∈ ls, a.ends k = false) :
    SysInv s' ∧ Stale s' k w := by
  induction h with
  | nil => exact ⟨hi, hw⟩
  | cons hstep _ ih =>
    have hst := step_of_next hstep
    exact ih (hi.step hst) (hw.step hi hst (hend _ mem_cons_self)) fun a ha => hend a (mem_cons_of_mem _ ha)

def Act.own (u : υ) : Act W φ υ → Bool
  | .begin v | .check v | .await v _ | .leave v => v = u
  | _ => false

/-- How many steps a call is from its return, if its future is ready and its
condition holds. -/
def Pc.rank : Pc → Nat
  | returned => 0
  | created => 1
  | start => 2
  | resolved => 3
  | awaiting | suspended => 4
  | idle => 5

structure Bound (s : Sys W φ υ) (u : υ) : Prop where
  cond : (s.calls u).cond = true
  called : (s.calls u).pc ≠ .idle
  stale : (s.calls u).pc.awaits = true → ∃ w, Stale s (.inr u) w

lemma Bound.frame (hi : SysInv s) (hb : Bound s u) (h : Step s a s')
    (hpc : (s'.calls u).pc = (s.calls u).pc) (hcond : (s'.calls u).cond) (hend : a.ends (.inr u) = false)
    (hown : a.own u = false) :
    Bound s' u ∧ (s'.calls u).pc.rank + (if a.own u then 1 else 0) = (s.calls u).pc.rank := by
  refine ⟨⟨hcond, by rw [hpc]; exact hb.called, fun ha => ?_⟩, ?_⟩
  · rw [hpc] at ha
    obtain ⟨w, hw⟩ := hb.stale ha
    exact ⟨w, hw.step hi h hend⟩
  · rw [hpc, hown]
    rfl

omit [DecidableEq W] in
lemma Bound.own_step (hb : Bound s u) (pc : Pc)
    (hcall : s'.calls u = { s.calls u with pc := pc }) (hidle : pc ≠ .idle) (ha : pc.awaits = false)
    (hown : a.own u) (hrank : pc.rank + 1 = (s.calls u).pc.rank) :
    Bound s' u ∧ (s'.calls u).pc.rank + (if a.own u then 1 else 0) = (s.calls u).pc.rank := by
  rw [hcall, hown]
  exact ⟨⟨by rw [hcall]; exact hb.cond, by rw [hcall]; exact hidle,
    fun h => by rw [hcall] at h; exact nomatch ha.symm.trans h⟩, hrank⟩

lemma Bound.step {s s' : Sys W φ υ} {a : Act W φ υ} {u : υ} (hi : SysInv s) (hb : Bound s u) (h : Step s a s')
    (hcancel : a ≠ .cancel u) (hset : a ≠ .set u false) :
    Bound s' u ∧ (s'.calls u).pc.rank + (if a.own u then 1 else 0) = (s.calls u).pc.rank := by
  have hothers : ∀ v, v ≠ u → s'.calls u = s.calls u → a.ends (.inr u) = decide ((Sum.inr u : φ ⊕ υ) = .inr v) ∨
      a.ends (.inr u) = false → a.own u = decide (v = u) ∨ a.own u = false →
      Bound s' u ∧ (s'.calls u).pc.rank + (if a.own u then 1 else 0) = (s.calls u).pc.rank := by
    intro v hv hcall hend hown
    refine hb.frame hi h (by rw [hcall]) (by rw [hcall]; exact hb.cond) ?_ ?_
    · rcases hend with hend | hend
      · rw [hend]
        exact decide_eq_false fun he => hv (Sum.inr.inj he).symm
      · exact hend
    · rcases hown with hown | hown
      · rw [hown]
        exact decide_eq_false hv
      · exact hown
  have hne {v : υ} {pc} (hv : v ≠ u) : (s.setPc v pc).calls u = s.calls u := setPc_ne s v pc u hv.symm
  have hself : ∀ v : υ, decide (v = v) = true := fun v => decide_eq_true rfl
  have hstep := h
  cases h with
  | wait h' | poll h' | drop h' | notify h' => exact hb.frame hi hstep rfl hb.cond rfl rfl
  | @call v hpc =>
    by_cases hv : v = u
    · subst hv
      exact absurd hpc hb.called
    · exact hothers v hv (hne hv) (.inr rfl) (.inr rfl)
  | @begin v shared hpc h' =>
    by_cases hv : v = u
    · subst hv
      exact hb.own_step .created (setPc_self s v _) nofun rfl (hself v) (by rw [hpc]; rfl)
    · exact hothers v hv (hne hv) (.inr rfl) (.inl rfl)
  | @found v shared hpc hcond h' =>
    by_cases hv : v = u
    · subst hv
      exact hb.own_step .returned (setPc_self s v _) nofun rfl (hself v) (by rw [hpc]; rfl)
    · exact hothers v hv (hne hv) (.inl rfl) (.inl rfl)
  | @missed v hpc hcond =>
    by_cases hv : v = u
    · subst hv
      cases hcond.symm.trans hb.cond
    · exact hothers v hv (hne hv) (.inl rfl) (.inl rfl)
  | @resolve v waker shared hpc h' =>
    by_cases hv : v = u
    · subst hv
      exact hb.own_step .resolved (setPc_self s v _) nofun rfl (hself v)
        (by rcases hpc with hpc | hpc <;> rw [hpc] <;> rfl)
    · exact hothers v hv (hne hv) (.inr rfl) (.inl rfl)
  | @suspend v waker shared hpc h' =>
    by_cases hv : v = u
    · -- a future of an older generation is not pending
      subst hv
      obtain ⟨w, hw⟩ := hb.stale (by rcases hpc with hpc | hpc <;> rw [hpc] <;> rfl)
      obtain ⟨-, -, -, -, w', hw', hcases⟩ := hi.shared.poll h'
      cases hw'.symm.trans hw.live
      rcases hcases with ⟨hp, -⟩ | ⟨-, hg, -⟩
      · cases hp
      have hold := hw.old
      omega
    · exact hothers v hv (hne hv) (.inr rfl) (.inl rfl)
  | @leave v shared hpc h' =>
    by_cases hv : v = u
    · subst hv
      exact hb.own_step .start (setPc_self s v _) nofun rfl (hself v) (by rw [hpc]; rfl)
    · exact hothers v hv (hne hv) (.inl rfl) (.inl rfl)
  | @cancel v shared hpc h' =>
    have hv : v ≠ u := fun he => hcancel (by rw [he])
    exact hothers v hv (hne hv) (.inl rfl) (.inr rfl)
  | set v cond =>
    by_cases hv : v = u
    · subst hv
      have hcall : (s.setCond v cond).calls v = { s.calls v with
          cond := cond, since := (s.calls v).since && ((s.calls v).cond || !cond) } := update_self ..
      refine hb.frame hi hstep (by rw [hcall]) ?_ rfl rfl
      rw [hcall]
      cases cond with
      | true => rfl
      | false => exact absurd rfl hset
    · exact hothers v hv (update_of_ne (Ne.symm hv) ..) (.inr rfl) (.inr rfl)

lemma Bound.run (h : (system W φ υ).Run s ls s') (hi : SysInv s)
    (hb : Bound s u) (hls : ∀ a ∈ ls, a ≠ .cancel u ∧ a ≠ .set u false) :
    SysInv s' ∧ Bound s' u ∧ (s'.calls u).pc.rank + ls.countP (Act.own u) = (s.calls u).pc.rank := by
  induction h with
  | nil => exact ⟨hi, hb, rfl⟩
  | cons hstep _ ih =>
    have hst := step_of_next hstep
    obtain ⟨hcancel, hset⟩ := hls _ mem_cons_self
    obtain ⟨hb', hrank⟩ := hb.step hi hst hcancel hset
    obtain ⟨hi'', hb'', hrank'⟩ := ih (hi.step hst) hb' fun a ha => hls a (mem_cons_of_mem _ ha)
    refine ⟨hi'', hb'', ?_⟩
    rw [countP_cons]
    omega

/-- A call that has not returned can take its next step: nothing in it panics. -/
lemma SysInv.enabled (hi : SysInv s) (u : υ) (hidle : (s.calls u).pc ≠ .idle)
    (hret : (s.calls u).pc ≠ .returned) (waker : W) :
    ∃ a ∈ [.begin u, .check u, .await u waker, .leave u], (s.next a).isSome := by
  have hlive := (hi.calls u).live
  have hdrop : (s.calls u).pc.waits → (s.shared.drop (.inr u)).isSome := fun hw => by
    rw [hw] at hlive
    obtain ⟨w, hk⟩ := isSome_iff_exists.1 hlive
    obtain ⟨wakers, he, -⟩ := hi.shared.drop_cases hk
    unfold Shared.drop
    rw [hk]
    simp [he]
  have hpoll : (s.calls u).pc.waits → (s.shared.poll (.inr u) waker).isSome := fun hw => by
    rw [hw] at hlive
    obtain ⟨w, hk⟩ := isSome_iff_exists.1 hlive
    unfold Shared.poll
    rw [hk]
    rcases hi.shared.poll_cases hk waker with ⟨-, he⟩ | ⟨-, wakers, he, -⟩ <;> simp only [he, isSome_some]
  cases hpc : (s.calls u).pc with
  | idle => exact absurd hpc hidle
  | returned => exact absurd hpc hret
  | start =>
    refine ⟨.begin u, by simp, ?_⟩
    have hnot : Sum.inr u ∉ s.shared.waits := fun hmem => by
      rw [hpc, AList.lookup_isSome.2 hmem] at hlive
      cases hlive
    simp [Sys.next, hpc, Shared.wait, if_neg hnot]
  | created =>
    refine ⟨.check u, by simp, ?_⟩
    simp only [Sys.next, hpc, if_true]
    split
    · rw [isSome_map]
      exact hdrop (by rw [hpc]; rfl)
    · rfl
  | awaiting =>
    refine ⟨.await u waker, by simp, ?_⟩
    simp only [Sys.next, hpc, true_or, if_true, isSome_map]
    exact hpoll (by rw [hpc]; rfl)
  | suspended =>
    refine ⟨.await u waker, by simp, ?_⟩
    simp only [Sys.next, hpc, or_true, if_true, isSome_map]
    exact hpoll (by rw [hpc]; rfl)
  | resolved =>
    refine ⟨.leave u, by simp, ?_⟩
    simp only [Sys.next, hpc, if_true, isSome_map]
    exact hdrop (by rw [hpc]; rfl)

lemma reachable_inv (hs : (system W φ υ).Reachable s) : SysInv s := by
  have hind : (system W φ υ).Inductive SysInv := by
    refine ⟨fun s ⟨hnew, hcalls⟩ => ?_, fun s a s' hi hstep => hi.step (step_of_next hstep)⟩
    refine ⟨hnew ▸ .new, fun u => ?_⟩
    obtain ⟨hpc, hsince⟩ := hcalls u
    rw [hnew]
    exact ⟨by rw [hpc]; rfl, fun _ _ _ _ _ => hsince, fun h => nomatch hpc.symm.trans h⟩
  exact hind.reachable s hs

/-- In every state of every run:

- the stored wakers are those registered by live futures made since the last
  notification, as multisets;
- neither a poll nor a drop of a live future panics;
- a future from before a notification is ready at every poll behind it, and the
  waker it had registered was woken;
- a suspended `wait_until` whose condition holds, with a notification since it
  came to hold, has had its waker woken; as long as the condition holds and the
  call is not dropped, it can always take its next step, and the fourth is its
  return. In particular it is not pending at the next poll. -/
theorem notify_wakes {s : Sys W φ υ} (hs : (system W φ υ).Reachable s) :
    s.shared.state.wakers.Perm (registered s.shared) ∧ (∀ k w, s.shared.waits.lookup k = some w →
      (s.shared.state.drop w).isSome = true ∧ ∀ waker, (s.shared.state.poll w waker).isSome = true) ∧
    (∀ k w s₁ ls s₂, s.shared.waits.lookup k = some w → s.next .notify = some s₁ → (system W φ υ).Run s₁ ls s₂ →
      (∀ a ∈ ls, a.ends k = false) → s₂.shared.waits.lookup k = some w ∧
      (∀ waker, s₂.shared.state.poll w waker = some (s₂.shared.state, w, .ready)) ∧
      ∀ waker, w.registeredWaker = some waker → (w.startGeneration, waker) ∈ s₁.shared.woken) ∧
    ∀ u, (s.calls u).pc = .suspended → (s.calls u).cond = true → (s.calls u).since = true →
      (∃ w waker, s.shared.waits.lookup (.inr u) = some w ∧ w.registeredWaker = some waker ∧
        (w.startGeneration, waker) ∈ s.shared.woken) ∧
      ∀ ls s', (system W φ υ).Run s ls s' → (∀ a ∈ ls, a ≠ .cancel u ∧ a ≠ .set u false) →
        (s'.calls u).pc.rank + ls.countP (Act.own u) = 4 ∧
        ((s'.calls u).pc ≠ .returned → ∀ waker, ∃ a ∈ [.begin u, .check u, .await u waker, .leave u],
          (s'.next a).isSome = true) := by
  have hi := reachable_inv hs
  refine ⟨hi.shared.wakers, fun k w hk => ⟨?_, fun waker => ?_⟩, fun k w s₁ ls s₂ hk hn hrun hend => ?_,
    fun u hpc hcond hsince => ?_⟩
  · obtain ⟨wakers, he, -⟩ := hi.shared.drop_cases hk
    rw [he]
    rfl
  · rcases hi.shared.poll_cases hk waker with ⟨-, he⟩ | ⟨-, wakers, he, -⟩
    · rw [he]
      rfl
    · rw [he]
      rfl
  · obtain ⟨shared, hshared, rfl⟩ := map_eq_some_iff.1 hn
    have hi1 : SysInv ⟨shared, _⟩ := hi.step (.notify hshared)
    obtain ⟨-, hgen, hwaits⟩ := hi.shared.notify hshared
    have hstart := hi.shared.start k w hk
    have hstale : Stale ⟨shared, fun u => { s.calls u with since := true }⟩ k w := by
      refine ⟨by rw [hwaits]; exact hk, ?_⟩
      show w.startGeneration < shared.state.generation
      omega
    obtain ⟨hi2, hstale2⟩ := Stale.run hrun hi1 hstale hend
    refine ⟨hstale2.live, fun waker => ?_, fun waker hr => ?_⟩
    · rcases hi2.shared.poll_cases hstale2.live waker with ⟨-, he⟩ | ⟨hg, -⟩
      · exact he
      have hold := hstale2.old
      omega
    · exact hi1.shared.woken k w waker hstale.live (Nat.ne_of_lt hstale.old) hr
  · have hu := hi.calls u
    obtain ⟨w, hk⟩ : ∃ w, s.shared.waits.lookup (.inr u) = some w :=
      isSome_iff_exists.1 (hu.live.trans (by rw [hpc]; rfl))
    have hne : w.startGeneration ≠ s.shared.state.generation := fun hg =>
      nomatch (hu.fresh (by rw [hpc]; rfl) w hk hg hcond).symm.trans hsince
    obtain ⟨waker, hr⟩ := isSome_iff_exists.1 (hu.registered hpc w hk)
    have hb : Bound s u := ⟨hcond, by rw [hpc]; nofun,
      fun _ => ⟨w, hk, Nat.lt_of_le_of_ne (hi.shared.start _ w hk) hne⟩⟩
    refine ⟨⟨w, waker, hk, hr, hi.shared.woken _ w waker hk hne hr⟩, fun ls s' hrun hls => ?_⟩
    obtain ⟨hi', hb', hrank⟩ := Bound.run hrun hi hb hls
    rw [hpc] at hrank
    exact ⟨hrank, fun hret waker => hi'.enabled u hb'.called hret waker⟩

/-- A call is suspended with a waker that another future has registered as well; a notification wakes both. -/
theorem notify_wakes_shared_waker : ∃ s : Sys Bool Unit Unit, (system Bool Unit Unit).Reachable s ∧
    (s.calls ()).pc = .suspended ∧ (s.calls ()).cond = true ∧ (s.calls ()).since = true ∧
    ∀ ls s', (system Bool Unit Unit).Run s ls s' → (∀ a ∈ ls, a ≠ .cancel () ∧ a ≠ .set () false) →
      (s'.calls ()).pc.rank + ls.countP (Act.own ()) = 4 := by
  have hsome : ((LTS.runFn Sys.next (⟨.new, fun _ => ⟨.idle, false, false⟩⟩ : Sys Bool Unit Unit)
      [.wait (), .poll () true, .call (), .begin (), .check (), .await () false, .await () true, .set () true,
        .notify]).any fun s =>
      (s.calls ()).pc = .suspended && (s.calls ()).cond && (s.calls ()).since) = true := by
    decide +kernel
  obtain ⟨s, hr, hp⟩ := (any_eq_true _ _).1 hsome
  simp only [Bool.and_eq_true, decide_eq_true_eq] at hp
  obtain ⟨⟨hpc, hcond⟩, hsince⟩ := hp
  have hreach : (system Bool Unit Unit).Reachable s := ⟨_, _, ⟨rfl, fun _ => ⟨rfl, rfl⟩⟩, LTS.runFn_run hr⟩
  exact ⟨s, hreach, hpc, hcond, hsince, fun ls s' hrun hls =>
    (((notify_wakes hreach).2.2.2 () hpc hcond hsince).2 ls s' hrun hls).1⟩

end Mushroom.L4.Notify
