import Mushroom.Core.LTS
import Mushroom.L6Process.Timespec

/-!
# Sleeping until a time

`kernel/time.rs` and `clock_nanosleep` of `syscall.rs:3055-3092`. The timeouts are kept in
the order in which the heap gives them out. All of them are compared with the
monotonic clock, whichever clock a sleep names.

The state remembers of every sleep the time it is to wait for (`target`) and whether
its clock has shown it at an update (`reached`), that is, when the sleep is to be over.
-/
namespace Mushroom.L6.Time

open Function Timespec

structure Timeout where
  (time sleep : Nat)
  deriving DecidableEq

/-- `done`: its timeout has been fired. `honest`: at every update so far it was over exactly if it was to be.
`passed`: at some update its time lay between the two clocks, and the sleep names the real-time clock. -/
structure Sleep where
  realtime : Bool
  target : Nat
  (interrupted done reached honest passed : Bool)

structure State where
  (backendOffset skipOffset : Nat)
  realtimeOffset : Timespec
  timeouts : List Timeout
  count : Nat
  sleeps : Nat → Sleep

namespace State

/-- time.rs:50-58 -/
def new : State := ⟨0, 10 ^ 9, ⟨0, 0⟩, [], 0, fun _ => ⟨false, 0, true, false, false, true, false⟩⟩

def combine (s : State) : Nat := s.backendOffset + s.skipOffset

/-- What a clock shows, in nanoseconds. -/
def reading (s : State) (realtime : Bool) : Nat := s.combine + if realtime then s.realtimeOffset.intoNs else 0

def fire (sleeps : Nat → Sleep) (t : Timeout) : Nat → Sleep :=
  update sleeps t.sleep { sleeps t.sleep with done := true }

/-- The loop of `fire_clocks`. time.rs:60-69 -/
def fireLoop (now : Nat) : List Timeout → (Nat → Sleep) → List Timeout × (Nat → Sleep)
  | [], sleeps => ([], sleeps)
  | t :: ts, sleeps => if t.time ≤ now then fireLoop now ts (fire sleeps t) else (t :: ts, sleeps)

/-- What is remembered of a sleep at an update. -/
def observe (s : State) (x : Sleep) : Sleep :=
  let reached := x.reached || decide (x.target ≤ s.reading x.realtime)
  { x with
    reached
    honest := x.honest && x.done == reached
    passed := x.passed || decide (s.combine < x.target ∧ x.target ≤ s.reading x.realtime) }

def fireClocks (s : State) : State :=
  let r := fireLoop s.combine s.timeouts s.sleeps
  { s with timeouts := r.1, sleeps := fun i => s.observe (r.2 i) }

/-- The state after the update, and the time unless it has too many seconds.
time.rs:71-77 -/
def refresh (s : State) (backend : Nat) : Option (State × Timespec) :=
  let s := fireClocks { s with backendOffset := max s.backendOffset backend }
  (fromNs s.combine).map (s, ·)

/-- The heap gives out the earliest timeout first. -/
def push (t : Timeout) (ts : List Timeout) : List Timeout := ts.orderedInsert (·.time ≤ ·.time) t

/-- A new sleep, and its timeout. time.rs:89-97 -/
def addTimeout (s : State) (x : Sleep) (time : Nat) : State :=
  let started : State := { s with count := s.count + 1, sleeps := update s.sleeps s.count (s.observe x) }
  if time ≤ s.combine then { started with sleeps := update s.sleeps s.count (s.observe { x with done := true }) }
  else { started with timeouts := push ⟨time, s.count⟩ s.timeouts }

end State

/-- `backend` is the time that `backend::current_offset` gives. `advance` takes any timeout whose receiver is there:
`iter` of a heap has no order. -/
inductive Act where
  | now (realtime : Bool) (backend : Nat)
  | setRealTime (time : Timespec) (backend : Nat)
  | sleep (realtime abstime : Bool) (request : Timespec) (backend : Nat)
  | interrupt (i : Nat)
  | advance (t : Timeout)

/-- `none` is a panic, or no step. -/
def next (s : State) : Act → Option State
  | .now realtime backend => do
    let (s, now) ← s.refresh backend
    if realtime then (s.realtimeOffset.add now).map fun _ => s else some s
  | .setRealTime time backend => do
    let (s, now) ← s.refresh backend
    some { s with realtimeOffset := (time.checkedSub now).getD s.realtimeOffset }
  | .sleep realtime abstime request backend =>
    if abstime then some (s.addTimeout ⟨realtime, request.intoNs, false, false, false, true, false⟩ request.intoNs)
    else do
      let (s, now) ← s.refresh backend
      let deadline ← now.add request
      some (s.addTimeout ⟨false, s.combine + request.intoNs, false, false, false, true, false⟩ deadline.intoNs)
  | .interrupt i => some { s with sleeps := update s.sleeps i { s.sleeps i with interrupted := true } }
  | .advance t =>
    if t ∈ s.timeouts ∧ (s.sleeps t.sleep).interrupted = false then
      some (State.fireClocks { s with skipOffset := s.skipOffset + (t.time - s.combine) })
    else none

def system : LTS State Act := .ofFn (· = .new) next

/-! ## The loop -/

lemma fireLoop_spec (now : Nat) (sleeps : Nat → Sleep) {ts : List Timeout} (hs : ts.Pairwise (·.time ≤ ·.time)) :
    (State.fireLoop now ts sleeps).1 = ts.filter (now < ·.time) ∧ ∀ i, (State.fireLoop now ts sleeps).2 i =
      { sleeps i with done := (sleeps i).done || decide (∃ t ∈ ts, t.sleep = i ∧ t.time ≤ now) } := by
  induction ts generalizing sleeps with
  | nil => simp [State.fireLoop]
  | cons t ts ih =>
    obtain ⟨hle, hs⟩ := List.pairwise_cons.1 hs
    rw [State.fireLoop]
    split
    · rename_i hnow
      obtain ⟨hleft, hdone⟩ := ih (State.fire sleeps t) hs
      refine ⟨by simp [hleft, hnow], fun i => ?_⟩
      rw [hdone, State.fire]
      by_cases hi : i = t.sleep
      · subst hi
        simp [hnow]
      · simp [update_of_ne hi, Ne.symm hi]
    · rename_i hnow
      -- the others are not earlier than the first
      have hlater : ∀ u ∈ t :: ts, now < u.time := by
        rw [List.forall_mem_cons]
        exact ⟨Nat.lt_of_not_le hnow, fun u hu => (Nat.lt_of_not_le hnow).trans_le (hle u hu)⟩
      refine ⟨(List.filter_eq_self.2 (by simpa using hlater)).symm, fun i => ?_⟩
      have hnone : ¬∃ u ∈ t :: ts, u.sleep = i ∧ u.time ≤ now := fun ⟨u, hu, _, hle⟩ => (hlater u hu).not_ge hle
      simp only [hnone, decide_false, Bool.or_false]

lemma mem_push {t u : Timeout} {ts : List Timeout} : u ∈ State.push t ts ↔ u = t ∨ u ∈ ts :=
  List.mem_orderedInsert _

lemma push_sorted {t : Timeout} {ts : List Timeout} (hs : ts.Pairwise (·.time ≤ ·.time)) :
    (State.push t ts).Pairwise (·.time ≤ ·.time) :=
  have : Std.Total fun u v : Timeout => u.time ≤ v.time := ⟨fun _ _ => Nat.le_total ..⟩
  have : IsTrans Timeout fun u v => u.time ≤ v.time := ⟨fun _ _ _ => Nat.le_trans⟩
  hs.orderedInsert t ts

/-! ## What is remembered -/

structure Sleep.Ok (x : Sleep) : Prop where
  reached : x.done = true → x.reached = true
  honest : x.honest = true ↔ x.passed = false
  done : x.passed = false → x.reached = true → x.done = true
  monotonic : x.realtime = false → x.passed = false

/-- An update at which the timeout is fired exactly if the monotonic clock has got there. -/
lemma Sleep.Ok.observe {x y : Sleep} (hx : x.Ok) {s : State} (hy : y = { x with done := y.done })
    (hfire : x.done = true → y.done = true) (hdone : y.done = true ↔ y.target ≤ s.combine) : (s.observe y).Ok := by
  have hle : s.combine ≤ s.reading y.realtime := Nat.le_add_right ..
  have hmono : y.realtime = false → s.reading y.realtime = s.combine := fun h => by rw [State.reading, h]; rfl
  have hreached : y.reached = x.reached := by rw [hy]
  have hpassed : y.passed = x.passed := by rw [hy]
  have hhonest : y.honest = x.honest := by rw [hy]
  have hrealtime : y.realtime = x.realtime := by rw [hy]
  have hagain : x.passed = false → y.reached = true → y.target ≤ s.combine := fun hp hr =>
    hdone.1 (hfire (hx.done hp (hreached ▸ hr)))
  have hgap : y.passed = false → ((y.done = (y.reached || decide (y.target ≤ s.reading y.realtime))) ↔
      ¬(s.combine < y.target ∧ y.target ≤ s.reading y.realtime)) := by
    intro hp
    rw [Bool.eq_iff_iff, hdone, Bool.or_eq_true, decide_eq_true_eq]
    have := hagain (hpassed ▸ hp)
    constructor
    · intro h
      have := h.2
      omega
    · intro h
      refine ⟨fun h' => .inr (h'.trans hle), fun h' => ?_⟩
      rcases h' with h' | h'
      · exact this h'
      · omega
  refine ⟨fun h => ?_, ?_, fun hp hr => ?_, fun hr => ?_⟩
  · simp only [State.observe, Bool.or_eq_true, decide_eq_true_eq]
    exact .inr ((hdone.1 h).trans hle)
  · simp only [State.observe, Bool.and_eq_true, beq_iff_eq, Bool.or_eq_false_iff, decide_eq_false_iff_not]
    rw [hhonest, hx.honest, ← hpassed]
    exact and_congr_right hgap
  · simp only [State.observe, Bool.or_eq_false_iff, decide_eq_false_iff_not] at hp hr ⊢
    rw [(hgap hp.1).2 hp.2, hr]
  · have hr : y.realtime = false := hr
    simp only [State.observe, Bool.or_eq_false_iff, decide_eq_false_iff_not]
    rw [hpassed, hmono hr]
    exact ⟨hx.monotonic (hrealtime ▸ hr), by omega⟩

/-! ## The invariant -/

structure Inv (s : State) : Prop where
  sorted : s.timeouts.Pairwise (·.time ≤ ·.time)
  timeouts : ∀ t ∈ s.timeouts, t.sleep < s.count ∧ t.time = (s.sleeps t.sleep).target
  pending : ∀ i < s.count, (s.sleeps i).done = false → ∃ t ∈ s.timeouts, t.sleep = i
  fired : ∀ i < s.count, (s.sleeps i).done = true → (s.sleeps i).target ≤ s.combine
  sleeps : ∀ i < s.count, (s.sleeps i).Ok

/-- After an update no timeout is left that has expired. -/
structure Settled (s : State) : Prop extends Inv s where
  waiting : ∀ t ∈ s.timeouts, s.combine < t.time

variable {s s' : State}

lemma Settled.done_iff (h : Settled s) {i : Nat} (hi : i < s.count) :
    (s.sleeps i).done = true ↔ (s.sleeps i).target ≤ s.combine := by
  refine ⟨h.fired i hi, fun hle => by_contra fun hnot => ?_⟩
  obtain ⟨t, ht, rfl⟩ := h.pending i hi (Bool.eq_false_iff.2 hnot)
  have := h.waiting t ht
  have := (h.timeouts t ht).2
  omega

/-- The clocks go on, or are set. -/
lemma Inv.clocks (h : Inv s) {backend skip : Nat} (offset : Timespec) (hle : s.combine ≤ backend + skip) :
    Inv ⟨backend, skip, offset, s.timeouts, s.count, s.sleeps⟩ :=
  ⟨h.sorted, h.timeouts, h.pending, fun i hi hd => (h.fired i hi hd).trans hle, h.sleeps⟩

lemma Inv.fireClocks (h : Inv s) : Settled s.fireClocks := by
  obtain ⟨hleft, hfire⟩ := fireLoop_spec s.combine s.sleeps h.sorted
  have hmem : ∀ t, t ∈ (State.fireLoop s.combine s.timeouts s.sleeps).1 ↔ t ∈ s.timeouts ∧ s.combine < t.time := by
    simp [hleft]
  have hsorted := h.sorted.filter (s.combine < ·.time)
  rw [← hleft] at hsorted
  have hdone : ∀ i < s.count, ((State.fireLoop s.combine s.timeouts s.sleeps).2 i).done = true ↔
      ((State.fireLoop s.combine s.timeouts s.sleeps).2 i).target ≤ s.combine := by
    intro i hi
    simp only [hfire, Bool.or_eq_true, decide_eq_true_eq]
    constructor
    · rintro (hd | ⟨t, ht, rfl, hle⟩)
      · exact h.fired i hi hd
      · exact (h.timeouts t ht).2 ▸ hle
    · intro hle
      by_cases hd : (s.sleeps i).done = true
      · exact .inl hd
      obtain ⟨t, ht, rfl⟩ := h.pending i hi (Bool.eq_false_iff.2 hd)
      exact .inr ⟨t, ht, rfl, (h.timeouts t ht).2 ▸ hle⟩
  have htarget : ∀ i, (s.fireClocks.sleeps i).target = (s.sleeps i).target := fun i => by
    simp only [State.fireClocks, State.observe, hfire]
  refine ⟨⟨hsorted, fun t ht => ?_, fun i hi hd => ?_, fun i hi => (hdone i hi).1, fun i hi => ?_⟩,
    fun t ht => ((hmem t).1 ht).2⟩
  · rw [htarget]
    exact h.timeouts t ((hmem t).1 ht).1
  · have hd : ((State.fireLoop s.combine s.timeouts s.sleeps).2 i).done = false := hd
    have hold : (s.sleeps i).done = false := by
      rw [hfire] at hd
      exact (Bool.or_eq_false_iff.1 hd).1
    obtain ⟨t, ht, rfl⟩ := h.pending i hi hold
    refine ⟨t, (hmem t).2 ⟨ht, Nat.lt_of_not_le fun hle => ?_⟩, rfl⟩
    have htime : ((State.fireLoop s.combine s.timeouts s.sleeps).2 t.sleep).target ≤ s.combine := by
      rw [hfire]
      exact (h.timeouts t ht).2 ▸ hle
    rw [(hdone _ hi).2 htime] at hd
    cases hd
  · refine (h.sleeps i hi).observe ?_ (fun hd => ?_) (hdone i hi)
    · rw [hfire]
    · rw [hfire]
      simp [hd]

lemma Settled.refresh (h : Settled s) {backend : Nat} {now : Timespec} (hr : s.refresh backend = some (s', now)) :
    Settled s' ∧ now.Normal ∧ now.intoNs = s'.combine := by
  obtain ⟨t, ht, he⟩ := Option.map_eq_some_iff.1 hr
  cases he
  have hle : s.combine ≤ max s.backendOffset backend + s.skipOffset := Nat.add_le_add_right (le_max_left ..) _
  exact ⟨(h.toInv.clocks s.realtimeOffset hle).fireClocks, normal_fromNs ht⟩

/-- A sleep is added that is either over, or has a timeout yet to expire. -/
lemma Settled.start (h : Settled s) {x : Sleep} (hx : x.Ok) (hdone : x.done = true → x.target ≤ s.combine)
    {ts : List Timeout} (hs : ts.Pairwise (·.time ≤ ·.time)) (hpending : x.done = false → ⟨x.target, s.count⟩ ∈ ts)
    (hkept : ∀ t ∈ s.timeouts, t ∈ ts)
    (hnew : ∀ t ∈ ts, t ∈ s.timeouts ∨ t = ⟨x.target, s.count⟩ ∧ s.combine < x.target) :
    Settled { s with timeouts := ts, count := s.count + 1, sleeps := update s.sleeps s.count x } := by
  have hold : ∀ i < s.count, update s.sleeps s.count x i = s.sleeps i :=
    fun i hi => update_of_ne (Nat.ne_of_lt hi) ..
  have hcases : ∀ {i : Nat}, i < s.count + 1 → i < s.count ∨ i = s.count := fun hi => by omega
  refine ⟨⟨hs, fun t ht => ?_, fun i hi hd => ?_, fun i hi hd => ?_, fun i hi => ?_⟩, fun t ht => ?_⟩
  · rcases hnew t ht with ht | ⟨rfl, -⟩
    · obtain ⟨hlt, htime⟩ := h.timeouts t ht
      simp only [hold _ hlt]
      exact ⟨Nat.lt_succ_of_lt hlt, htime⟩
    · simp
  · rcases hcases hi with hi | rfl
    · simp only [hold _ hi] at hd
      obtain ⟨t, ht, rfl⟩ := h.pending i hi hd
      exact ⟨t, hkept t ht, rfl⟩
    · simp only [update_self] at hd
      exact ⟨_, hpending hd, rfl⟩
  · rcases hcases hi with hi | rfl
    · simp only [hold _ hi] at hd ⊢
      exact h.fired i hi hd
    · simp only [update_self] at hd ⊢
      exact hdone hd
  · rcases hcases hi with hi | rfl
    · simp only [hold _ hi]
      exact h.sleeps i hi
    · simp only [update_self]
      exact hx
  · rcases hnew t ht with ht | ⟨rfl, hlt⟩
    · exact h.waiting t ht
    · exact hlt

lemma Settled.addTimeout (h : Settled s) (realtime : Bool) (time : Nat) :
    Settled (s.addTimeout ⟨realtime, time, false, false, false, true, false⟩ time) := by
  have hok : (⟨realtime, time, false, false, false, true, false⟩ : Sleep).Ok :=
    ⟨nofun, ⟨fun _ => rfl, fun _ => rfl⟩, fun _ => nofun, fun _ => rfl⟩
  unfold State.addTimeout
  simp only
  split
  · rename_i hle
    refine h.start (hok.observe rfl (fun _ => rfl) ⟨fun _ => hle, fun _ => rfl⟩) (fun _ => ?_) h.sorted nofun
      (fun _ ht => ht) fun _ ht => .inl ht
    exact hle
  · rename_i hlt
    exact h.start (hok.observe rfl (fun h => h) ⟨nofun, fun hle => absurd hle hlt⟩) nofun (push_sorted h.sorted)
      (fun _ => mem_push.2 (.inl rfl)) (fun _ ht => mem_push.2 (.inr ht)) fun _ ht =>
        (mem_push.1 ht).elim (fun he => .inr ⟨he, Nat.lt_of_not_le hlt⟩) .inl

lemma Settled.interrupt (h : Settled s) (j : Nat) :
    Settled { s with sleeps := update s.sleeps j { s.sleeps j with interrupted := true } } := by
  -- nothing that the invariant is about
  have hsame : ∀ i, ∃ b, update s.sleeps j { s.sleeps j with interrupted := true } i =
      { s.sleeps i with interrupted := b } := by
    intro i
    by_cases hi : i = j
    · subst hi
      exact ⟨true, update_self ..⟩
    · exact ⟨(s.sleeps i).interrupted, update_of_ne hi ..⟩
  refine ⟨⟨h.sorted, fun t ht => ?_, fun i hi hd => ?_, fun i hi hd => ?_, fun i hi => ?_⟩, h.waiting⟩
  · obtain ⟨b, hb⟩ := hsame t.sleep
    simp only [hb]
    exact h.timeouts t ht
  all_goals
    obtain ⟨b, hb⟩ := hsame i
    simp only [hb] at *
  · exact h.pending i hi hd
  · exact h.fired i hi hd
  · have hok := h.sleeps i hi
    exact ⟨hok.reached, hok.honest, hok.done, hok.monotonic⟩

lemma Settled.next {a : Act} (h : Settled s) (hn : next s a = some s') : Settled s' := by
  cases a with
  | now realtime backend =>
    obtain ⟨⟨s1, now⟩, hr, hn⟩ := Option.bind_eq_some_iff.1 hn
    have hs1 := (h.refresh hr).1
    cases realtime with
    | false =>
      cases hn
      exact hs1
    | true =>
      obtain ⟨-, -, rfl⟩ := Option.map_eq_some_iff.1 hn
      exact hs1
  | setRealTime time backend =>
    obtain ⟨⟨s1, now⟩, hr, hn⟩ := Option.bind_eq_some_iff.1 hn
    cases hn
    have hs1 := (h.refresh hr).1
    exact ⟨hs1.toInv.clocks _ le_rfl, hs1.waiting⟩
  | sleep realtime abstime request backend =>
    cases abstime with
    | true =>
      cases hn
      exact h.addTimeout realtime request.intoNs
    | false =>
      obtain ⟨⟨s1, now⟩, hr, hn⟩ := Option.bind_eq_some_iff.1 hn
      obtain ⟨deadline, hadd, hn⟩ := Option.bind_eq_some_iff.1 hn
      obtain ⟨hs1, -, hnow⟩ := h.refresh hr
      cases hn
      rw [← hnow, ← intoNs_add hadd]
      exact hs1.addTimeout false deadline.intoNs
  | interrupt i =>
    cases hn
    exact h.interrupt i
  | advance t =>
    obtain ⟨-, hn⟩ := Option.ite_none_right_eq_some.1 hn
    cases hn
    have hle : s.combine ≤ s.backendOffset + (s.skipOffset + (t.time - s.combine)) := by
      unfold State.combine
      omega
    exact (h.toInv.clocks s.realtimeOffset hle).fireClocks

lemma settled_reachable (h : system.Reachable s) : Settled s := by
  refine LTS.Inductive.reachable ⟨?_, fun _ _ _ hs hn => hs.next hn⟩ s h
  rintro s rfl
  exact ⟨⟨.nil, nofun, fun i hi => absurd hi (Nat.not_lt_zero i), fun i hi => absurd hi (Nat.not_lt_zero i),
    fun i hi => absurd hi (Nat.not_lt_zero i)⟩, nofun⟩

/-- A relative sleep is accepted exactly if its end has less than 2 ^ 32 seconds. -/
lemma sleep_returns (h : Settled s) {request : Timespec} (hrequest : request.Normal) (realtime : Bool) (backend : Nat) :
    (next s (.sleep realtime false request backend)).isSome ↔
      max s.backendOffset backend + s.skipOffset + request.intoNs < 2 ^ 32 * 10 ^ 9 := by
  have hcombine : (State.fireClocks { s with backendOffset := max s.backendOffset backend }).combine =
      max s.backendOffset backend + s.skipOffset := rfl
  cases hr : s.refresh backend with
  | none =>
    have hnone := Option.map_eq_none_iff.1 hr
    simp only [fromNs, hcombine] at hnone
    split at hnone
    · cases hnone
    simp only [next, hr, Option.bind_eq_bind, Option.bind_none]
    simp
    omega
  | some r =>
    obtain ⟨s1, now⟩ := r
    obtain ⟨-, hnormal, hnow⟩ := h.refresh hr
    have hs1 : s1.combine = max s.backendOffset backend + s.skipOffset := by
      obtain ⟨t, ht, he⟩ := Option.map_eq_some_iff.1 hr
      cases he
      exact hcombine
    rw [← hs1, ← hnow, ← not_le, ← hnormal.add_eq_none hrequest, Option.isSome_iff_ne_none, ne_eq, not_iff_not]
    cases hadd : now.add request <;> simp [next, hr, hadd]

/-- In every history: the timeout of a sleep is fired exactly if the monotonic clock has got to its time, and never
before its own clock has; at every update so far the sleep was over exactly if its clock had shown the time, unless
that is the real-time clock and at some update the time lay between the two clocks. A relative sleep of any normal time
is one on the monotonic clock, if its end has less than 2 ^ 32 seconds, and otherwise panics. -/
theorem sleep_iff (h : system.Reachable s) :
    (∀ i < s.count, ((s.sleeps i).done = true ↔ (s.sleeps i).target ≤ s.combine) ∧
      ((s.sleeps i).done = true → (s.sleeps i).reached = true) ∧
      ((s.sleeps i).honest = true ↔ (s.sleeps i).passed = false) ∧
      ((s.sleeps i).realtime = false → (s.sleeps i).honest = true)) ∧
    ∀ (realtime : Bool) (request : Timespec) (backend : Nat), request.Normal →
      ((next s (.sleep realtime false request backend)).isSome ↔
        max s.backendOffset backend + s.skipOffset + request.intoNs < 2 ^ 32 * 10 ^ 9) := by
  have hs := settled_reachable h
  refine ⟨fun i hi => ?_, fun realtime request backend hr => sleep_returns hs hr realtime backend⟩
  have hok := hs.sleeps i hi
  exact ⟨hs.done_iff hi, hok.reached, hok.honest, fun hr => hok.honest.2 (hok.monotonic hr)⟩

/-- Two sleeps on the real-time clock, set to 11 s at 1 s, until 20 s and 30 s: the first is late. -/
theorem sleep_iff_realtime : ∃ s, system.Reachable s ∧ s.count = 2 ∧ (s.sleeps 0).honest = false ∧
    (s.sleeps 0).passed = true ∧ (s.sleeps 1).honest = true := by
  have hrun : ((LTS.runFn next .new [.setRealTime ⟨11, 0⟩ 0, .sleep true true ⟨20, 0⟩ 0, .sleep true true ⟨30, 0⟩ 0,
      .now true (12 * 10 ^ 9)]).any fun s => decide (s.count = 2 ∧ (s.sleeps 0).passed = true ∧
        (s.sleeps 1).passed = false)) = true := by decide +kernel
  obtain ⟨s, hs, hp⟩ := (Option.any_eq_true _ _).1 hrun
  obtain ⟨hcount, h0, h1⟩ := of_decide_eq_true hp
  have hreach : system.Reachable s := ⟨_, _, rfl, LTS.runFn_run hs⟩
  have hfirst := ((sleep_iff hreach).1 0 (by omega)).2.2.1
  have hsecond := ((sleep_iff hreach).1 1 (by omega)).2.2.1
  refine ⟨s, hreach, hcount, Bool.eq_false_iff.2 fun hh => ?_, h0, hsecond.2 h1⟩
  rw [hfirst.1 hh] at h0
  cases h0

/-- The real-time clock is set to 11 s at 1 s: a sleep until 5 s goes on at the next update. One of 2 ^ 32 - 1 s
panics. -/
theorem sleep_wrong :
    ∃ s, LTS.runFn next .new [.setRealTime ⟨11, 0⟩ 0, .sleep true true ⟨5, 0⟩ 0, .now true 0] = some s ∧
    5 * 10 ^ 9 ≤ s.reading true ∧ (s.sleeps 0).done = false ∧
    (next s (.sleep false false ⟨2 ^ 32 - 1, 0⟩ 0)).isSome = false := by
  have hrun : ((LTS.runFn next .new [.setRealTime ⟨11, 0⟩ 0, .sleep true true ⟨5, 0⟩ 0, .now true 0]).any fun s =>
      decide (5 * 10 ^ 9 ≤ s.reading true ∧ (s.sleeps 0).done = false ∧
        (next s (.sleep false false ⟨2 ^ 32 - 1, 0⟩ 0)).isSome = false)) = true := by decide +kernel
  obtain ⟨s, hs, hp⟩ := (Option.any_eq_true _ _).1 hrun
  exact ⟨s, hs, of_decide_eq_true hp⟩

end Mushroom.L6.Time
