import Mushroom.Core.LTS
import Mushroom.Core.Ledger

/-!
# The read-write lock

A reader adds 1 to the word before it knows whether the lock is free, also while
a writer holds it, and resets the word to `i64::MIN` by compare-exchange
(`reload`). A thread that has added and not come to the end of `reload` is
`Busy`; while a writer holds the lock, the word is at most the number of busy
threads above `i64::MIN` (`LockInv.held`).

Guards may be sent to other threads. A live guard is a reference in a 64-bit
address space, so fewer than 2^61 are live at a time.
-/
namespace Mushroom.L4.RwLock

open Function Ledger

def min : Int := -2 ^ 63

/-- kernel/spin/rwlock.rs:11 -/
def reloadLimit : Int := -2 ^ 62

/-- An `i64` after `fetch_add` or `fetch_sub` of 1. -/
def wrap (x : Int) : Int := if x = 2 ^ 63 then -2 ^ 63 else if x = -2 ^ 63 - 1 then 2 ^ 63 - 1 else x

/-- A thread between calls, before the load of `reload`, or before its compare-exchange. -/
inductive Pc where
  | idle
  | load
  | exchange (value : Int)
  deriving DecidableEq

structure State (ι : Type) where
  word : Int
  (readers writers : Nat)
  pcs : ι → Pc

inductive Act where
  | tryRead
  | tryWrite
  | reload
  | dropRead
  | dropWrite

/-- The `match` of the loop in `reload`. rwlock.rs:64-81 -/
def look (value : Int) : Pc := if 0 ≤ value then .idle else if value ≤ reloadLimit then .exchange value else .idle

variable {ι : Type} [DecidableEq ι]

/-- One atomic step of thread `i`.
rwlock.rs:47-55,59-81,113-118,180,202 -/
def next (s : State ι) (i : ι) : Act → Option (State ι)
  | .tryRead =>
    if s.pcs i = .idle then
      if 0 ≤ s.word then some { s with word := wrap (s.word + 1), readers := s.readers + 1 }
      else if s.word ≤ reloadLimit then some { s with word := wrap (s.word + 1), pcs := update s.pcs i .load }
      else some { s with word := wrap (s.word + 1) }
    else none
  | .tryWrite =>
    if s.pcs i = .idle then
      if s.word = 0 then some { s with word := min, writers := s.writers + 1 } else some s
    else none
  | .reload =>
    match s.pcs i with
    | .idle => none
    | .load => some { s with pcs := update s.pcs i (look s.word) }
    | .exchange value =>
      if s.word = value then some { s with word := min, pcs := update s.pcs i .idle }
      else some { s with pcs := update s.pcs i (look s.word) }
  | .dropRead =>
    if s.pcs i = .idle ∧ 0 < s.readers then some { s with word := wrap (s.word - 1), readers := s.readers - 1 }
    else none
  | .dropWrite => if s.pcs i = .idle ∧ 0 < s.writers then some { s with word := 0, writers := s.writers - 1 } else none

/-- Any interleaving of the threads, as long as there is memory for a further guard. -/
def system (ι : Type) [DecidableEq ι] : LTS (State ι) (ι × Act) :=
  (LTS.ofFn (· = ⟨0, 0, 0, fun _ => .idle⟩) fun s l => next s l.1 l.2).only fun s _ => s.readers < 2 ^ 61

/-! ## The invariant -/

variable {s s' : State ι} {i : ι}

lemma look_eq_exchange {value w : Int} (h : look w = .exchange value) : value ≤ reloadLimit := by
  unfold look at h
  split at h
  · cases h
  split at h
  · cases h
    assumption
  · cases h

lemma wrap_eq {x : Int} (hlo : -2 ^ 63 ≤ x) (hhi : x < 2 ^ 63) : wrap x = x := by
  unfold wrap
  rw [if_neg (by omega), if_neg (by omega)]

/-- 1 for a thread that has added to the word and may reset it. -/
def busy (pc : Pc) : Nat := if pc = .idle then 0 else 1

variable [Fintype ι]

structure LockInv (s : State ι) : Prop where
  exchange : ∀ i value, s.pcs i = .exchange value → value ≤ reloadLimit
  free : s.writers = 0 → s.word = s.readers
  held : 0 < s.writers → s.writers = 1 ∧ s.readers = 0 ∧ min ≤ s.word ∧ s.word ≤ min + total busy s.pcs

omit [DecidableEq ι] in
lemma total_busy_le (pcs : ι → Pc) : total busy pcs ≤ Fintype.card ι := by
  refine total_le_card _ _ fun i => ?_
  unfold busy
  split <;> omega

/-- A thread goes on in `reload`, and the word may have changed. -/
lemma LockInv.move (h : LockInv s) {pc : Pc} {word : Int} (hpc : ∀ value, pc = .exchange value → value ≤ reloadLimit)
    (hfree : s.writers = 0 → word = s.readers)
    (hheld : 0 < s.writers → min ≤ word ∧ word ≤ min + total busy (update s.pcs i pc)) :
    LockInv { s with word := word, pcs := update s.pcs i pc } := by
  refine ⟨?_, hfree, fun hw => ⟨(h.held hw).1, (h.held hw).2.1, hheld hw⟩⟩
  simp only
  intro j value hj
  by_cases hji : j = i
  · rw [hji, update_self] at hj
    exact hpc value hj
  · rw [update_of_ne hji] at hj
    exact h.exchange j value hj

section

variable (h : LockInv s) (hcard : Fintype.card ι ≤ 2 ^ 61)
include h hcard

/-- What a thread sees of a held lock makes it go on. -/
lemma LockInv.look (hpc : s.pcs i ≠ .idle) :
    LockInv { s with pcs := update s.pcs i (look s.word) } := by
  refine h.move (fun value => look_eq_exchange) h.free fun hw => ?_
  have hheld := (h.held hw).2.2
  have hbusy := total_busy_le s.pcs
  have hupdate := total_update busy s.pcs i (RwLock.look s.word)
  have hlook : RwLock.look s.word = .exchange s.word := by
    simp only [min] at hheld
    rw [RwLock.look, if_neg (by omega), if_pos (by simp only [reloadLimit]; omega)]
  rw [hlook] at hupdate ⊢
  simp only [busy, if_neg hpc, reduceCtorEq, if_false] at hupdate
  omega

lemma LockInv.tryRead (hmem : s.readers < 2 ^ 61)
    (hs : next s i .tryRead = some s') : LockInv s' := by
  obtain ⟨hidle, hs⟩ := Option.ite_none_right_eq_some.1 hs
  have hfree := h.free
  have hbusy := total_busy_le s.pcs
  by_cases hw : 0 < s.writers
  · -- the word is below the limit, and the thread becomes busy
    have hheld := (h.held hw).2.2
    have hupdate := total_update busy s.pcs i .load
    rw [hidle] at hupdate
    simp only [min] at hheld
    rw [if_neg (by omega), if_pos (by simp only [reloadLimit]; omega)] at hs
    cases hs
    rw [wrap_eq (by omega) (by omega)]
    refine h.move nofun (by omega) fun _ => ?_
    simp only [busy, if_true, reduceCtorEq, if_false] at hupdate hheld ⊢
    simp only [min]
    omega
  · have hword := hfree (by omega)
    rw [if_pos (by omega)] at hs
    cases hs
    refine ⟨h.exchange, fun _ => ?_, fun hw' => absurd hw' hw⟩
    simp only
    rw [wrap_eq (by omega) (by omega)]
    omega

lemma LockInv.step {a : Act} (hmem : s.readers < 2 ^ 61)
    (hs : next s i a = some s') : LockInv s' := by
  have hfree := h.free
  have hheld := h.held
  cases a with
  | tryRead => exact h.tryRead hcard hmem hs
  | tryWrite =>
    obtain ⟨-, hs⟩ := Option.ite_none_right_eq_some.1 hs
    split at hs
    · rename_i hzero
      cases hs
      have hw : s.writers = 0 := by
        by_contra hne
        have hlow := (hheld (by omega)).2.2.2
        have hbusy := total_busy_le s.pcs
        simp only [min] at hlow
        omega
      have hreaders := hfree hw
      refine ⟨h.exchange, nofun, fun _ => ⟨by simp only; omega, by simp only; omega, le_rfl, ?_⟩⟩
      simp only
      omega
    · cases hs
      exact h
  | reload =>
    simp only [next] at hs
    split at hs
    · cases hs
    · rename_i hpc
      cases hs
      exact h.look hcard (by rw [hpc]; nofun)
    rename_i value hpc
    split at hs
    · rename_i hsame
      cases hs
      have hlimit := h.exchange i value hpc
      simp only [reloadLimit] at hlimit
      refine h.move nofun (fun hw => ?_) fun _ => ⟨le_rfl, by omega⟩
      have := hfree hw
      omega
    · cases hs
      exact h.look hcard (by rw [hpc]; nofun)
  | dropRead =>
    obtain ⟨⟨-, hpos⟩, hs⟩ := Option.ite_none_right_eq_some.1 hs
    cases hs
    have hw : s.writers = 0 := by
      by_contra hne
      have := (hheld (by omega)).2.1
      omega
    have hword := hfree hw
    refine ⟨h.exchange, fun _ => ?_, fun hw' => absurd hw (Nat.ne_of_gt hw')⟩
    simp only
    rw [wrap_eq (by omega) (by omega)]
    omega
  | dropWrite =>
    obtain ⟨⟨-, hpos⟩, hs⟩ := Option.ite_none_right_eq_some.1 hs
    cases hs
    obtain ⟨hone, hreaders, -⟩ := hheld hpos
    refine ⟨h.exchange, fun _ => by simp only [hreaders]; rfl, fun hw => ?_⟩
    simp only [hone] at hw
    omega

end

/-- In every interleaving of at most 2^61 threads: a write guard is the only guard and the word is
negative, and without one the word is the number of read guards. -/
theorem rwlock_exclusive (hcard : Fintype.card ι ≤ 2 ^ 61) (s : State ι) (h : (system ι).Reachable s) :
    (0 < s.writers → s.writers = 1 ∧ s.readers = 0 ∧ s.word < 0) ∧ (s.writers = 0 → s.word = s.readers) := by
  have hind : (system ι).Inductive LockInv := by
    refine ⟨fun s hs => ?_, fun s l s' hinv hs => hinv.step hcard hs.1 hs.2⟩
    cases hs
    exact ⟨nofun, fun _ => rfl, nofun⟩
  have hinv := hind.reachable s h
  refine ⟨fun hw => ?_, hinv.free⟩
  obtain ⟨hone, hreaders, -, hle⟩ := hinv.held hw
  have hbusy := total_busy_le s.pcs
  simp only [min] at hle
  exact ⟨hone, hreaders, by omega⟩

/-- A thread has the write guard, and another one that wants to read has added 1 to the word. -/
theorem rwlock_exclusive_held : ∃ s, (system Bool).Reachable s ∧ s.pcs true = .load ∧
    s.writers = 1 ∧ s.readers = 0 ∧ s.word < 0 := by
  have hreach : (system Bool).Reachable ⟨min + 1, 0, 1, update (fun _ => .idle) true .load⟩ :=
    ⟨_, [(false, .tryWrite), (true, .tryRead)], rfl, .via ⟨min, 0, 1, fun _ => .idle⟩ ⟨by decide, rfl⟩
      (.cons ⟨by decide, rfl⟩ (.nil _))⟩
  exact ⟨_, hreach, rfl, (rwlock_exclusive (by decide) _ hreach).1 (by decide)⟩

end Mushroom.L4.RwLock
