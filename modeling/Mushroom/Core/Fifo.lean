import Mushroom.Core.LTS

/-!
# Bounded first-in first-out queues

The queue that one producer and one consumer share. A `call` to push ends with
the element behind the others (`pushed`) or, when its weight does not fit, with
`full` and nothing changed. The consumer hands on the oldest element (`dispatch`)
and frees its room when it is done with it (`complete`). The state keeps the
history: what was pushed, and how much of it was dispatched and completed.

`LTS.Flow` is the same order for any system with a queue in its state.
-/
namespace Mushroom
open List

structure Fifo (α : Type) where
  /-- The element of the push in progress. -/
  calling : Option α
  /-- Every element pushed so far, oldest first. -/
  pushed : List α
  (dispatched completed : Nat)

namespace Fifo

variable {α : Type} {q' : Fifo α}

inductive Event (α : Type) where
  | call (a : α)
  | pushed (a : α)
  | full (a : α)
  | dispatch (a : α)
  | complete

def new : Fifo α := ⟨none, [], 0, 0⟩

def queue (q : Fifo α) : List α := q.pushed.drop q.completed

def weigh (w : α → Nat) (l : List α) : Nat := (l.map w).sum

@[simp] lemma weigh_nil (w : α → Nat) : weigh w [] = 0 := rfl

@[simp] lemma weigh_cons (w : α → Nat) (a : α) (l : List α) : weigh w (a :: l) = w a + weigh w l := by simp [weigh]

@[simp] lemma weigh_append (w : α → Nat) (l1 l2 : List α) : weigh w (l1 ++ l2) = weigh w l1 + weigh w l2 := by
  simp [weigh]

def load (w : α → Nat) (q : Fifo α) : Nat := weigh w q.queue

inductive Step (w : α → Nat) (cap : Nat) : Fifo α → Option (Event α) → Fifo α → Prop where
  | silent (q : Fifo α) : Step w cap q none q
  | call {q : Fifo α} (a : α) : q.calling = none → Step w cap q (some (.call a)) { q with calling := some a }
  | pushed {q : Fifo α} {a : α} : q.calling = some a → q.load w + w a ≤ cap →
      Step w cap q (some (.pushed a)) { q with calling := none, pushed := q.pushed ++ [a] }
  | full {q : Fifo α} {a : α} : q.calling = some a → cap < q.load w + w a →
      Step w cap q (some (.full a)) { q with calling := none }
  | dispatch {q : Fifo α} {a : α} : q.dispatched = q.completed → q.queue.head? = some a →
      Step w cap q (some (.dispatch a)) { q with dispatched := q.dispatched + 1 }
  | complete {q : Fifo α} : q.dispatched = q.completed + 1 →
      Step w cap q (some .complete) { q with completed := q.completed + 1 }

def system (w : α → Nat) (cap : Nat) : LTS (Fifo α) (Option (Event α)) where
  init q := q = new
  step := Step w cap

/-- What is completed was dispatched, what is dispatched was pushed, and one element is handled at a time. -/
structure Ok (q : Fifo α) : Prop where
  completed_le : q.completed ≤ q.dispatched
  dispatched_le : q.dispatched ≤ q.pushed.length
  one : q.dispatched ≤ q.completed + 1

lemma new_ok : (new : Fifo α).Ok := ⟨Nat.le_refl _, Nat.le_refl _, Nat.zero_le _⟩

variable {q : Fifo α} {w : α → Nat} {cap : Nat}

lemma head?_queue {a : α} (h : q.queue.head? = some a) :
    q.completed < q.pushed.length ∧ q.pushed[q.completed]? = some a := by
  have hget : q.pushed[q.completed]? = some a := by rw [← h, queue, List.head?_drop]
  exact ⟨(List.getElem?_eq_some_iff.1 hget).1, hget⟩

lemma Step.ok {l : Option (Event α)} (h : Step w cap q l q') (hq : q.Ok) : q'.Ok := by
  obtain ⟨h1, h2, h3⟩ := hq
  cases h with
  | silent | call | full => exact ⟨h1, h2, h3⟩
  | pushed =>
    refine ⟨h1, ?_, h3⟩
    simp only [length_append, length_singleton]
    omega
  | dispatch hd hh =>
    have hlt := (head?_queue hh).1
    constructor <;> simp only <;> omega
  | complete hd => constructor <;> simp only <;> omega

/-! ## The history in a run's events -/

def pushes : List (Option (Event α)) → List α
  | [] => []
  | some (.pushed a) :: ls => a :: pushes ls
  | _ :: ls => pushes ls

def dispatches : List (Option (Event α)) → List α
  | [] => []
  | some (.dispatch a) :: ls => a :: dispatches ls
  | _ :: ls => dispatches ls

def completions : List (Option (Event α)) → Nat
  | [] => 0
  | some .complete :: ls => completions ls + 1
  | _ :: ls => completions ls

variable {ls : List (Option (Event α))}

lemma run_history (h : (system w cap).Run q ls q') (hq : q.Ok) : q'.Ok ∧ q'.pushed = q.pushed ++ pushes ls ∧
      q'.pushed.take q'.dispatched = q.pushed.take q.dispatched ++ dispatches ls ∧
      q'.completed = q.completed + completions ls := by
  induction h with
  | nil => simp [hq, pushes, dispatches, completions]
  | cons hst _ ih =>
    obtain ⟨hok, hp, hd, hc⟩ := ih (Step.ok hst hq)
    refine ⟨hok, ?_, ?_, ?_⟩
    · rw [hp]
      cases hst <;> simp [pushes]
    · rw [hd]
      cases hst with
      | silent | call | full | complete => simp [dispatches]
      | pushed => simp [dispatches, take_append_of_le_length hq.dispatched_le]
      | dispatch he hh =>
        obtain ⟨hlt, hget⟩ := head?_queue hh
        simp [dispatches, he, take_add_one, hget]
    · rw [hc]
      cases hst <;> simp [completions]
      omega

/-- What was dispatched is what was pushed first, in the same order. -/
lemma dispatches_prefix (h : (system w cap).Run new ls q) : dispatches ls <+: pushes ls := by
  obtain ⟨-, hp, hd, -⟩ := run_history h new_ok
  have hp' : q.pushed = pushes ls := by simpa [new] using hp
  have hd' : q.pushed.take q.dispatched = dispatches ls := by simpa [new] using hd
  rw [← hp', ← hd']
  exact take_prefix _ _

end Fifo

/-! ## Flow -/

section

variable {S L α : Type}

/-- What the steps take in joins the queue at its end, and what they give out leaves its front. -/
def LTS.Flow (M : LTS S L) (queue : S → List α) (ins outs : L → List α) : Prop :=
  ∀ s l s', M.step s l s' → queue s ++ ins l = outs l ++ queue s'

lemma LTS.Flow.run {M : LTS S L} {queue : S → List α} {ins outs : L → List α} (h : M.Flow queue ins outs) {s s' : S}
    {ls : List L} (hr : M.Run s ls s') : queue s ++ ls.flatMap ins = ls.flatMap outs ++ queue s' := by
  induction hr with
  | nil => simp
  | cons hst _ ih => rw [flatMap_cons, flatMap_cons, ← append_assoc, h _ _ _ hst, append_assoc, ih, append_assoc]

end

end Mushroom
