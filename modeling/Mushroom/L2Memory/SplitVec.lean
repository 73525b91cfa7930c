import Mathlib

/-!
# Split vectors

`kernel/user/process/memory.rs:1025-1097`. The pieces of a `SplitVec` share its storage;
`dropped` lists the indices of the elements dropped so far.
-/
namespace Mushroom.L2
open Function List

structure SplitVec where
  offset : Nat
  len : Nat

namespace SplitVec

/-- The indices of the entries in the storage. -/
def entries (p : SplitVec) : List Nat := range' p.offset p.len

def splitOff (p : SplitVec) (k : Nat) : Option (SplitVec × SplitVec) :=
  if k ≤ p.len then some (⟨p.offset, k⟩, ⟨p.offset + k, p.len - k⟩) else none

structure Storage (α : Type) where
  data : Nat → α
  pieces : List SplitVec
  dropped : List Nat

variable {α : Type}

def new (n : Nat) (x : α) : Storage α := ⟨fun _ => x, [⟨0, n⟩], []⟩

/-- What `get_mut` of a piece refers to. -/
def get (p : SplitVec) (d : Nat → α) (i : Nat) : Option α := p.entries[i]?.map d

inductive Step : Storage α → Storage α → Prop where
  | splitOff {d pre p post l k a b} (h : p.splitOff k = some (a, b)) :
      Step ⟨d, pre ++ p :: post, l⟩ ⟨d, pre ++ a :: b :: post, l⟩
  | set {d pre p post l j} (h : j ∈ p.entries) (x : α) :
      Step ⟨d, pre ++ p :: post, l⟩ ⟨update d j x, pre ++ p :: post, l⟩
  | drop {d pre p post l} : Step ⟨d, pre ++ p :: post, l⟩ ⟨d, pre ++ post, l ++ p.entries⟩

lemma splitOff_entries {p a b : SplitVec} {k : Nat} (h : p.splitOff k = some (a, b)) :
    p.entries = a.entries ++ b.entries ∧ a.entries.length = k := by
  obtain ⟨hk, he⟩ := Option.ite_none_right_eq_some.1 h
  cases he
  simp [entries, range'_append_1, hk]

variable {n : Nat} {x : α} {s : Storage α}

/-- Every index is in one piece or was dropped. -/
lemma perm_range (h : Relation.ReflTransGen Step (new n x) s) : s.pieces.flatMap entries ++ s.dropped ~ range n := by
  induction h with
  | refl => simp [new, entries, range_eq_range']
  | tail _ hst ih =>
    refine .trans ?_ ih
    cases hst with
    | splitOff h => simp [(splitOff_entries h).1]
    | set => rfl
    | drop =>
      simp only [flatMap_append, flatMap_cons, append_assoc, perm_append_left_iff]
      rw [← append_assoc]
      exact perm_append_comm

/-- With no piece left, every element was dropped once. -/
theorem splitVec_run (h : Relation.ReflTransGen Step (new n x) s) :
    s.pieces.Pairwise (fun p q => p.entries.Disjoint q.entries) ∧
      (∀ p k a b i, splitOff p k = some (a, b) → b.get s.data i = p.get s.data (k + i)) ∧
      (∀ pre p post, s.pieces = pre ++ p :: post → ∀ j ∈ p.entries, ∀ y, ∀ q ∈ pre ++ post,
        q.get (update s.data j y) = q.get s.data) ∧
      s.pieces.flatMap entries ++ s.dropped ~ range n := by
  have hp := perm_range h
  have hpw := (nodup_flatMap.1 (nodup_append'.1 (hp.nodup_iff.2 nodup_range)).1).2
  refine ⟨hpw, fun p k a b i hs => ?_, fun pre p post he j hj y q hq => ?_, hp⟩
  · obtain ⟨he, hl⟩ := splitOff_entries hs
    rw [get, get, he, ← hl, List.getElem?_append_right (by omega), Nat.add_sub_cancel_left]
  rw [he, pairwise_middle fun h => h.symm] at hpw
  funext i
  refine Option.map_congr fun k hk => update_of_ne ?_ ..
  rintro rfl
  exact (pairwise_cons.1 hpw).1 q hq hj (mem_of_getElem? hk)

theorem splitVec_run_two : ([⟨0, 1⟩, ⟨1, 1⟩] : List SplitVec).Pairwise (fun p q => p.entries.Disjoint q.entries) :=
  (splitVec_run (.single (@Step.splitOff _ (fun _ => 0) [] ⟨0, 2⟩ [] [] 1 _ _ rfl))).1

end SplitVec

end Mushroom.L2
