import Mathlib

/-!
# Ledgers

A finite family of parties, each with a balance; `total` is the sum. When one
party changes, the total changes by what that party's balance changes
(`total_update`): an invariant between shared state and the balances of all
parties is kept if the step moves the same amount on both sides. What one party
has no other party can have beyond the total (`add_le_total`).
-/
namespace Mushroom.Ledger
open Function Finset
open Finset (range)

variable {ι κ σ : Type*} [Fintype ι] [Fintype κ]

def total (f : σ → ℕ) (m : ι → σ) : ℕ := ∑ i, f (m i)

variable (f : σ → ℕ) (m : ι → σ)

lemma le_total (i : ι) : f (m i) ≤ total f m :=
  single_le_sum (f := fun i => f (m i)) (fun _ _ => Nat.zero_le _) (mem_univ i)

variable {τ : Type*}

lemma total_congr {g : τ → ℕ} {n : ι → τ} (h : ∀ i, f (m i) = g (n i)) : total f m = total g n :=
  sum_congr rfl fun i _ => h i

lemma total_le_card (h : ∀ i, f (m i) ≤ 1) : total f m ≤ Fintype.card ι := by
  calc total f m ≤ ∑ _i : ι, 1 := sum_le_sum fun i _ => h i
    _ = Fintype.card ι := by simp

lemma total_eq_zero_iff : total f m = 0 ↔ ∀ i, f (m i) = 0 := by simp [total]

lemma total_mono {g : τ → ℕ} {n : ι → τ} (h : ∀ i, f (m i) ≤ g (n i)) : total f m ≤ total g n :=
  sum_le_sum fun i _ => h i

lemma total_lt {g : σ → ℕ} (h : ∀ j, f (m j) ≤ g (m j)) {i : ι} (hi : f (m i) < g (m i)) : total f m < total g m :=
  sum_lt_sum (fun j _ => h j) ⟨i, mem_univ i, hi⟩

lemma total_add (g : σ → ℕ) : total (fun x => f x + g x) m = total f m + total g m := sum_add_distrib

lemma total_mul (n : ℕ) : total (fun x => n * f x) m = n * total f m := (mul_sum ..).symm

lemma total_sum (g : κ → σ → ℕ) : total (fun x => ∑ k, g k x) m = ∑ k, total (g k) m := sum_comm

variable [DecidableEq ι]

lemma total_update (i : ι) (x : σ) : total f (Function.update m i x) + f (m i) = total f m + f x := by
  have hsplit : ∀ n : ι → σ, total f n = f (n i) + ∑ j ∈ Finset.univ.erase i, f (n j) := fun n =>
    (add_sum_erase _ _ (mem_univ i)).symm
  have hrest : ∑ j ∈ Finset.univ.erase i, f (Function.update m i x j) = ∑ j ∈ Finset.univ.erase i, f (m j) :=
    sum_congr rfl fun j hj => by rw [update_of_ne (ne_of_mem_erase hj)]
  rw [hsplit, hsplit m, hrest, update_self]
  omega

lemma add_le_total {i j : ι} (h : i ≠ j) : f (m i) + f (m j) ≤ total f m := by
  have hj : j ∈ Finset.univ.erase i := mem_erase.2 ⟨h.symm, mem_univ j⟩
  rw [total, ← add_sum_erase _ _ (mem_univ i)]
  exact Nat.add_le_add_left
    (single_le_sum (f := fun i => f (m i)) (fun _ _ => Nat.zero_le _) hj) _

/-! Parties that come one by one: the first `n` of them. -/

section

variable (f : σ → ℕ) (m : ℕ → σ) (n : ℕ)

def upTo : ℕ := ∑ i ∈ range n, f (m i)

lemma upTo_succ : upTo f m (n + 1) = upTo f m n + f (m n) := sum_range_succ ..

variable {n} {i : ℕ}

lemma upTo_update (hi : i < n) (x : σ) : upTo f (Function.update m i x) n + f (m i) = upTo f m n + f x := by
  have hmem : i ∈ range n := mem_range.2 hi
  have hsplit : ∀ k : ℕ → σ, upTo f k n = f (k i) + ∑ j ∈ (range n).erase i, f (k j) := fun k =>
    (add_sum_erase _ _ hmem).symm
  have hrest : ∑ j ∈ (range n).erase i, f (Function.update m i x j) = ∑ j ∈ (range n).erase i, f (m j) :=
    sum_congr rfl fun j hj => by rw [update_of_ne (ne_of_mem_erase hj)]
  rw [hsplit, hsplit m, hrest, update_self]
  omega

lemma upTo_update_of_le (hi : n ≤ i) (x : σ) : upTo f (Function.update m i x) n = upTo f m n :=
  sum_congr rfl fun j hj => by rw [update_of_ne (Nat.ne_of_lt (Nat.lt_of_lt_of_le (mem_range.1 hj) hi))]

lemma le_upTo (hi : i < n) : f (m i) ≤ upTo f m n :=
  single_le_sum (f := fun i => f (m i)) (fun _ _ => Nat.zero_le _) (mem_range.2 hi)

lemma add_le_upTo {j : ℕ} (hi : i < n) (hj : j < n) (h : i ≠ j) : f (m i) + f (m j) ≤ upTo f m n := by
  have hmem : j ∈ (range n).erase i := mem_erase.2 ⟨h.symm, mem_range.2 hj⟩
  rw [upTo, ← add_sum_erase _ _ (mem_range.2 hi)]
  exact Nat.add_le_add_left
    (single_le_sum (f := fun i => f (m i)) (fun _ _ => Nat.zero_le _) hmem) _

lemma upTo_add (g : σ → ℕ) (n : ℕ) : upTo (fun x => f x + g x) m n = upTo f m n + upTo g m n := sum_add_distrib

lemma upTo_congr {g : σ → ℕ} (h : ∀ i < n, f (m i) = g (m i)) : upTo f m n = upTo g m n :=
  sum_congr rfl fun i hi => h i (mem_range.1 hi)

lemma length_filter_range (P : σ → Bool) (n : ℕ) :
    ((List.range n).filter fun i => P (m i)).length = upTo (fun x => (P x).toNat) m n := by
  induction n with
  | zero => rfl
  | succ n ih =>
    rw [List.range_succ, List.filter_append, List.length_append, ih, upTo_succ]
    cases h : P (m n) <;> simp [h]

end

end Mushroom.Ledger
