import Mathlib

/-!
# Strings in a ring

A ring of `n` cells read and written through indices that go back to 0 at the
end. Positions are counted without ever going back: position `k` is in cell
`k % n`. `At n buf k l` says that the string `l` lies in the ring from position
`k` on; storing outside of it leaves it there (`At.store`).
-/
namespace Mushroom.Ring

variable {α : Type}

def next (n i : Nat) : Nat := if i + 1 = n then 0 else i + 1

variable {n k : Nat}

/-- Positions less than `n` apart are in different cells. -/
lemma mod_ne {d : Nat} (hd : 0 < d) (hn : d < n) : (k + d) % n ≠ k % n := by
  intro he
  have h0 : (k + d - k) % n = 0 := Nat.sub_mod_eq_zero_of_mod_eq he
  rw [Nat.add_sub_cancel_left, Nat.mod_eq_of_lt hn] at h0
  omega

/-- The cell of a position up to `n` further, by one comparison. -/
lemma add_mod_cases {d : Nat} (hd : d < n) :
    (k % n + d < n ∧ (k + d) % n = k % n + d) ∨ (n ≤ k % n + d ∧ (k + d) % n = k % n + d - n) := by
  have hk := Nat.mod_lt k (by omega : 0 < n)
  rw [Nat.add_mod, Nat.mod_eq_of_lt hd]
  rcases Nat.lt_or_ge (k % n + d) n with h | h
  · exact .inl ⟨h, Nat.mod_eq_of_lt h⟩
  refine .inr ⟨h, ?_⟩
  rw [Nat.mod_eq_sub_mod h, Nat.mod_eq_of_lt (by omega)]

lemma next_mod (hn : 1 < n) (k : Nat) : next n (k % n) = (k + 1) % n := by
  have hlt := Nat.mod_lt k (by omega : 0 < n)
  unfold next
  rcases add_mod_cases hn (k := k) with ⟨h, he⟩ | ⟨h, he⟩
  · rw [he, if_neg (by omega)]
  rw [he, if_pos (by omega)]
  omega

/-- The string `l` lies in the ring from position `k` on. -/
def At (n : Nat) (buf : Nat → α) : Nat → List α → Prop
  | _, [] => True
  | k, a :: l => buf (k % n) = a ∧ At n buf (k + 1) l

variable {buf : Nat → α}

lemma at_append {l1 l2 : List α} : At n buf k (l1 ++ l2) ↔ At n buf k l1 ∧ At n buf (k + l1.length) l2 := by
  induction l1 generalizing k with
  | nil => simp [At]
  | cons a l ih => simp [At, ih, and_assoc, Nat.add_assoc, Nat.add_comm 1]

lemma at_congr {k' : Nat} {l : List α} (h : k % n = k' % n) : At n buf k l ↔ At n buf k' l := by
  induction l generalizing k k' with
  | nil => exact Iff.rfl
  | cons a l ih =>
    have hsucc : (k + 1) % n = (k' + 1) % n := by rw [Nat.add_mod, h, ← Nat.add_mod]
    simp only [At, h, ih hsucc]

/-- A store behind the string and less than once around leaves it alone. -/
lemma At.store {n : Nat} {buf : Nat → α} {k j : Nat} {l : List α} (h : At n buf k l) (b : α)
    (hj : k + l.length ≤ j) (hn : j < k + n) : At n (Function.update buf (j % n) b) k l := by
  induction l generalizing k with
  | nil => trivial
  | cons a l ih =>
    simp only [List.length_cons] at hj
    refine ⟨?_, ih h.2 (by omega) (by omega)⟩
    have hne : (k + (j - k)) % n ≠ k % n := mod_ne (by omega) (by omega)
    rw [Nat.add_sub_cancel' (by omega)] at hne
    rw [Function.update_of_ne hne.symm]
    exact h.1

end Mushroom.Ring
