import Mathlib

/-!
# Virtual addresses and pages

`VirtAddr` and `Page` of the `x86_64` crate. A `VirtAddr` is always canonical
(bits 47..63 are copies of bit 47): `new`, `+` and `-` panic when the result is
not, or leaves the 64-bit range. `Page<Size4KiB>` is its number
(`start_address / 4096`); adding to a page goes through its start address
(`pageAdd`). A panic is `none` throughout.
-/
namespace Mushroom.L2

/-- Bits 47..63 agree: the lower (user) or the upper (kernel) half. -/
def Canonical (a : Nat) : Prop := a < 2 ^ 47 ∨ (2 ^ 64 - 2 ^ 47 ≤ a ∧ a < 2 ^ 64)

instance (a : Nat) : Decidable (Canonical a) := inferInstanceAs (Decidable (_ ∨ _))

structure VirtAddr where
  addr : Nat
  canonical : Canonical addr
  deriving DecidableEq

namespace VirtAddr

@[ext] lemma ext {a b : VirtAddr} (h : a.addr = b.addr) : a = b := by cases a; cases b; cases h; rfl

def new (a : Nat) : Option VirtAddr := if h : Canonical a then some ⟨a, h⟩ else none

def add (v : VirtAddr) (n : Nat) : Option VirtAddr := new (v.addr + n)

def sub (v : VirtAddr) (n : Nat) : Option VirtAddr := if n ≤ v.addr then new (v.addr - n) else none

def page (v : VirtAddr) : Nat := v.addr / 4096

def zero : VirtAddr := ⟨0, .inl (by decide)⟩

lemma page_le_last (v : VirtAddr) (len : Nat) : v.page ≤ (v.addr + (len - 1)) / 4096 := by
  unfold page
  omega

variable {v : VirtAddr} {n : Nat}

lemma new_eq_some {a : Nat} : new a = some v ↔ v.addr = a := by
  unfold new
  split
  · rename_i h
    constructor
    · intro hv; cases hv; rfl
    · intro hv; subst hv; rfl
  · rename_i h
    constructor
    · nofun
    · intro hv; subst hv; exact absurd v.canonical h

lemma add_eq_some {w : VirtAddr} : v.add n = some w ↔ w.addr = v.addr + n := new_eq_some

lemma new_of_lower {a : Nat} (h : a < 2 ^ 47) : new a = some ⟨a, .inl h⟩ := new_eq_some.2 rfl

lemma add_of_lower (h : v.addr + n < 2 ^ 47) : v.add n = some ⟨v.addr + n, .inl h⟩ := new_eq_some.2 rfl

lemma add_of_canonical (h : Canonical (v.addr + n)) : v.add n = some ⟨v.addr + n, h⟩ := new_eq_some.2 rfl

end VirtAddr

/-! ## Pages -/

def CanonicalPage (p : Nat) : Prop := p < 2 ^ 35 ∨ (2 ^ 52 - 2 ^ 35 ≤ p ∧ p < 2 ^ 52)

instance (p : Nat) : Decidable (CanonicalPage p) := inferInstanceAs (Decidable (_ ∨ _))

/-- `Page + u64`. -/
def pageAdd (p n : Nat) : Option Nat := if CanonicalPage (p + n) then some (p + n) else none

/-- `Page - u64`. -/
def pageSub (p n : Nat) : Option Nat :=
  if n ≤ p ∧ CanonicalPage (p - n) then some (p - n) else none

variable {p n q : Nat}

lemma pageAdd_of_lower (h : p + n < 2 ^ 35) : pageAdd p n = some (p + n) := if_pos (.inl h)

lemma pageAdd_eq_some : pageAdd p n = some q ↔ CanonicalPage (p + n) ∧ q = p + n := by
  unfold pageAdd
  split
  · rename_i h; simp [h, eq_comm]
  · rename_i h; simp [h]

lemma pageSub_of_lower (hn : n ≤ p) (h : p < 2 ^ 35) : pageSub p n = some (p - n) := if_pos ⟨hn, .inl (by omega)⟩

/-- `align_up(n, 4096)`. -/
def alignUp (n : Nat) : Nat := (n + 4095) / 4096 * 4096

inductive Errno where
  | acces | again | fault | inval | noMem
  deriving DecidableEq

end Mushroom.L2
