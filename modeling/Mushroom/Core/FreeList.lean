import Mushroom.Core.Bytes

/-!
# Free lists through memory

A list of free cells kept in the cells themselves: the first word of a free cell
is the address of the next one, zero at the end. `Linked mem head cells` says
that the list from `head` on is `cells`; it reads only the words of its cells
(`Linked.congr`). `Apart` is disjointness of two blocks, and cells of one size
that stand side by side are apart (`cell_apart`).
-/
namespace Mushroom.FreeList

/-! ## Blocks -/

/-- Two blocks, each an address and a length, have no byte in common. -/
def Apart (a m b n : Nat) : Prop := a + m ≤ b ∨ b + n ≤ a

variable {a n : Nat} {mem' : Nat → UInt8} {head : Option Nat}

lemma Apart.symm {m b : Nat} (h : Apart a m b n) : Apart b n a m := Or.symm h

lemma Apart.mono {m m' b n' : Nat} (h : Apart a m b n) (hm : m' ≤ m) (hn : n' ≤ n) : Apart a m' b n' := by
  rcases h with h | h
  · exact .inl (by omega)
  · exact .inr (by omega)

/-- The cell with number `i` of those of size `n` from `start` on. -/
def cell (start n i : Nat) : Nat := start + i * n

variable {i j start : Nat}

lemma cell_le (start n : Nat) (h : i < j) : cell start n i + n ≤ cell start n j := by
  have hmul : (i + 1) * n ≤ j * n := Nat.mul_le_mul_right n h
  rw [Nat.succ_mul] at hmul
  simp only [cell]
  omega

lemma cell_apart (h : i ≠ j) : Apart (cell start n i) n (cell start n j) n := by
  rcases lt_or_gt_of_ne h with h | h
  · exact .inl (cell_le start n h)
  · exact .inr (cell_le start n h)

lemma cell_inj (hn : 0 < n) (h : cell start n i = cell start n j) : i = j := by
  by_contra hne
  have hapart : Apart (cell start n i) n (cell start n j) n := cell_apart hne
  rcases hapart with h' | h' <;> omega

/-! ## Links -/

def link (mem : Nat → UInt8) (p : Nat) : Option Nat :=
  if leNat (readMem mem p 8) = 0 then none else some (leNat (readMem mem p 8))

def setLink (mem : Nat → UInt8) (p : Nat) (next : Option Nat) : Nat → UInt8 := writeMem mem p (leBytes 8 (next.getD 0))

def Linkable (p : Nat) : Prop := 0 < p ∧ p < 256 ^ 8

variable {mem : Nat → UInt8} {p : Nat} {next : Option Nat}

lemma setLink_outside (h : a < p ∨ p + 8 ≤ a) :
    setLink mem p next a = mem a := writeMem_of_not_mem (by rwa [leBytes_length])

lemma link_congr (h : ∀ i < 8, mem (p + i) = mem' (p + i)) : link mem p = link mem' p := by
  simp only [link, readMem_congr h]

lemma link_setLink (h : ∀ q ∈ next, Linkable q) : link (setLink mem p next) p = next := by
  have hread : readMem (setLink mem p next) p 8 = leBytes 8 (next.getD 0) := by
    have h := readMem_writeMem mem p (leBytes 8 (next.getD 0))
    rwa [leBytes_length] at h
  cases next with
  | none => simp [link, hread, leNat_leBytes]
  | some q =>
    obtain ⟨hpos, hlt⟩ := h q rfl
    have hne : q ≠ 0 := by omega
    simp [link, hread, leNat_leBytes hlt, hne]

/-! ## The list -/

def Linked (mem : Nat → UInt8) : Option Nat → List Nat → Prop
  | none, [] => True
  | some p, q :: cells => p = q ∧ Linked mem (link mem p) cells
  | _, _ => False

variable {cells : List Nat}

@[simp] lemma linked_none : Linked mem none cells ↔ cells = [] := by cases cells <;> simp [Linked]

lemma linked_some : Linked mem (some p) cells ↔ ∃ rest, cells = p :: rest ∧ Linked mem (link mem p) rest := by
  cases cells with
  | nil => simp [Linked]
  | cons q rest =>
    simp only [Linked, List.cons.injEq]
    constructor
    · rintro ⟨rfl, h⟩
      exact ⟨rest, ⟨rfl, rfl⟩, h⟩
    · rintro ⟨rest, ⟨rfl, rfl⟩, h⟩
      exact ⟨rfl, h⟩

variable (h : Linked mem head cells)
include h

lemma Linked.head_mem (hp : p ∈ head) : p ∈ cells := by
  cases hp
  obtain ⟨rest, rfl, -⟩ := linked_some.1 h
  exact List.mem_cons_self

lemma Linked.congr (hmem : ∀ p ∈ cells, ∀ i < 8, mem (p + i) = mem' (p + i)) : Linked mem' head cells := by
  induction cells generalizing head with
  | nil =>
    cases head with
    | none => exact h
    | some p => exact absurd h (by simp [Linked])
  | cons q cells ih =>
    cases head with
    | none => exact absurd h (by simp [Linked])
    | some p =>
      obtain ⟨rfl, h⟩ := h
      refine ⟨rfl, ?_⟩
      rw [← link_congr (hmem p List.mem_cons_self)]
      exact ih h fun q hq => hmem q (List.mem_cons_of_mem p hq)

/-- A cell apart from those of the list is put in front. -/
lemma Linked.push (hp : ∀ q ∈ cells, Apart p 8 q 8) (hlinks : ∀ q ∈ cells, Linkable q) :
    Linked (setLink mem p head) (some p) (p :: cells) := by
  refine ⟨rfl, ?_⟩
  rw [link_setLink fun q hq => hlinks q (h.head_mem hq)]
  refine h.congr fun q hq i hi => (setLink_outside ?_).symm
  rcases hp q hq with h | h
  · exact .inr (by omega)
  · exact .inl (by omega)

end Mushroom.FreeList
