import Mathlib

/-!
# Atomic updates

`fetch_update` of an atomic cell: load the value, compute the next one, and
exchange if the cell still has the value; otherwise start again from what it
has. Others may change the cell between the steps. `step_cases` is what the
users of a cell need: every step goes on and changes nothing, or it ends the
update as if all of it happened in that step.
-/
namespace Mushroom.FetchUpdate

variable {V : Type}

/-- Where an update stands: before the load, or before the exchange of a value. -/
inductive Pc (V : Type) where
  | load
  | exchange (current : V)
  deriving DecidableEq

inductive Outcome (V : Type) where
  | more (pc : Pc V)
  | ok (previous : V)
  | err (current : V)
  deriving DecidableEq

def look (f : V → Option V) (current : V) : Outcome V :=
  match f current with
  | some _ => .more (.exchange current)
  | none => .err current

def step [DecidableEq V] (f : V → Option V) (cell : V) : Pc V → V × Outcome V
  | .load => (cell, look f cell)
  | .exchange current =>
    if cell = current then
      match f current with
      | some next => (next, .ok current)
      | none => (cell, .err current)
    else (cell, look f cell)

lemma look_cases (f : V → Option V) (current : V) :
    (∃ pc, look f current = .more pc) ∨ (f current = none ∧ look f current = .err current) := by
  unfold look
  cases h : f current with
  | none => exact .inr ⟨rfl, rfl⟩
  | some next => exact .inl ⟨_, rfl⟩

lemma step_cases [DecidableEq V] (f : V → Option V) (cell : V) (pc : Pc V) :
    (∃ pc', step f cell pc = (cell, .more pc')) ∨ (∃ next, f cell = some next ∧ step f cell pc = (next, .ok cell)) ∨
    (f cell = none ∧ step f cell pc = (cell, .err cell)) := by
  have hlook : (∃ pc', (cell, look f cell) = (cell, .more pc')) ∨
      (∃ next, f cell = some next ∧ (cell, look f cell) = (next, .ok cell)) ∨
      (f cell = none ∧ (cell, look f cell) = (cell, .err cell)) := by
    rcases look_cases f cell with ⟨pc', h⟩ | ⟨hnone, h⟩
    · exact .inl ⟨pc', by rw [h]⟩
    · exact .inr (.inr ⟨hnone, by rw [h]⟩)
  cases pc with
  | load => exact hlook
  | exchange current =>
    by_cases heq : cell = current
    · subst heq
      have hstep : step f cell (.exchange cell) =
          match f cell with
          | some next => (next, .ok cell)
          | none => (cell, .err cell) := if_pos rfl
      rw [hstep]
      cases h : f cell with
      | none => exact .inr (.inr ⟨rfl, rfl⟩)
      | some next => exact .inr (.inl ⟨next, rfl, rfl⟩)
    · have hstep : step f cell (.exchange current) = (cell, look f cell) := if_neg heq
      rw [hstep]
      exact hlook

end Mushroom.FetchUpdate
