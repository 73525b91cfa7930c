import Mathlib

/-!
# Trees with named edges and parent pointers

A tree stored twice: as a finite map from a node and a name to a node, and as a
pointer from each node to its parent. `IsTree` says that the two agree and that
the parents of every live node end in the root: it is reached from there
(`IsTree.reachable`), by one edge only (`IsTree.unique`), without cycles
(`IsTree.acyclic`).

Kept by: a new leaf, a leaf that is cut off, a subtree moved below a node outside
of it (`Clear`), and edges of one node that change their names.
-/
namespace Mushroom

open Function

/-! ## Walks along the parents -/

section

variable {V : Type} {f g : V → V} {root x v : V} {P : V → Prop}

inductive Grounded (f : V → V) (root : V) : V → Prop where
  | root : Grounded f root root
  | step {v : V} : Grounded f root (f v) → Grounded f root v

/-- The walk from a node ends in the root and does not meet `x`. -/
inductive Clear (f : V → V) (root x : V) : V → Prop where
  | root : root ≠ x → Clear f root x root
  | step {v : V} : v ≠ x → Clear f root x (f v) → Clear f root x v

/-- A node that is its own parent ends its walk. -/
lemma Grounded.eq_root (h : Grounded f root v) (hv : f v = v) : v = root := by
  induction h with
  | root => rfl
  | step _ ih =>
    rw [hv] at ih
    exact ih hv

section

variable (h : Grounded f root v) (hv : P v) (hP : ∀ v, P v → v ≠ root → P (f v))
include h hv hP

lemma Grounded.congr (hf : ∀ v, P v → g v = f v) : Grounded g root v := by
  induction h with
  | root => exact .root
  | @step v _ ih =>
    by_cases hr : v = root
    · rw [hr]
      exact .root
    refine .step ?_
    rw [hf v hv]
    exact ih (hP v hv hr)

/-- A walk within a set does not meet what is outside of it. -/
lemma Grounded.clear (hr : P root) (hx : ¬P x) : Clear f root x v := by
  have hne : ∀ u, P u → u ≠ x := fun u hu he => hx (he ▸ hu)
  induction h with
  | root => exact .root (hne _ hr)
  | @step v _ ih =>
    by_cases hroot : v = root
    · rw [hroot]
      exact .root (hne _ hr)
    · exact .step (hne v hv) (ih (hP v hv hroot))

end

variable [DecidableEq V]

lemma Clear.update (h : Clear f root x v) (w : V) : Grounded (update f x w) root v := by
  induction h with
  | root => exact .root
  | step hne _ ih =>
    refine .step ?_
    rwa [update_of_ne hne]

/-- A node may be hung up below any node whose walk does not meet it. -/
lemma Grounded.update (h : Grounded f root v) {w : V} (hw : Clear f root x w) : Grounded (update f x w) root v := by
  induction h with
  | root => exact .root
  | @step v _ ih =>
    refine .step ?_
    by_cases hv : v = x
    · rw [hv, update_self]
      exact hw.update w
    · rwa [update_of_ne hv]

end

/-! ## Trees -/

structure Forest (V K : Type) where
  root : V
  edge : V × K → Option V
  parent : V → V
  live : V → Prop

namespace Forest

variable {V K : Type} {F G : Forest V K}

def Child (F : Forest V K) (p v : V) : Prop := ∃ k, F.edge (p, k) = some v

structure IsTree (F : Forest V K) : Prop where
  root_live : F.live F.root
  edge_live : ∀ y v, F.edge y = some v → F.live y.1 ∧ F.live v
  edge_parent : ∀ y v, F.edge y = some v → F.parent v = y.1 ∧ v ≠ F.root
  edge_name : ∀ y z v, F.edge y = some v → F.edge z = some v → y.2 = z.2
  linked : ∀ v, F.live v → v ≠ F.root → ∃ y, F.edge y = some v
  grounded : ∀ v, F.live v → Grounded F.parent F.root v

namespace IsTree

variable {v : V} {y z : V × K}

section

variable (h : F.IsTree)

include h

lemma unique (hy : F.edge y = some v) (hz : F.edge z = some v) : y = z :=
  Prod.ext ((h.edge_parent y v hy).1.symm.trans (h.edge_parent z v hz).1) (h.edge_name y z v hy hz)

lemma edge_of_live (hv : F.live v) (hr : v ≠ F.root) : ∃ k, F.edge (F.parent v, k) = some v := by
  obtain ⟨⟨p, k⟩, hy⟩ := h.linked v hv hr
  obtain rfl := (h.edge_parent _ v hy).1
  exact ⟨k, hy⟩

lemma parent_live (v : V) (hv : F.live v) (hr : v ≠ F.root) : F.live (F.parent v) := by
  obtain ⟨k, hk⟩ := h.edge_of_live hv hr
  exact (h.edge_live _ v hk).1

lemma reachable (hv : F.live v) : Relation.ReflTransGen F.Child F.root v := by
  have hg := h.grounded v hv
  induction hg with
  | root => exact .refl
  | @step v _ ih =>
    by_cases hr : v = F.root
    · rw [hr]
    · exact .tail (ih (h.parent_live v hv hr)) (h.edge_of_live hv hr)

lemma live_of_reachable (hv : Relation.ReflTransGen F.Child F.root v) : F.live v := by
  induction hv with
  | refl => exact h.root_live
  | tail _ hc =>
    obtain ⟨k, hk⟩ := hc
    exact (h.edge_live _ _ hk).2

lemma acyclic (v : V) : ¬Relation.TransGen F.Child v v := by
  intro hv
  have hlive : F.live v := by
    obtain ⟨p, _, k, hk⟩ := Relation.TransGen.tail'_iff.1 hv
    exact (h.edge_live _ v hk).2
  have hg := h.grounded v hlive
  clear hlive
  -- a cycle through a node is one through its parent, and so on up to the root
  induction hg with
  | root =>
    obtain ⟨p, _, k, hk⟩ := Relation.TransGen.tail'_iff.1 hv
    exact (h.edge_parent _ _ hk).2 rfl
  | step _ ih =>
    obtain ⟨p, hp, k, hk⟩ := Relation.TransGen.tail'_iff.1 hv
    rw [(h.edge_parent _ _ hk).1] at ih
    exact ih (Relation.TransGen.head' ⟨k, hk⟩ hp)

/-- A node either is below `x` or its walk up is clear of `x`. -/
lemma clear_or_below (x : V) (hv : F.live v) : Clear F.parent F.root x v ∨ Relation.ReflTransGen F.Child x v := by
  have hg := h.grounded v hv
  induction hg with
  | root =>
    by_cases hx : F.root = x
    · exact .inr (hx ▸ .refl)
    · exact .inl (.root hx)
  | @step v _ ih =>
    by_cases hx : v = x
    · exact .inr (hx ▸ .refl)
    by_cases hr : v = F.root
    · exact .inl (hr ▸ .root (hr ▸ hx))
    rcases ih (h.parent_live v hv hr) with hc | hb
    · exact .inl (.step hx hc)
    · exact .inr (.tail hb (h.edge_of_live hv hr))

lemma clear_parent {x : V} (hy : F.edge y = some x) : Clear F.parent F.root x y.1 := by
  rcases h.clear_or_below x (h.edge_live y x hy).1 with hc | hb
  · exact hc
  · exact absurd (Relation.TransGen.tail' hb ⟨y.2, hy⟩) (h.acyclic x)

lemma congr (hr : G.root = F.root) (he : G.edge = F.edge)
    (hl : ∀ v, G.live v ↔ F.live v) (hp : ∀ v, F.live v → G.parent v = F.parent v) : G.IsTree where
  root_live := by rw [hr, hl]; exact h.root_live
  edge_live y v hy := by
    rw [he] at hy
    rw [hl, hl]
    exact h.edge_live y v hy
  edge_parent y v hy := by
    rw [he] at hy
    rw [hr, hp v (h.edge_live y v hy).2]
    exact h.edge_parent y v hy
  edge_name y z v hy hz := by
    rw [he] at hy hz
    exact h.edge_name y z v hy hz
  linked v hv hne := by
    rw [he]
    exact h.linked v ((hl v).1 hv) (hr ▸ hne)
  grounded v hv := by
    rw [hr]
    exact (h.grounded v ((hl v).1 hv)).congr ((hl v).1 hv) h.parent_live hp

lemma permute (σ : V × K ≃ V × K) (hσ : ∀ y, (σ y).1 = y.1) : IsTree { F with edge := F.edge ∘ σ } where
  root_live := h.root_live
  edge_live y v hy := by
    rw [← hσ y]
    exact h.edge_live (σ y) v hy
  edge_parent y v hy := by
    rw [← hσ y]
    exact h.edge_parent (σ y) v hy
  edge_name y z v hy hz := by rw [σ.injective (h.unique hy hz)]
  linked v hv hr := by
    obtain ⟨y, hy⟩ := h.linked v hv hr
    exact ⟨σ.symm y, by simpa using hy⟩
  grounded := h.grounded

end

variable [DecidableEq V] [DecidableEq K]

lemma addLeaf (h : F.IsTree) (hp : F.live y.1) (hy : F.edge y = none) (hv : ¬F.live v) : IsTree { F with
      edge := update F.edge y (some v)
      parent := update F.parent v y.1
      live := fun u => F.live u ∨ u = v } := by
  have hroot : F.root ≠ v := fun he => hv (he ▸ h.root_live)
  have hcases : ∀ z u, update F.edge y (some v) z = some u → (z = y ∧ u = v) ∨ (F.edge z = some u ∧ u ≠ v) := by
    intro z u hz
    have := h.edge_live z u
    rw [update_apply] at hz
    grind
  have hclear : Clear F.parent F.root v y.1 :=
    (h.grounded _ hp).clear hp h.parent_live h.root_live hv
  refine ⟨.inl h.root_live, fun z u hz => ?_, fun z u hz => ?_, fun z z' u hz hz' => ?_,
    fun u hu hr => ?_, fun u hu => ?_⟩
  · rcases hcases z u hz with ⟨rfl, rfl⟩ | ⟨hz, _⟩
    · exact ⟨.inl hp, .inr rfl⟩
    · exact ⟨.inl (h.edge_live z u hz).1, .inl (h.edge_live z u hz).2⟩
  · rcases hcases z u hz with ⟨rfl, rfl⟩ | ⟨hz, hne⟩
    · exact ⟨update_self .., hroot.symm⟩
    · exact ⟨(update_of_ne hne ..).trans (h.edge_parent z u hz).1, (h.edge_parent z u hz).2⟩
  · have := h.edge_name z z' u
    grind
  · rcases hu with hu | rfl
    · obtain ⟨z, hz⟩ := h.linked u hu hr
      refine ⟨z, (update_of_ne ?_ ..).trans hz⟩
      rintro rfl
      rw [hy] at hz
      cases hz
    · exact ⟨y, update_self ..⟩
  · rcases hu with hu | rfl
    · exact (h.grounded u hu).update hclear
    refine .step ?_
    change Grounded _ _ (update F.parent u y.1 u)
    rw [update_self]
    exact hclear.update _

lemma removeLeaf (h : F.IsTree) (hy : F.edge y = some v) (hleaf : ∀ k, F.edge (v, k) = none) : IsTree { F with
      edge := update F.edge y none
      live := fun u => F.live u ∧ u ≠ v } := by
  have hcases : ∀ z u, update F.edge y none z = some u → F.edge z = some u ∧ u ≠ v ∧ z.1 ≠ v := by
    intro z u hz
    by_cases hzy : z = y
    · rw [hzy, update_self] at hz
      cases hz
    rw [update_of_ne hzy] at hz
    refine ⟨hz, fun he => hzy (h.unique hz (he ▸ hy)), fun he => ?_⟩
    have hn := hleaf z.2
    rw [← he, hz] at hn
    cases hn
  refine ⟨⟨h.root_live, (h.edge_parent y v hy).2.symm⟩, fun z u hz => ?_, fun z u hz => ?_,
    fun z z' u hz hz' => ?_, fun u hu hr => ?_, fun u hu => h.grounded u hu.1⟩
  · obtain ⟨hz, hu, hz1⟩ := hcases z u hz
    exact ⟨⟨(h.edge_live z u hz).1, hz1⟩, (h.edge_live z u hz).2, hu⟩
  · exact h.edge_parent z u (hcases z u hz).1
  · exact h.edge_name z z' u (hcases z u hz).1 (hcases z' u hz').1
  obtain ⟨z, hz⟩ := h.linked u hu.1 hr
  refine ⟨z, (update_of_ne ?_ ..).trans hz⟩
  rintro rfl
  exact hu.2 (Option.some.inj (hz.symm.trans hy))

lemma move (h : F.IsTree) {y z : V × K} {x : V} (hy : F.edge y = some x) (hz : F.edge z = none)
    (hl : F.live z.1) (hc : Clear F.parent F.root x z.1) : IsTree { F with
      edge := update (update F.edge y none) z (some x)
      parent := update F.parent x z.1 } := by
  have hcases : ∀ w u, update (update F.edge y none) z (some x) w = some u →
      (w = z ∧ u = x) ∨ (F.edge w = some u ∧ u ≠ x) := by
    intro w u hw
    have := fun hw : F.edge w = some x => h.unique hw hy
    rw [update_apply, update_apply] at hw
    grind
  refine ⟨h.root_live, fun w u hw => ?_, fun w u hw => ?_, fun w w' u hw hw' => ?_,
    fun u hu hr => ?_, fun u hu => (h.grounded u hu).update hc⟩
  · rcases hcases w u hw with ⟨rfl, rfl⟩ | ⟨hw, _⟩
    · exact ⟨hl, (h.edge_live y u hy).2⟩
    · exact h.edge_live w u hw
  · rcases hcases w u hw with ⟨rfl, rfl⟩ | ⟨hw, hne⟩
    · exact ⟨update_self .., (h.edge_parent y u hy).2⟩
    · exact ⟨(update_of_ne hne ..).trans (h.edge_parent w u hw).1, (h.edge_parent w u hw).2⟩
  · have := h.edge_name w w' u
    grind
  by_cases hux : u = x
  · exact ⟨z, (update_self ..).trans (congrArg some hux.symm)⟩
  obtain ⟨w, hw⟩ := h.linked u hu hr
  have hwz : w ≠ z := by
    rintro rfl
    rw [hz] at hw
    cases hw
  have hwy : w ≠ y := by
    rintro rfl
    exact hux (Option.some.inj (hw.symm.trans hy))
  exact ⟨w, (update_of_ne hwz ..).trans ((update_of_ne hwy ..).trans hw)⟩

end IsTree

end Forest

end Mushroom
