import Mathlib

/-!
# Breadth first

The nodes below a root, level by level: take the first node of a queue, put its
children at the end. `none` stands for a search that has not come to its end
with the fuel it had.

Where every node is the child of one node at most (`IsForest`), no node is met
twice, so the search ends (`bfs_forest`) and gives the root with each node its
children, and nothing else.
-/
namespace Mushroom.Bfs
open List

variable {V : Type} {children : V → List V} {root : V} {nodes : List V}

def bfs (children : V → List V) : Nat → List V → Option (List V)
  | _, [] => some []
  | 0, _ :: _ => none
  | fuel + 1, v :: queue => (bfs children fuel (queue ++ children v)).map (v :: ·)

lemma bfs_mono {fuel : Nat} {queue l : List V} (h : bfs children fuel queue = some l) {fuel' : Nat}
    (hle : fuel ≤ fuel') : bfs children fuel' queue = some l := by
  induction fuel generalizing queue l fuel' with
  | zero =>
    cases queue with
    | nil =>
      cases h
      cases fuel' <;> rfl
    | cons v queue => cases h
  | succ fuel ih =>
    cases queue with
    | nil =>
      cases h
      cases fuel' <;> rfl
    | cons v queue =>
      obtain ⟨rest, hrest, rfl⟩ := Option.map_eq_some_iff.1 h
      obtain ⟨n, rfl⟩ : ∃ n, fuel' = n + 1 := ⟨fuel' - 1, by omega⟩
      have hn := ih hrest (Nat.le_of_succ_le_succ hle)
      simp [bfs, hn]

/-- No node of a finite set has two parents, and the root has none. -/
structure IsForest (children : V → List V) (root : V) (nodes : List V) : Prop where
  rooted : root ∈ nodes
  closed : ∀ v ∈ nodes, ∀ c ∈ children v, c ∈ nodes
  nodup : ∀ v ∈ nodes, (children v).Nodup
  unique : ∀ v ∈ nodes, ∀ w ∈ nodes, ∀ c ∈ children v, c ∈ children w → v = w
  orphan : ∀ v ∈ nodes, root ∉ children v

/-- The nodes given out and those in the queue are the root and the children of
the former. -/
def Walk (children : V → List V) (root : V) (out queue : List V) : Prop :=
  (out ++ queue).Perm (root :: out.flatMap children)

lemma Walk.step {v : V} {out queue : List V} (h : Walk children root out (v :: queue)) :
    Walk children root (out ++ [v]) (queue ++ children v) := by
  have hflat : (out ++ [v]).flatMap children = out.flatMap children ++ children v := by
    rw [flatMap_append, flatMap_singleton]
  have hassoc : out ++ [v] ++ (queue ++ children v) = out ++ v :: queue ++ children v := by
    simp
  unfold Walk
  rw [hflat, hassoc]
  exact List.Perm.append_right (children v) h

section

variable (hf : IsForest children root nodes)

include hf

lemma IsForest.walk_nodup {out queue : List V}
    (h : Walk children root out queue) (hnodup : out.Nodup) (hsub : out ⊆ nodes) :
    (out ++ queue).Nodup ∧ out ++ queue ⊆ nodes := by
  refine ⟨h.nodup_iff.2 (nodup_cons.2 ⟨fun hmem => ?_, nodup_flatMap.2 ⟨fun v hv => ?_, ?_⟩⟩), ?_⟩
  · obtain ⟨v, hv, hroot⟩ := mem_flatMap.1 hmem
    exact hf.orphan v (hsub hv) hroot
  · exact hf.nodup v (hsub hv)
  · refine hnodup.imp_of_mem fun hv hw hne c hcv hcw => ?_
    exact hne (hf.unique _ (hsub hv) _ (hsub hw) c hcv hcw)
  intro c hc
  rcases mem_cons.1 (h.subset hc) with hroot | hmem
  · rw [hroot]
    exact hf.rooted
  · obtain ⟨v, hv, hcv⟩ := mem_flatMap.1 hmem
    exact hf.closed v (hsub hv) c hcv

-- `out` grows with every turn and never has a node twice, so the nodes bound the turns
lemma IsForest.bfs_walk {fuel : Nat} {out queue : List V}
    (h : Walk children root out queue) (hnodup : out.Nodup) (hsub : out ⊆ nodes)
    (hfuel : nodes.length ≤ fuel + out.length) :
    ∃ rest, bfs children fuel queue = some rest ∧ (out ++ rest).Nodup ∧ out ++ rest ⊆ nodes ∧
      Walk children root (out ++ rest) [] := by
  obtain ⟨hall, hallsub⟩ := hf.walk_nodup h hnodup hsub
  induction fuel generalizing out queue with
  | zero =>
    cases queue with
    | nil => exact ⟨[], rfl, hall, hallsub, by rw [append_nil]; exact h⟩
    | cons v queue =>
      have hlen := (hall.subperm hallsub).length_le
      rw [length_append, length_cons] at hlen
      omega
  | succ fuel ih =>
    cases queue with
    | nil => exact ⟨[], rfl, hall, hallsub, by rw [append_nil]; exact h⟩
    | cons v queue =>
      have hassoc : ∀ l, out ++ [v] ++ l = out ++ v :: l := fun l => by rw [append_assoc, singleton_append]
      have hall' : (out ++ [v]).Nodup := by
        rw [← hassoc] at hall
        exact hall.of_append_left
      have hsub' : out ++ [v] ⊆ nodes := fun x hx => hallsub (by
        rw [← hassoc]
        exact mem_append_left _ hx)
      have hwalk := h.step
      obtain ⟨hn, hs⟩ := hf.walk_nodup hwalk hall' hsub'
      obtain ⟨rest, hrest, hnodup', hsub'', hw⟩ := ih hwalk hall' hsub'
        (by rw [length_append, length_singleton]; omega) hn hs
      rw [hassoc] at hnodup' hsub'' hw
      exact ⟨v :: rest, by simp only [bfs, hrest, Option.map_some], hnodup', hsub'', hw⟩

/-- The search ends with the same nodes whatever the fuel: the root and with every node its children, each once. -/
lemma bfs_forest :
    ∃ l, (∀ fuel, nodes.length ≤ fuel → bfs children fuel [root] = some l) ∧ l.Nodup ∧ l ⊆ nodes ∧ root ∈ l ∧
      ∀ v ∈ l, ∀ c ∈ children v, c ∈ l := by
  have hstart : Walk children root [] [root] := List.Perm.refl [root]
  obtain ⟨l, hl, hnodup, hsub, hwalk⟩ := hf.bfs_walk hstart nodup_nil (nil_subset _) (Nat.le_refl _)
  rw [Walk, nil_append, append_nil] at hwalk
  refine ⟨l, fun fuel hfuel => bfs_mono hl hfuel, hnodup, hsub, hwalk.symm.subset mem_cons_self,
    fun v hv c hc => hwalk.symm.subset (mem_cons_of_mem _ (mem_flatMap.2 ⟨v, hv, hc⟩))⟩

end

end Mushroom.Bfs
