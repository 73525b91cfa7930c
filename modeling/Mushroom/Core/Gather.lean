import Mathlib

/-!
# What the values of a map hold

A list that is to hold one item for every value of a map that has one
(`gather`). The order does not count: the list is a permutation of what the map
gives, and `gather_insert`, `gather_perm` say how both change when one value
does. `swapRemove` takes an item out of the list without moving the others up.
-/
namespace Mushroom.Gather
open List

section

variable {α : Type}

/-- The last item takes the place of the one at `i`. -/
def swapRemove (l : List α) (i : Nat) : List α :=
  match l.getLast? with
  | none => []
  | some last => (l.set i last).dropLast

lemma swapRemove_concat (l : List α) (last : α) (i : Nat) :
    swapRemove (l ++ [last]) i = ((l ++ [last]).set i last).dropLast := by
  unfold swapRemove
  rw [List.getLast?_concat]

lemma swapRemove_perm {l : List α} {i : Nat} {a : α} (h : l[i]? = some a) : (a :: swapRemove l i).Perm l := by
  rcases eq_nil_or_concat' l with hnil | ⟨init, last, hl⟩
  · rw [hnil] at h
    cases h
  subst hl
  rw [swapRemove_concat]
  rcases lt_or_ge i init.length with hi | hi
  · rw [List.getElem?_append_left hi, List.getElem?_eq_getElem hi] at h
    rw [set_append_left _ _ hi, dropLast_concat, ← Option.some.inj h]
    calc init[i] :: init.set i last
        _ |>.Perm (init[i] :: last :: init.eraseIdx i) := (set_perm_cons_eraseIdx hi last).cons _
        _ |>.Perm (last :: init[i] :: init.eraseIdx i) := List.Perm.swap ..
        _ |>.Perm (last :: init) := (getElem_cons_eraseIdx_perm hi).cons _
        _ |>.Perm (init ++ [last]) := (perm_append_singleton last init).symm
  rw [List.getElem?_append_right hi] at h
  obtain ⟨hlt, -⟩ := List.getElem?_eq_some_iff.1 h
  have hi' : i = init.length := by
    rw [length_singleton] at hlt
    omega
  subst hi'
  have ha : last = a := by simpa using h
  rw [set_append_right _ _ (le_refl _), Nat.sub_self, set_cons_zero, dropLast_concat, ← ha]
  exact (perm_append_singleton last init).symm

end

section

variable {κ β γ : Type} [DecidableEq κ]

def gather (f : β → Option γ) (m : AList fun _ : κ => β) : List γ := m.entries.filterMap fun e => f e.2

omit [DecidableEq κ] in
lemma filterMap_cons_toList (f : β → Option γ) (k : κ) (b : β) (l : List ((_ : κ) × β)) :
    (⟨k, b⟩ :: l).filterMap (fun e => f e.2) = (f b).toList ++ l.filterMap fun e => f e.2 := by
  rw [filterMap_cons]
  cases f b <;> rfl

lemma gather_insert (f : β → Option γ) (m : AList fun _ : κ => β) (k : κ) (b : β) :
    gather f (m.insert k b) = (f b).toList ++ gather f (m.erase k) :=
  filterMap_cons_toList f k b _

variable {m : AList fun _ : κ => β}

lemma erase_of_notMem {k : κ} (h : k ∉ m) : m.erase k = m := AList.ext (kerase_of_notMem_keys h)

lemma gather_perm (f : β → Option γ) {k : κ} {b : β} (h : m.lookup k = some b) :
    (gather f m).Perm ((f b).toList ++ gather f (m.erase k)) := by
  have hmem : k ∈ m := AList.lookup_isSome.1 (by rw [h]; rfl)
  obtain ⟨b', l1, l2, hnot, hentries, herase⟩ := exists_of_kerase hmem
  have hb : b' = b := by
    have hlookup : (⟨k, b'⟩ : (_ : κ) × β) ∈ m.entries := by
      rw [hentries]
      exact mem_append_right _ mem_cons_self
    exact Option.some.inj ((AList.mem_lookup_iff.2 hlookup).symm.trans h)
  subst hb
  show (m.entries.filterMap fun e => f e.2).Perm ((f b').toList ++ (m.entries.kerase k).filterMap fun e => f e.2)
  rw [herase, hentries, ← filterMap_cons_toList f k b']
  exact perm_middle.filterMap _

lemma mem_gather {f : β → Option γ} {c : γ} : c ∈ gather f m ↔ ∃ k b, m.lookup k = some b ∧ f b = some c := by
  unfold gather
  rw [mem_filterMap]
  constructor
  · intro ⟨⟨k, b⟩, hmem, hf⟩
    exact ⟨k, b, AList.mem_lookup_iff.2 hmem, hf⟩
  · intro ⟨k, b, hlookup, hf⟩
    exact ⟨⟨k, b⟩, AList.mem_lookup_iff.1 hlookup, hf⟩

end

end Mushroom.Gather
