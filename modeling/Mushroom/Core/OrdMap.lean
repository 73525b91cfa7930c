import Mathlib

/-!
# Ordered maps with a cursor

An ordered map is the list of its entries in key order. `getLE m k` is the entry
with the greatest key at most `k` (`BTreeMap::range(..=k).next_back()`),
`seekLE m k` a cursor moved to the upper bound of `k` and one entry back,
`insertable` the key order a cursor demands, and `insert` `BTreeMap::insert`.

`getLE_append` is the rule of all lookup proofs: the entry is found in the right
part as soon as that part has a key at most `k`.
-/
namespace Mushroom.OrdMap
open List

variable {K V : Type} [LinearOrder K]

def Sorted (m : List (K × V)) : Prop := m.Pairwise fun a b => a.1 < b.1

def getLE (m : List (K × V)) (k : K) : Option (K × V) := (m.filter fun x => x.1 ≤ k).getLast?

/-- Entries behind the cursor (nearest first) and in front of it, after
`upper_bound_mut(Included(k))` and one `prev()`. -/
def seekLE (m : List (K × V)) (k : K) : List (K × V) × List (K × V) :=
  match (m.takeWhile fun x => x.1 ≤ k).reverse with
  | [] => ([], m.dropWhile fun x => x.1 ≤ k)
  | x :: before => (before, x :: m.dropWhile fun x => x.1 ≤ k)

/-- A cursor between `before` and `after` accepts an entry with key `k`. -/
def insertable (k : K) (before after : List (K × V)) : Bool :=
  (before.head?.all fun x => x.1 < k) && (after.head?.all fun x => k < x.1)

/-- `BTreeMap::insert`: replace the entry with key `k`, or add it in order. -/
def insert (k : K) (v : V) : List (K × V) → List (K × V)
  | [] => [(k, v)]
  | (k', v') :: m =>
    if k < k' then (k, v) :: (k', v') :: m
    else if k = k' then (k, v) :: m
    else (k', v') :: insert k v m

/-! ## Sorted lists -/

lemma sorted_nil : Sorted ([] : List (K × V)) := List.Pairwise.nil

variable {m a b : List (K × V)} {x y : K × V} {k : K} {v : V}

lemma sorted_cons : Sorted (x :: m) ↔ (∀ y ∈ m, x.1 < y.1) ∧ Sorted m := pairwise_cons

lemma sorted_append : Sorted (a ++ b) ↔ Sorted a ∧ Sorted b ∧ ∀ x ∈ a, ∀ y ∈ b, x.1 < y.1 := pairwise_append

/-- The cursor keeps the map: the entries on its two sides make up `m`. -/
lemma seekLE_eq (m : List (K × V)) (k : K) : (seekLE m k).1.reverse ++ (seekLE m k).2 = m := by
  have h := takeWhile_append_dropWhile (p := fun x : K × V => decide (x.1 ≤ k)) (l := m)
  unfold seekLE
  split
  · rename_i hr
    rw [reverse_eq_nil_iff] at hr
    rw [hr] at h; simpa using h
  rename_i x before hr
  have hr' := congrArg List.reverse hr
  simp only [reverse_reverse, reverse_cons] at hr'
  rw [hr'] at h; simpa using h

lemma mem_takeWhile_le (hx : x ∈ m.takeWhile fun x => x.1 ≤ k) : x.1 ≤ k := by simpa using mem_takeWhile_imp hx

lemma mem_dropWhile_gt (hs : Sorted m) (hx : x ∈ m.dropWhile fun x => x.1 ≤ k) : k < x.1 := by
  induction m with
  | nil => simp at hx
  | cons y m ih =>
    obtain ⟨hy, hm⟩ := sorted_cons.1 hs
    by_cases hk : y.1 ≤ k
    · rw [dropWhile_cons_of_pos (by simpa using hk)] at hx
      exact ih hm hx
    rw [dropWhile_cons_of_neg (by simpa using hk)] at hx
    rcases mem_cons.1 hx with rfl | hx
    · exact not_le.1 hk
    · exact lt_trans (not_le.1 hk) (hy x hx)

/-- Every entry behind the cursor has a smaller key than `k`; of those in front only the first can have
one at most `k`. -/
lemma seekLE_spec (hs : Sorted m) (k : K) : ((seekLE m k).1 = [] ∧ ∀ x ∈ (seekLE m k).2, k < x.1) ∨
      ∃ x rest, (seekLE m k).2 = x :: rest ∧ x.1 ≤ k ∧ (∀ y ∈ rest, k < y.1) ∧ ∀ y ∈ (seekLE m k).1, y.1 < x.1 := by
  have hm := seekLE_eq m k
  unfold seekLE at hm ⊢
  split
  · exact .inl ⟨rfl, fun x hx => mem_dropWhile_gt hs hx⟩
  rename_i x before hr
  rw [hr] at hm
  refine .inr ⟨x, _, rfl, ?_, fun y hy => mem_dropWhile_gt hs hy, ?_⟩
  · exact mem_takeWhile_le (mem_reverse.1 (hr ▸ mem_cons_self ..))
  intro y hy
  rw [← hm] at hs
  exact (sorted_append.1 hs).2.2 y (mem_reverse.2 hy) x (mem_cons_self ..)

lemma seekLE_cases (hs : Sorted m) (k : K) : ∃ a b, seekLE m k = (a.reverse, b) ∧ m = a ++ b ∧
      ((a = [] ∧ ∀ y ∈ b, k < y.1) ∨
        ∃ x rest, b = x :: rest ∧ x.1 ≤ k ∧ (∀ y ∈ rest, k < y.1) ∧ ∀ y ∈ a, y.1 < x.1) := by
  refine ⟨(seekLE m k).1.reverse, (seekLE m k).2, by simp, (seekLE_eq m k).symm, ?_⟩
  rcases seekLE_spec hs k with ⟨h, hb⟩ | ⟨x, rest, hb, hx, hrest, ha⟩
  · exact .inl ⟨by simp [h], hb⟩
  · exact .inr ⟨x, rest, hb, hx, hrest, fun y hy => ha y (mem_reverse.1 hy)⟩

/-! ## Lookup -/

@[simp] lemma getLE_nil (k : K) : getLE ([] : List (K × V)) k = none := rfl

lemma getLE_append (a b : List (K × V)) (k : K) : getLE (a ++ b) k = (getLE b k).or (getLE a k) := by
  unfold getLE; rw [filter_append, List.getLast?_append]

lemma getLE_eq_none : getLE m k = none ↔ ∀ x ∈ m, k < x.1 := by unfold getLE; simp

lemma getLE_mem (h : getLE m k = some x) : x ∈ m ∧ x.1 ≤ k := by
  have := mem_of_getLast? h
  simpa using mem_filter.1 this

lemma getLE_cons (x : K × V) (m : List (K × V)) (k : K) :
    getLE (x :: m) k = (getLE m k).or (if x.1 ≤ k then some x else none) := by
  have h := getLE_append [x] m k
  rw [singleton_append] at h
  rw [h]; congr 1
  unfold getLE; by_cases hx : x.1 ≤ k <;> simp [hx]

/-- With sorted keys, the entry found is the one behind which no key is at
most `k`. -/
lemma getLE_of_split (hx : x.1 ≤ k) (hb : ∀ y ∈ b, k < y.1) : getLE (a ++ x :: b) k = some x := by
  rw [getLE_append, getLE_cons, getLE_eq_none.2 hb, if_pos hx]; rfl

lemma getLE_append_of_gt (hb : ∀ y ∈ b, k < y.1) : getLE (a ++ b) k = getLE a k := by
  rw [getLE_append, getLE_eq_none.2 hb]; rfl

/-- Every entry the lookup finds splits a sorted map at its position. -/
lemma getLE_split (hs : Sorted m) (h : getLE m k = some x) : ∃ a b, m = a ++ x :: b ∧ ∀ y ∈ b, k < y.1 := by
  obtain ⟨hm, hle⟩ := getLE_mem h
  obtain ⟨a, b, rfl⟩ := append_of_mem hm
  refine ⟨a, b, rfl, fun y hy => ?_⟩
  by_contra hk
  rw [getLE_append, getLE_cons] at h
  cases hb : getLE b k with
  | none => exact hk (getLE_eq_none.1 hb y hy)
  | some z =>
    rw [hb] at h
    have hxz : z = x := by simpa using h
    have hlt := ((sorted_append.1 hs).2.1 |> sorted_cons.1).1 z (getLE_mem hb).1
    rw [hxz] at hlt; exact lt_irrefl _ hlt

/-! ## Insertion -/

/-- A key that is not in a sorted map has a place in it. -/
lemma split_of_fresh (hs : Sorted m) (hk : ∀ x ∈ m, x.1 ≠ k) :
    ∃ a b, m = a ++ b ∧ (∀ x ∈ a, x.1 < k) ∧ ∀ y ∈ b, k < y.1 := by
  refine ⟨m.takeWhile fun x => x.1 ≤ k, m.dropWhile fun x => x.1 ≤ k,
    takeWhile_append_dropWhile.symm, fun x hx => ?_, fun y hy => mem_dropWhile_gt hs hy⟩
  exact lt_of_le_of_ne (mem_takeWhile_le hx) (hk x ((List.takeWhile_prefix _).subset hx))

lemma mem_insert (h : y ∈ insert k v m) : y = (k, v) ∨ y ∈ m := by
  induction m with
  | nil => simpa [insert] using h
  | cons z m ih =>
    obtain ⟨k', v'⟩ := z
    unfold insert at h
    split at h
    · simpa using h
    split at h
    · rcases mem_cons.1 h with h | h
      · exact .inl h
      · exact .inr (mem_cons_of_mem _ h)
    · rcases mem_cons.1 h with h | h
      · exact .inr (h ▸ mem_cons_self ..)
      · exact (ih h).imp id (mem_cons_of_mem _)

lemma insert_split (ha : ∀ x ∈ a, x.1 < k) (hb : ∀ y ∈ b, k < y.1) : insert k v (a ++ b) = a ++ (k, v) :: b := by
  induction a with
  | nil =>
    cases b with
    | nil => rfl
    | cons y b => simp [insert, hb y (mem_cons_self ..)]
  | cons x a ih =>
    have hx := ha x (mem_cons_self ..)
    simp only [cons_append, insert, if_neg (not_lt.2 hx.le), if_neg hx.ne']
    rw [ih fun y hy => ha y (mem_cons_of_mem _ hy)]

lemma mem_insert_iff (hs : Sorted m) : y ∈ insert k v m ↔ y = (k, v) ∨ y ∈ m ∧ y.1 ≠ k := by
  induction m with
  | nil => simp [insert]
  | cons z m ih =>
    obtain ⟨k', v'⟩ := z
    obtain ⟨hz, hm⟩ := sorted_cons.1 hs
    unfold insert
    split
    · -- the new key is the smallest
      rename_i hlt
      have hne : ∀ x ∈ (k', v') :: m, x.1 ≠ k := by
        intro x hx
        rcases mem_cons.1 hx with rfl | hx
        · exact hlt.ne'
        · exact (hlt.trans (hz x hx)).ne'
      rw [mem_cons]
      exact or_congr Iff.rfl ⟨fun h => ⟨h, hne y h⟩, And.left⟩
    · split
      · rename_i hk
        subst hk
        have hne : y ∈ m → y.1 ≠ k := fun h => (hz y h).ne'
        simp only [mem_cons]
        grind
      · rename_i hk
        rw [mem_cons, ih hm, mem_cons]
        grind

lemma sorted_insert (hs : Sorted m) (k : K) (v : V) : Sorted (insert k v m) := by
  induction m with
  | nil => exact sorted_cons.2 ⟨fun y hy => absurd hy not_mem_nil, sorted_nil⟩
  | cons z m ih =>
    obtain ⟨k', v'⟩ := z
    obtain ⟨hz, hm⟩ := sorted_cons.1 hs
    unfold insert
    split
    · rename_i hlt
      refine sorted_cons.2 ⟨fun y hy => ?_, hs⟩
      rcases mem_cons.1 hy with rfl | hy
      · exact hlt
      · exact hlt.trans (hz y hy)
    rename_i hnlt
    split
    · rename_i hk
      subst hk
      exact sorted_cons.2 ⟨hz, hm⟩
    rename_i hk
    refine sorted_cons.2 ⟨fun y hy => ?_, ih hm⟩
    rcases mem_insert hy with rfl | hy
    · exact lt_of_le_of_ne (not_lt.1 hnlt) (Ne.symm hk)
    · exact hz y hy

lemma sorted_filter (hs : Sorted m) (p : K × V → Bool) : Sorted (m.filter p) := List.Pairwise.filter p hs

/-! ## The map as a function -/

/-- `BTreeMap::get` -/
def get (m : List (K × V)) (k : K) : Option V := (m.find? fun x => x.1 = k).map Prod.snd

lemma get_eq_some (hs : Sorted m) : get m k = some v ↔ (k, v) ∈ m := by
  induction m with
  | nil => simp [get]
  | cons z m ih =>
    obtain ⟨hz, hm⟩ := sorted_cons.1 hs
    rw [mem_cons, get]
    by_cases hk : z.1 = k
    · rw [List.find?_cons_of_pos (by simpa using hk)]
      subst hk
      constructor
      · intro h
        cases h
        exact .inl rfl
      rintro (h | h)
      · rw [← h]
        rfl
      · exact absurd (hz _ h) (lt_irrefl _)
    · rw [List.find?_cons_of_neg (by simpa using hk)]
      refine (ih hm).trans ⟨.inr, fun h => ?_⟩
      rcases h with h | h
      · exact absurd (congrArg Prod.fst h).symm hk
      · exact h

lemma get_insert (hs : Sorted m) (k : K) (v : V) (j : K) :
    get (insert k v m) j = if j = k then some v else get m j := by
  have hs' := sorted_insert hs k v
  split
  · rename_i hj
    subst hj
    exact (get_eq_some hs').2 ((mem_insert_iff hs).2 (.inl rfl))
  rename_i hj
  refine Option.ext fun w => ?_
  rw [get_eq_some hs', get_eq_some hs, mem_insert_iff hs]
  constructor
  · rintro (h | h)
    · exact absurd (congrArg Prod.fst h) hj
    · exact h.1
  · exact fun h => .inr ⟨h, hj⟩

end Mushroom.OrdMap
