import Mushroom.L2Memory.Vm

/-!
# What a page resolves to

`map_page` looks a page up as the entry with the greatest key at or below it and
the slot at the page's offset (`resolve`). `resolve_append` and `resolve_cons`
compute it over a map taken apart at a cursor. `SplitAt` is the step `unmap` and
`mprotect` begin with: an entry is split, and nothing resolves differently.
-/
namespace Mushroom.L2
open List OrdMap Mapping

/-- A page of a mapping: what the mapping says about it, and the page resident
in its slot. -/
structure Slot where
  backing : Backing
  offset : Nat
  permissions : MemoryPermissions
  shared : Bool
  page : Option UserPage
  deriving DecidableEq

def Slot.setPerms (x : Slot) (p : MemoryPermissions) : Slot :=
  { x with permissions := p, page := x.page.map (·.setPerms p) }

/-- The slot at `offset`, with the backing page `get_page` asks for. -/
def Mapping.slot (m : Mapping) (offset : Nat) : Option Slot :=
  m.pages[offset]?.map fun p => ⟨m.backing, m.pageOffset + offset, m.permissions, m.shared, p⟩

/-- kernel/user/process/memory.rs:134-146,939-964 -/
def resolve (L : Mappings) (p : Nat) : Option Slot := (getLE L p).bind fun x => x.2.slot (p - x.1)

/-! ## Slots of a mapping -/

variable {m m₁ m₂ : Mapping} {B A : Mappings}

lemma Mapping.slot_eq_none {i : Nat} : m.slot i = none ↔ m.len ≤ i := by simp [slot, len]

lemma Mapping.splitOff_eq_some {i : Nat} (h : m.splitOff i = some (m₁, m₂)) :
    i ≤ m.len ∧ m₁ = { m with pages := m.pages.take i } ∧
      m₂ = { m with pageOffset := m.pageOffset + i, pages := m.pages.drop i } := by
  unfold splitOff at h
  split at h
  · rename_i hi
    cases h
    exact ⟨hi, rfl, rfl⟩
  · simp at h

section

variable {m m₁ m₂ : Mapping} {i : Nat} (h : m.splitOff i = some (m₁, m₂))
include h

lemma Mapping.splitOff_len : m₁.len = i ∧ m₂.len = m.len - i ∧ i ≤ m.len := by
  obtain ⟨hi, rfl, rfl⟩ := splitOff_eq_some h
  unfold len at hi ⊢
  refine ⟨?_, ?_, hi⟩
  · rw [length_take, Nat.min_eq_left hi]
  · rw [length_drop]

lemma Mapping.splitOff_slot_left {j : Nat} (hj : j < i) : m₁.slot j = m.slot j := by
  obtain ⟨-, rfl, -⟩ := splitOff_eq_some h
  simp [slot, hj]

lemma Mapping.splitOff_slot_right (j : Nat) : m₂.slot j = m.slot (i + j) := by
  obtain ⟨-, -, rfl⟩ := splitOff_eq_some h
  simp [slot, List.getElem?_drop, Nat.add_assoc]

lemma Mapping.splitOff_resident : m.resident = m₁.resident ++ m₂.resident := by
  obtain ⟨-, rfl, rfl⟩ := splitOff_eq_some h
  simp only [resident]
  rw [← filterMap_append, take_append_drop]

end

@[simp] lemma Mapping.setPerms_len (m : Mapping) (p : MemoryPermissions) : (m.setPerms p).len = m.len := by
  simp [setPerms, len]

lemma Mapping.setPerms_slot (m : Mapping) (p : MemoryPermissions) (i : Nat) :
    (m.setPerms p).slot i = (m.slot i).map (·.setPerms p) := by
  simp only [slot, setPerms, List.getElem?_map, Option.map_map]
  rfl

lemma Mapping.setPerms_resident (m : Mapping) (p : MemoryPermissions) :
    (m.setPerms p).resident = m.resident.map (·.setPerms p) := by
  simp only [resident, setPerms, filterMap_map, map_filterMap]
  rfl

@[simp] lemma Mapping.discard_len (m : Mapping) (a b : Nat) : (m.discard a b).1.len = m.len := by simp [discard, len]

lemma Mapping.discard_slot (m : Mapping) (a b i : Nat) : (m.discard a b).1.slot i =
      (m.slot i).map fun x => if a ≤ i ∧ i < b then { x with page := none } else x := by
  simp only [slot, discard, List.getElem?_mapIdx, Option.map_map]
  congr 1
  funext p
  by_cases h : a ≤ i ∧ i < b <;> simp [h]

/-! ## Lookup -/

@[simp] lemma resolve_nil (p : Nat) : resolve [] p = none := rfl

/-- The entry found is in the right part as soon as that has a key at or below
the page. -/
lemma resolve_append (A B : Mappings) (p : Nat) :
    resolve (A ++ B) p = if (getLE B p).isSome then resolve B p else resolve A p := by
  unfold resolve
  rw [getLE_append]
  cases getLE B p <;> simp

lemma resolve_cons (k : Nat) (m : Mapping) (B : Mappings) (p : Nat) : resolve ((k, m) :: B) p =
      if (getLE B p).isSome then resolve B p else if k ≤ p then m.slot (p - k) else none := by
  unfold resolve
  rw [getLE_cons]
  cases getLE B p with
  | some y => simp
  | none => by_cases h : k ≤ p <;> simp [h]

variable {p k : Nat}

lemma resolve_append_of_gt (hB : ∀ y ∈ B, p < y.1) : resolve (A ++ B) p = resolve A p := by
  unfold resolve; rw [getLE_append_of_gt hB]

lemma resolve_of_gt (hB : ∀ y ∈ B, p < y.1) : resolve B p = none := by unfold resolve; rw [getLE_eq_none.2 hB]; rfl

lemma resolve_of_not_found (h : ¬ (getLE B p).isSome) : resolve B p = none := by
  unfold resolve; rw [Option.not_isSome_iff_eq_none.1 h]; rfl

lemma getLE_cons_isSome : (getLE ((k, m) :: B) p).isSome = ((getLE B p).isSome || decide (k ≤ p)) := by
  rw [getLE_cons]
  cases getLE B p with
  | some y => simp
  | none => by_cases h : k ≤ p <;> simp [h]

/-! ## The entries of an address space -/

def Nonempty (L : Mappings) : Prop := ∀ x ∈ L, 0 < x.2.len

def Disjoint (L : Mappings) : Prop := L.Pairwise fun a b => a.1 + a.2.len ≤ b.1

instance (L : Mappings) : Decidable (Nonempty L) := inferInstanceAs (Decidable (∀ x ∈ L, _))

instance (L : Mappings) : Decidable (Disjoint L) := inferInstanceAs (Decidable (List.Pairwise _ L))

lemma Disjoint.append : Disjoint (A ++ B) ↔ Disjoint A ∧ Disjoint B ∧ ∀ a ∈ A, ∀ b ∈ B, a.1 + a.2.len ≤ b.1 :=
  pairwise_append

lemma Disjoint.cons {m : Mapping} : Disjoint ((k, m) :: B) ↔ (∀ b ∈ B, k + m.len ≤ b.1) ∧ Disjoint B := pairwise_cons

def shape (L : Mappings) : List (Nat × Nat) := L.map fun x => (x.1, x.2.len)

lemma shape_cons : shape ((k, m) :: B) = (k, m.len) :: shape B := rfl

section

variable {L L' : Mappings} (h : shape L' = shape L)
include h

lemma keys_of_shape : L'.map Prod.fst = L.map Prod.fst := by
  have := congrArg (List.map Prod.fst) h
  rwa [shape, shape, map_map, map_map] at this

lemma mem_of_shape {y : Nat × Mapping} (hy : y ∈ L') : ∃ z ∈ L, z.1 = y.1 ∧ z.2.len = y.2.len := by
  have hmem : (y.1, y.2.len) ∈ shape L := h ▸ mem_map_of_mem hy
  obtain ⟨z, hz, he⟩ := mem_map.1 hmem
  exact ⟨z, hz, by simpa using he⟩

lemma sorted_of_shape (hs : Sorted L) : Sorted L' := by
  have hkeys : (L.map Prod.fst).Pairwise (· < ·) := pairwise_map.2 hs
  rw [← keys_of_shape h] at hkeys
  exact pairwise_map.1 hkeys

lemma nonempty_of_shape (hn : Nonempty L) : Nonempty L' := by
  intro y hy
  obtain ⟨z, hz, -, hlen⟩ := mem_of_shape h hy
  exact hlen ▸ hn z hz

end

/-- The resident pages have the permissions of their mapping. -/
def Mapping.Tidy (m : Mapping) : Prop := ∀ u ∈ m.resident, u.perms = m.permissions ∧ u.shared = m.shared

/-- The entry `y` lies inside the entry `z`, its pages are pages of `z` and as
tidy. -/
structure PartOf (y z : Nat × Mapping) : Prop where
  first : z.1 ≤ y.1
  last : y.1 + y.2.len ≤ z.1 + z.2.len
  backing : y.2.backing = z.2.backing
  shared : y.2.shared = z.2.shared
  tidy : z.2.Tidy → y.2.Tidy
  pages : ∀ u ∈ y.2.resident, ∃ v ∈ z.2.resident, u.page = v.page ∧ u.shared = v.shared

def Parts (L' L : Mappings) : Prop := ∀ y ∈ L', ∃ z ∈ L, PartOf y z

lemma PartOf.refl (y : Nat × Mapping) : PartOf y y := ⟨le_rfl, le_rfl, rfl, rfl, id, fun u hu => ⟨u, hu, rfl, rfl⟩⟩

variable {x : Nat × Mapping} {L B' A' : Mappings} {page start : Nat}

lemma PartOf.trans {y z : Nat × Mapping} (h1 : PartOf x y) (h2 : PartOf y z) : PartOf x z := by
  refine ⟨le_trans h2.first h1.first, le_trans h1.last h2.last, h1.backing.trans h2.backing,
    h1.shared.trans h2.shared, fun h => h1.tidy (h2.tidy h), fun u hu => ?_⟩
  obtain ⟨v, hv, hp, hs⟩ := h1.pages u hu
  obtain ⟨w, hw, hp', hs'⟩ := h2.pages v hv
  exact ⟨w, hw, hp.trans hp', hs.trans hs'⟩

lemma Parts.refl (L : Mappings) : Parts L L := fun y hy => ⟨y, hy, .refl y⟩

lemma Parts.trans {L1 L2 : Mappings} (h2 : Parts L2 L1) (h1 : Parts L1 L) : Parts L2 L :=
  fun y hy => by
    obtain ⟨z, hz, hyz⟩ := h2 y hy
    obtain ⟨w, hw, hzw⟩ := h1 z hz
    exact ⟨w, hw, hyz.trans hzw⟩

lemma Parts.append (hA : Parts A' A) (hB : Parts B' B) : Parts (A' ++ B') (A ++ B) := fun y hy => by
  rcases mem_append.1 hy with hy | hy
  · obtain ⟨z, hz, hyz⟩ := hA y hy
    exact ⟨z, mem_append_left _ hz, hyz⟩
  · obtain ⟨z, hz, hyz⟩ := hB y hy
    exact ⟨z, mem_append_right _ hz, hyz⟩

lemma Parts.cons {z : Nat × Mapping} (hx : PartOf x z) (hB : Parts B' B) : Parts (x :: B') (z :: B) := fun y hy => by
  rcases mem_cons.1 hy with rfl | hy
  · exact ⟨z, mem_cons_self .., hx⟩
  obtain ⟨w, hw, hyw⟩ := hB y hy
  exact ⟨w, mem_cons_of_mem _ hw, hyw⟩

lemma Parts.cons_right (hB : Parts B' B) : Parts B' (x :: B) := fun y hy => by
  obtain ⟨w, hw, hyw⟩ := hB y hy
  exact ⟨w, mem_cons_of_mem _ hw, hyw⟩

lemma PartOf.splitOff (hle : page ≤ start) (h : m.splitOff (start - page) = some (m₁, m₂)) :
    PartOf (page, m₁) (page, m) ∧ PartOf (start, m₂) (page, m) := by
  obtain ⟨hl1, hl2, hlen⟩ := splitOff_len h
  have hres := splitOff_resident h
  obtain ⟨-, rfl, rfl⟩ := splitOff_eq_some h
  -- the pages of both parts are pages of the whole
  refine ⟨⟨le_rfl, ?_, rfl, rfl, fun ht u hu => ?_, fun u hu => ⟨u, ?_, rfl, rfl⟩⟩,
    ⟨hle, ?_, rfl, rfl, fun ht u hu => ?_, fun u hu => ⟨u, ?_, rfl, rfl⟩⟩⟩
  · simp only; omega
  · exact ht u (by rw [hres]; exact mem_append_left _ hu)
  · rw [hres]; exact mem_append_left _ hu
  · simp only; omega
  · exact ht u (by rw [hres]; exact mem_append_right _ hu)
  · rw [hres]; exact mem_append_right _ hu

lemma resident_append (A B : Mappings) : resident (A ++ B) = resident A ++ resident B := by simp [resident, residents]

lemma resident_cons (k : Nat) (m : Mapping) (B : Mappings) : resident ((k, m) :: B) = m.resident ++ resident B := by
  simp [resident, residents]

lemma insertable_after {before after : Mappings} (hs : Sorted after) (h : insertable k before after) :
    ∀ y ∈ after, k < y.1 := by
  intro y hy
  cases after with
  | nil => simp at hy
  | cons z after =>
    have hz : k < z.1 := by simpa [insertable] using (Bool.and_eq_true_iff.1 h).2
    rcases mem_cons.1 hy with rfl | hy
    · exact hz
    · exact lt_trans hz ((sorted_cons.1 hs).1 y hy)

lemma resolve_eq_none_of_le (h : ∀ a ∈ A, a.1 + a.2.len ≤ p) : resolve A p = none := by
  unfold resolve
  cases hA : getLE A p with
  | none => rfl
  | some x =>
    have := h x (getLE_mem hA).1
    exact slot_eq_none.2 (by omega)

lemma getLE_isSome_of_mem {b : Nat × Mapping} (hb : b ∈ B) (hp : b.1 ≤ p) : (getLE B p).isSome := by
  rw [Option.isSome_iff_ne_none]
  intro h
  exact absurd (getLE_eq_none.1 h b hb) (Nat.not_lt.2 hp)

/-! ## Splitting an entry -/

lemma resolve_split (hlt : page < start) (hB : ∀ b ∈ B, start < b.1)
    (hsplit : m.splitOff (start - page) = some (m₁, m₂)) (p : Nat) :
    resolve (A ++ (page, m₁) :: (start, m₂) :: B) p = resolve (A ++ (page, m) :: B) p := by
  have hmid : resolve ((page, m₁) :: (start, m₂) :: B) p = resolve ((page, m) :: B) p := by
    by_cases hp : start ≤ p
    · rw [resolve_cons, if_pos (getLE_isSome_of_mem (mem_cons_self ..) hp), resolve_cons,
        resolve_cons, if_pos hp, if_pos (by omega : page ≤ p),
        splitOff_slot_right hsplit]
      congr 2; omega
    have hB' : ∀ b ∈ B, p < b.1 := fun b hb => by have := hB b hb; omega
    have hnone : getLE ((start, m₂) :: B) p = none := getLE_eq_none.2 fun y hy => by
      rcases mem_cons.1 hy with rfl | hy
      · exact Nat.not_le.1 hp
      · exact hB' y hy
    rw [resolve_cons page m₁, resolve_cons page m, hnone, getLE_eq_none.2 hB']
    by_cases hk : page ≤ p
    · simp only [Option.isSome_none, hk, if_true, Bool.false_eq_true, if_false]
      exact splitOff_slot_left hsplit (by omega)
    · simp [hk]
  rw [resolve_append, resolve_append, hmid]
  congr 2
  rw [Bool.eq_iff_iff]
  simp only [Option.isSome_iff_ne_none, ne_eq, getLE_eq_none, forall_mem_cons]
  constructor
  · intro h h'; exact h ⟨h'.1, by omega, h'.2⟩
  · intro h h'; exact h ⟨h'.1, h'.2.2⟩

/-- The map with the entry `(page, m)` split at `start`, before anything else is done. -/
structure SplitAt (start : Nat) (L L₁ : Mappings) : Prop where
  sorted : Sorted L₁
  nonempty : Nonempty L₁
  resolves : ∀ p, resolve L₁ p = resolve L p
  resident : resident L₁ = resident L
  parts : Parts L₁ L
  disjoint : Disjoint L → Disjoint L₁

lemma SplitAt.of_splitOff (hs : Sorted (A ++ (page, m) :: B))
    (hn : Nonempty (A ++ (page, m) :: B)) (hlt : page < start) (hend : start < page + m.len)
    (hB : ∀ b ∈ B, start < b.1) (hsplit : m.splitOff (start - page) = some (m₁, m₂)) :
    SplitAt start (A ++ (page, m) :: B) (A ++ (page, m₁) :: (start, m₂) :: B) := by
  obtain ⟨hl1, hl2, -⟩ := splitOff_len hsplit
  obtain ⟨hsA, hsB, hAB⟩ := sorted_append.1 hs
  have hA : ∀ a ∈ A, a.1 < page := fun a ha => hAB a ha (page, m) (mem_cons_self ..)
  refine ⟨?_, ?_, resolve_split hlt hB hsplit, ?_, ?_, fun hd => ?_⟩
  · refine sorted_append.2 ⟨hsA, sorted_cons.2 ⟨?_, sorted_cons.2 ⟨hB, (sorted_cons.1 hsB).2⟩⟩, ?_⟩
    · rw [forall_mem_cons]
      exact ⟨hlt, fun y hy => lt_trans hlt (hB y hy)⟩
    intro a ha
    have := hA a ha
    simp only [forall_mem_cons]
    exact ⟨this, by omega, fun y hy => by have := hB y hy; omega⟩
  · intro y hy
    simp only [mem_append, mem_cons] at hy
    rcases hy with hy | rfl | rfl | hy
    · exact hn y (by simp [hy])
    · show 0 < m₁.len; omega
    · show 0 < m₂.len; omega
    · exact hn y (by simp [hy])
  · simp only [resident_append, resident_cons, splitOff_resident hsplit, append_assoc]
  · obtain ⟨hp1, hp2⟩ := PartOf.splitOff hlt.le hsplit
    refine (Parts.refl A).append fun y hy => ?_
    simp only [mem_cons] at hy
    rcases hy with rfl | rfl | hy
    · exact ⟨_, mem_cons_self .., hp1⟩
    · exact ⟨_, mem_cons_self .., hp2⟩
    · exact ⟨y, mem_cons_of_mem _ hy, .refl y⟩
  obtain ⟨hdA, hdB, hdAB⟩ := Disjoint.append.1 hd
  obtain ⟨hdm, hdB⟩ := Disjoint.cons.1 hdB
  refine Disjoint.append.2 ⟨hdA, Disjoint.cons.2 ⟨?_, Disjoint.cons.2 ⟨?_, hdB⟩⟩, ?_⟩
  · rw [forall_mem_cons]
    exact ⟨by show page + m₁.len ≤ start; omega, fun b hb => by have := hdm b hb; omega⟩
  · intro b hb; have := hdm b hb; omega
  intro a ha
  have := hdAB a ha (page, m) (mem_cons_self ..)
  simp only [forall_mem_cons]
  exact ⟨this, by omega, fun y hy => hdAB a ha y (mem_cons_of_mem _ hy)⟩

/-- The cursor of `unmap` and `mprotect` behind their first step: the page `start` is mapped or nothing
lies below it, and the entry that begins below `start` and reaches over it is split. -/
structure Opened (start : Nat) (L A B : Mappings) : Prop where
  split : SplitAt start L (A ++ B)
  below : ∀ a ∈ A, a.1 < start
  above : ∀ b ∈ B, start ≤ b.1
  head : A = [] ∨ ∃ b ∈ B, b.1 = start
  full : ∀ x, getLE L start = some x → start < x.1 + x.2.len

lemma Opened.sorted (h : Opened start L A B) : Sorted B := (sorted_append.1 h.split.sorted).2.1

lemma Opened.nonempty (h : Opened start L A B) : Nonempty B := fun y hy => h.split.nonempty y (mem_append_right _ hy)

/-- Where the cursor is: at an entry it need not split, or at one that begins below `start`. -/
lemma seekLE_opened (hs : Sorted L) (hn : Nonempty L) (start : Nat) :
    ∃ A B, seekLE L start = (A.reverse, B) ∧ L = A ++ B ∧ (Opened start L A B ∨
      ∃ page m rest, B = (page, m) :: rest ∧ page < start ∧ getLE L start = some (page, m) ∧
        (∀ b ∈ rest, start < b.1) ∧ ∀ m₁ m₂, start < page + m.len → m.splitOff (start - page) = some (m₁, m₂) →
          Opened start L (A ++ [(page, m₁)]) ((start, m₂) :: rest)) := by
  obtain ⟨A, B, hseek, rfl, hpos⟩ := seekLE_cases hs start
  refine ⟨A, B, hseek, rfl, ?_⟩
  have hrefl : SplitAt start (A ++ B) (A ++ B) := ⟨hs, hn, fun _ => rfl, rfl, .refl _, id⟩
  rcases hpos with ⟨rfl, hafter⟩ | ⟨⟨page, m⟩, rest, rfl, hk, hrest, hA⟩
  · refine .inl ⟨hrefl, by simp, fun y hy => (hafter y hy).le, .inl rfl, fun x hx => ?_⟩
    have hgt := hafter x (getLE_mem hx).1
    have hle := (getLE_mem hx).2
    omega
  have hget : getLE (A ++ (page, m) :: rest) start = some (page, m) := getLE_of_split hk hrest
  simp only at hk hA
  rcases hk.lt_or_eq with hlt | rfl
  · refine .inr ⟨page, m, rest, rfl, hlt, hget, hrest, fun m₁ m₂ hend hsplit => ?_⟩
    have hsp := SplitAt.of_splitOff hs hn hlt hend hrest hsplit
    refine ⟨by rw [append_assoc]; exact hsp, fun a ha => ?_, ?_, .inr ⟨_, mem_cons_self .., rfl⟩, fun x hx => ?_⟩
    · rcases mem_append.1 ha with ha | ha
      · exact lt_trans (hA a ha) hlt
      rw [mem_singleton.1 ha]
      exact hlt
    · exact forall_mem_cons.2 ⟨le_rfl, fun y hy => (hrest y hy).le⟩
    · cases hget.symm.trans hx
      exact hend
  · refine .inl ⟨hrefl, hA, forall_mem_cons.2 ⟨le_rfl, fun y hy => (hrest y hy).le⟩,
      .inr ⟨_, mem_cons_self .., rfl⟩, fun x hx => ?_⟩
    cases hget.symm.trans hx
    have := hn (page, m) (by simp)
    simp only at this ⊢
    omega

end Mushroom.L2
