import Mushroom.L2Memory.FixedSize

/-!
# The chain of allocators

`Combined` nests thirteen fixed-size allocators, each a `FallbackAllocator`'s
first choice with the rest as its fallback, and the huge allocator at the end.
The first whose size is at least the layout's size and alignment serves it
(`level`). So every operation works at the level of its layout (`allocate_at`,
`deallocate_at`), and `grow` and `shrink` leave the block where it is or move it
to the level of the new layout (`resize_eq`). The levels that the operations
report are not in the source: they record which allocator did the work.
-/
namespace Mushroom.L2.KernelHeap
open Option Function FreeList ChunkHeader

/-- kernel/memory/heap/combined_allocator.rs:9-13 -/
def bucketSizes : List Nat := [8, 16, 24, 32, 40, 48, 64, 96, 128, 256, 512, 1024, 4096]

abbrev Buckets := List FixedSizeAllocator

def sizes (bs : Buckets) : List Nat := bs.map (·.n)

/-- The first allocator that can serve a layout; behind the last one is the huge allocator. -/
def level : List Nat → Layout → Nat
  | [], _ => 0
  | n :: ns, l => if l.size ≤ n && l.align ≤ n then 0 else level ns l + 1

/-! ## The operations -/

def Memory.copy (m : Memory) (src dst len : Nat) : Memory :=
  { m with bytes := writeMem m.bytes dst (readMem m.bytes src len) }

/-- kernel/memory/heap/fallback_allocator.rs:25-31 -/
def allocate : Buckets → Memory → Supply → Layout → Option (Option (Nat × Nat) × Buckets × Memory)
  | [], m, s, l => (HugeAllocator.allocate m s l).map fun r => (r.1.map (·, 0), [], r.2)
  | a :: bs, m, s, l =>
    if a.canAllocate l then (a.allocate m s l).map fun r => (r.1.map (·, 0), r.2.1 :: bs, r.2.2)
    else (allocate bs m s l).map fun r => (r.1.map fun x => (x.1, x.2 + 1), a :: r.2.1, r.2.2)

/-- The level that takes the block back; the huge allocator unmaps its pages for good.
fallback_allocator.rs:33-39 -/
def deallocate : Buckets → Memory → Nat → Layout → Option (Nat × Buckets × Memory)
  | [], m, p, _ => if p % 4096 = 0 then some (0, [], m) else none
  | a :: bs, m, p, l =>
    if a.canAllocate l then (a.deallocate m p).map fun r => (0, r.1 :: bs, r.2)
    else (deallocate bs m p l).map fun r => (r.1 + 1, a :: r.2.1, r.2.2)

/-- The block and its level (none is `AllocError`), and the level asked to resize the old block or take it back. -/
structure Resized where
  block : Option (Nat × Nat)
  routed : Option Nat

def Resized.succ (r : Resized) : Resized := ⟨r.block.map fun x => (x.1, x.2 + 1), r.routed.map (· + 1)⟩

/-- `inPlace` is the first choice's own resizing, `len` the number of bytes that are copied.
fallback_allocator.rs:41-86 -/
def resize (inPlace : FixedSizeAllocator → Nat → Layout → Option Nat) (len : Nat) :
    Buckets → Memory → Supply → Nat → Layout → Layout → Option (Resized × Buckets × Memory)
  | [], m, s, p, old, new => do
    let (r, bs, m) ← allocate [] m s new
    match r with
    | none => some (⟨none, none⟩, bs, m)
    | some x =>
      let (j, bs, m) ← deallocate bs (m.copy p x.1 len) p old
      some (⟨some x, some j⟩, bs, m)
  | a :: bs, m, s, p, old, new =>
    match a.canAllocate old, a.canAllocate new with
    | true, true => some (⟨(inPlace a p new).map (·, 0), some 0⟩, a :: bs, m)
    | true, false => do
      let (r, bs, m) ← allocate bs m s new
      match r with
      | none => some (⟨none, none⟩, a :: bs, m)
      | some x =>
        let (a, m) ← a.deallocate (m.copy p x.1 len) p
        some (⟨some (x.1, x.2 + 1), some 0⟩, a :: bs, m)
    | false, true => do
      let (r, a, m) ← a.allocate m s new
      match r with
      | none => some (⟨none, none⟩, a :: bs, m)
      | some q =>
        let (j, bs, m) ← deallocate bs (m.copy p q len) p old
        some (⟨some (q, 0), some (j + 1)⟩, a :: bs, m)
    | false, false => (resize inPlace len bs m s p old new).map fun r => (r.1.succ, a :: r.2.1, r.2.2)

/-- fallback_allocator.rs:41-86 -/
def grow (bs : Buckets) (m : Memory) (s : Supply) (p : Nat) (old new : Layout) :
    Option (Resized × Buckets × Memory) := resize FixedSizeAllocator.grow old.size bs m s p old new

/-- fallback_allocator.rs:136-181 -/
def shrink (bs : Buckets) (m : Memory) (s : Supply) (p : Nat) (old new : Layout) :
    Option (Resized × Buckets × Memory) := resize FixedSizeAllocator.shrink new.size bs m s p old new

/-- A size that does not change is `unreachable!()`.
combined_allocator.rs:69-88 -/
def realloc (bs : Buckets) (m : Memory) (s : Supply) (p : Nat) (l : Layout) (newSize : Nat) :
    Option (Resized × Buckets × Memory) :=
  match l.resize newSize with
  | none => some (⟨none, none⟩, bs, m)
  | some new =>
    if l.size < newSize then grow bs m s p l new
    else if l.size = newSize then none
    else shrink bs m s p l new

/-! ## Levels -/

section

variable {a a' : FixedSizeAllocator} {bs : Buckets} {m : Memory} {s : Supply} {l old new : Layout} {p : Nat}

lemma sizes_getElem? (bs : Buckets) (k : Nat) : (sizes bs)[k]? = bs[k]?.map (·.n) := List.getElem?_map ..

lemma sizes_set {k : Nat} (h : bs[k]? = some a) (hn : a'.n = a.n) : sizes (bs.set k a') = sizes bs := by
  apply List.ext_getElem?
  intro j
  rw [sizes_getElem?, sizes_getElem?, List.getElem?_set]
  by_cases hj : k = j
  · subst hj
    have hk : k < bs.length := (List.getElem?_eq_some_iff.1 h).1
    rw [if_pos rfl, if_pos hk, h, map_some, map_some, hn]
  · simp [hj]

lemma fits_of_level {ns : List Nat} {n : Nat} (h : ns[level ns l]? = some n) : l.size ≤ n ∧ l.align ≤ n := by
  induction ns with
  | nil => simp at h
  | cons k ns ih =>
    simp only [level] at h
    split at h
    · rename_i hfit
      simp only [List.getElem?_cons_zero, Option.some.injEq] at h
      simpa [h] using hfit
    · exact ih h

lemma canAllocate_of_level (h : bs[level (sizes bs) l]? = some a) : a.canAllocate l := by
  have hn : (sizes bs)[level (sizes bs) l]? = some a.n := by rw [sizes_getElem?, h, map_some]
  simpa [FixedSizeAllocator.canAllocate] using fits_of_level hn

lemma level_pos (h : a.canAllocate l) : level (sizes (a :: bs)) l = 0 := if_pos h

lemma level_neg (h : a.canAllocate l = false) : level (sizes (a :: bs)) l = level (sizes bs) l + 1 :=
  if_neg (by simpa [FixedSizeAllocator.canAllocate] using h)

lemma allocate_at (bs : Buckets) (m : Memory) (s : Supply) (l : Layout) : allocate bs m s l =
      match bs[level (sizes bs) l]? with
      | some a => (a.allocate m s l).map fun r =>
          (r.1.map (·, level (sizes bs) l), bs.set (level (sizes bs) l) r.2.1, r.2.2)
      | none => (HugeAllocator.allocate m s l).map fun r => (r.1.map (·, level (sizes bs) l), bs, r.2) := by
  induction bs with
  | nil => rfl
  | cons a bs ih =>
    simp only [allocate]
    cases hcan : a.canAllocate l with
    | true =>
      rw [if_pos rfl, level_pos hcan]
      rfl
    | false =>
      rw [if_neg (by simp), level_neg hcan, List.getElem?_cons_succ, ih]
      cases hget : bs[level (sizes bs) l]? with
      | none => simp [comp_def]
      | some b => simp [comp_def]

lemma deallocate_at (bs : Buckets) (m : Memory) (p : Nat) (l : Layout) : deallocate bs m p l =
      match bs[level (sizes bs) l]? with
      | some a => (a.deallocate m p).map fun r => (level (sizes bs) l, bs.set (level (sizes bs) l) r.1, r.2)
      | none => if p % 4096 = 0 then some (level (sizes bs) l, bs, m) else none := by
  induction bs with
  | nil => rfl
  | cons a bs ih =>
    simp only [deallocate]
    cases hcan : a.canAllocate l with
    | true =>
      rw [if_pos rfl, level_pos hcan]
      rfl
    | false =>
      rw [if_neg (by simp), level_neg hcan, List.getElem?_cons_succ, ih]
      cases hget : bs[level (sizes bs) l]? with
      | none =>
        simp only
        split <;> rfl
      | some b => simp [comp_def]

/-- A block is allocated for the new layout, the bytes are copied, the old block is given back. -/
def move (len : Nat) (bs : Buckets) (m : Memory) (s : Supply) (p : Nat) (old new : Layout) :
    Option (Resized × Buckets × Memory) := do
  let (r, bs, m) ← allocate bs m s new
  match r with
  | none => some (⟨none, none⟩, bs, m)
  | some x =>
    let (j, bs, m) ← deallocate bs (m.copy p x.1 len) p old
    some (⟨some x, some j⟩, bs, m)

/-- Under one more first choice that can serve neither layout. -/
lemma move_cons (len : Nat) (hold : a.canAllocate old = false) (hnew : a.canAllocate new = false) :
    move len (a :: bs) m s p old new = (move len bs m s p old new).map fun r => (r.1.succ, a :: r.2.1, r.2.2) := by
  simp only [move, allocate, hnew, Bool.false_eq_true, if_false]
  cases allocate bs m s new with
  | none => rfl
  | some out =>
    obtain ⟨r, bs', m'⟩ := out
    cases r with
    | none => rfl
    | some x =>
      simp only [map_some, bind_eq_bind, bind_some, deallocate, hold, Bool.false_eq_true, if_false]
      cases deallocate bs' (m'.copy p x.1 len) p old with
      | none => rfl
      | some out => rfl

/-- A block stays where it is exactly if one of the fixed-size allocators serves both layouts. -/
lemma resize_eq (inPlace : FixedSizeAllocator → Nat → Layout → Option Nat) (len : Nat) :
    resize inPlace len bs m s p old new =
      if level (sizes bs) old = level (sizes bs) new then
        match bs[level (sizes bs) new]? with
        | some a => some (⟨(inPlace a p new).map (·, level (sizes bs) new), some (level (sizes bs) new)⟩, bs, m)
        | none => move len bs m s p old new
      else move len bs m s p old new := by
  induction bs with
  | nil => rfl
  | cons a bs ih =>
    cases hold : a.canAllocate old with
    | true =>
      cases hnew : a.canAllocate new with
      | true =>
        rw [level_pos hold, level_pos hnew, if_pos rfl, List.getElem?_cons_zero]
        simp only [resize, hold, hnew]
      | false =>
        rw [level_pos hold, level_neg hnew, if_neg (by omega)]
        simp only [resize, hold, hnew, move, allocate, Bool.false_eq_true, if_false]
        cases allocate bs m s new with
        | none => rfl
        | some out =>
          obtain ⟨r, bs', m'⟩ := out
          cases r with
          | none => rfl
          | some x =>
            simp only [map_some, bind_eq_bind, bind_some, deallocate, hold, if_true]
            cases a.deallocate (m'.copy p x.1 len) p with
            | none => rfl
            | some out => rfl
    | false =>
      cases hnew : a.canAllocate new with
      | true =>
        rw [level_neg hold, level_pos hnew, if_neg (by omega)]
        simp only [resize, hold, hnew, move, allocate, if_true]
        cases hout : a.allocate m s new with
        | none => rfl
        | some out =>
          obtain ⟨r, a', m'⟩ := out
          have hold' : a'.canAllocate old = false := by
            rw [FixedSizeAllocator.canAllocate, allocate_n hout]
            exact hold
          cases r with
          | none => rfl
          | some q =>
            simp only [map_some, bind_eq_bind, bind_some, deallocate, hold', Bool.false_eq_true, if_false]
            cases deallocate bs (m'.copy p q len) p old with
            | none => rfl
            | some out => rfl
      | false =>
        rw [level_neg hold, level_neg hnew, List.getElem?_cons_succ]
        simp only [resize, hold, hnew, ih, Nat.add_right_cancel_iff, move_cons len hold hnew]
        split
        · cases bs[level (sizes bs) new]? with
          | none => rfl
          | some b => simp [Resized.succ, comp_def]
        · rfl

end

end Mushroom.L2.KernelHeap
