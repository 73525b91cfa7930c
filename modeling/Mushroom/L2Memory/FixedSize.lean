import Mushroom.L2Memory.HeapChunk

/-!
# Allocators of one size

A `FixedSizeAllocator<N>` keeps its chunks in a sorted vector, with two hints
where to look first. They never matter for what is handed out: an allocation
takes an entry of one of its chunks or of a new one (`Served`,
`allocate_served`). A deallocation puts the entry back and gives an unused chunk
to the supervisor (`deallocate_eq`, `tryRelease_ok`).
-/
namespace Mushroom.L2.KernelHeap
open List Option FreeList ChunkHeader

/-! ## Sorted vectors -/

def binarySearch (xs : List Nat) (x : Nat) : Except Nat Nat :=
  if x ∈ xs then .ok (xs.idxOf x) else .error (xs.countP (· < x))

lemma sorted_insertIdx {xs : List Nat} {x : Nat} (hs : xs.Pairwise (· < ·)) (hx : x ∉ xs) :
    (xs.insertIdx (xs.countP (· < x)) x).Pairwise (· < ·) := by
  induction xs with
  | nil => simp
  | cons y xs ih =>
    obtain ⟨hy, hxs⟩ := pairwise_cons.1 hs
    have hxy : x ≠ y := fun h => hx (h ▸ mem_cons_self)
    have hxxs : x ∉ xs := fun h => hx (mem_cons_of_mem y h)
    by_cases hlt : y < x
    · rw [countP_cons_of_pos (by simpa using hlt), insertIdx_succ_cons, pairwise_cons]
      refine ⟨fun z hz => ?_, ih hxs hxxs⟩
      rcases (mem_insertIdx countP_le_length).1 hz with rfl | hz
      · exact hlt
      · exact hy z hz
    -- everything from here on is greater
    have hall : ∀ z ∈ y :: xs, x < z := by
      intro z hz
      rcases mem_cons.1 hz with rfl | hz
      · omega
      have := hy z hz
      omega
    have hzero : (y :: xs).countP (· < x) = 0 := by
      refine countP_eq_zero.2 fun z hz => ?_
      have := hall z hz
      simp only [decide_eq_true_eq]
      omega
    rw [hzero, insertIdx_zero]
    exact pairwise_cons.2 ⟨hall, hs⟩

/-! ## Memory -/

/-- Where the dynamic memory is mapped, and where the huge allocator starts. -/
def dynamicStart : Nat := 0xffff_8080_0000_0000
def hugeStart : Nat := 0xffff_c000_0000_0000

/-- The heap's bytes, the chunk headers by their addresses, and `bump_addr` of the huge allocator. -/
structure Memory where
  bytes : Nat → UInt8
  headers : Nat → ChunkHeaderState
  bump : Nat

/-- What the surroundings give to a call: a 2 MiB frame by its mapped address, what new memory holds, and the
pages by which the vector of chunks grows. -/
structure Supply where
  frame : Option Nat
  contents : Nat → UInt8
  vecPages : Nat

namespace Memory

def setHeader (m : Memory) (c : Nat) (h : ChunkHeaderState) : Memory :=
  { m with headers := Function.update m.headers c h }

/-- New memory from `a` on. -/
def mapped (m : Memory) (a len : Nat) (s : Supply) : Memory :=
  { m with bytes := fun x => if a ≤ x ∧ x < a + len then s.contents x else m.bytes x }

@[simp] lemma setHeader_bytes (m : Memory) (c : Nat) (h : ChunkHeaderState) : (m.setHeader c h).bytes = m.bytes := rfl

@[simp] lemma setHeader_bump (m : Memory) (c : Nat) (h : ChunkHeaderState) : (m.setHeader c h).bump = m.bump := rfl

@[simp] lemma setHeader_self (m : Memory) (c : Nat) (h : ChunkHeaderState) : (m.setHeader c h).headers c = h :=
  Function.update_self ..

lemma setHeader_ne {c d : Nat} (h : d ≠ c) (m : Memory) (h' : ChunkHeaderState) :
    (m.setHeader c h').headers d = m.headers d := Function.update_of_ne h ..

@[simp] lemma mapped_headers (m : Memory) (a len : Nat) (s : Supply) : (m.mapped a len s).headers = m.headers := rfl

@[simp] lemma mapped_bump (m : Memory) (a len : Nat) (s : Supply) : (m.mapped a len s).bump = m.bump := rfl

lemma mapped_bytes {m : Memory} {a len x : Nat} {s : Supply} (h : x < a ∨ a + len ≤ x) :
    (m.mapped a len s).bytes x = m.bytes x := if_neg (by omega)

end Memory

/-! ## The huge allocator -/

namespace HugeAllocator

/-- From here on an address leads through the recursive entry of the top-level table to the page tables themselves.
kernel/memory/pagetable.rs:42 -/
def limit : Nat := 0xffff_ff00_0000_0000

def place (m : Memory) (align : Nat) : Nat := if align ≤ 4096 then m.bump else nextMultipleOf m.bump align

/-- `pages` pages from there on.
kernel/memory/heap/huge_allocator.rs:44-76 -/
def take (m : Memory) (s : Supply) (align pages : Nat) : Option (Nat × Memory) :=
  if limit < place m align + pages * 4096 then none
  else
    some (place m align, { m.mapped (place m align) (pages * 4096) s with bump := place m align + pages * 4096 })

/-- What is taken lies between the old and the new bump address. -/
structure Taken (m : Memory) (align pages addr : Nat) (m' : Memory) : Prop where
  le_addr : m.bump ≤ addr
  bump_eq : m'.bump = addr + pages * 4096
  le_limit : addr + pages * 4096 ≤ limit
  aligned : align ∣ addr
  page : 4096 ∣ addr
  headers : m'.headers = m.headers
  bytes : ∀ x, x < m.bump ∨ m'.bump ≤ x → m'.bytes x = m.bytes x

lemma pow_dvd {a b : Nat} (ha : ∃ k, a = 2 ^ k) (hb : ∃ k, b = 2 ^ k) (hab : a ≤ b) : a ∣ b := by
  obtain ⟨i, rfl⟩ := ha
  obtain ⟨j, rfl⟩ := hb
  exact Nat.pow_dvd_pow 2 ((Nat.pow_le_pow_iff_right (by decide)).1 hab)

variable {s : Supply} {align pages : Nat} {m' : Memory}

lemma take_of_room (m : Memory) (h : place m align + pages * 4096 ≤ limit) : take m s align pages = some (place m align,
      { m.mapped (place m align) (pages * 4096) s with bump := place m align + pages * 4096 }) := if_neg (by omega)

lemma take_headers {m : Memory} {addr : Nat} (h : take m s align pages = some (addr, m')) : m'.headers = m.headers := by
  simp only [take] at h
  split at h
  · cases h
  cases h
  rfl

lemma take_taken {m : Memory} {addr : Nat} (hpow : ∃ k, align = 2 ^ k)
    (hbump : 4096 ∣ m.bump) (h : take m s align pages = some (addr, m')) : Taken m align pages addr m' := by
  have hpage : ∃ k, 4096 = 2 ^ k := ⟨12, rfl⟩
  have hpos : 0 < align := by
    obtain ⟨k, rfl⟩ := hpow
    exact Nat.two_pow_pos k
  simp only [take] at h
  split at h
  · cases h
  rename_i hlimit
  cases h
  have haddr : m.bump ≤ place m align ∧ align ∣ place m align ∧ 4096 ∣ place m align := by
    simp only [place]
    split
    · rename_i hle
      exact ⟨Nat.le_refl _, Nat.dvd_trans (pow_dvd hpow hpage hle) hbump, hbump⟩
    rename_i hlt
    have hdvd := dvd_nextMultipleOf m.bump align
    exact ⟨le_nextMultipleOf m.bump hpos, hdvd, Nat.dvd_trans (pow_dvd hpage hpow (by omega)) hdvd⟩
  refine ⟨haddr.1, rfl, by omega, haddr.2.1, haddr.2.2, rfl, fun x hx => Memory.mapped_bytes ?_⟩
  rcases hx with hx | hx
  · exact .inl (Nat.lt_of_lt_of_le hx haddr.1)
  · exact .inr hx

/-- huge_allocator.rs:30-80 -/
def allocate (m : Memory) (s : Supply) (l : Layout) : Option (Option Nat × Memory) :=
  let pages := (l.size + 4095) / 4096
  if 0x10000 < pages then some (none, m)
  else (take m s l.align pages).map fun r => (some r.1, r.2)

end HugeAllocator

/-! ## The allocator -/

/-- kernel/memory/heap/fixed_size_allocator.rs:26-38 -/
structure FixedSizeAllocator where
  n : Nat
  chunks : List Nat
  lastIdx : Nat
  goodChunk : Option Nat

namespace FixedSizeAllocator

/-- fixed_size_allocator.rs:44-52 -/
def new (n : Nat) : FixedSizeAllocator := ⟨n, [], 0, none⟩

/-- fixed_size_allocator.rs:62-64 -/
def canAllocate (a : FixedSizeAllocator) (l : Layout) : Bool := l.size ≤ a.n && l.align ≤ a.n

/-- `chunk.allocate(layout)` on the chunk at `c`. -/
def tryChunk (a : FixedSizeAllocator) (m : Memory) (l : Layout) (c : Nat) : Option (Nat × ChunkHeaderState) :=
  ChunkHeader.allocate a.n c (m.headers c) m.bytes l

/-- All chunks with their indices, starting with `last_idx`.
fixed_size_allocator.rs:87-94 -/
def cycle (a : FixedSizeAllocator) : List (Nat × Nat) :=
  (List.range a.chunks.length).filterMap fun j =>
    let i := (a.lastIdx + j) % a.chunks.length
    a.chunks[i]?.map fun c => (i, c)

/-- The new chunk, put in its place in the vector, serves the allocation.
fixed_size_allocator.rs:108-124 -/
def allocateNew (a : FixedSizeAllocator) (m : Memory) (s : Supply) (l : Layout) :
    Option (Option Nat × FixedSizeAllocator × Memory) :=
  match s.frame with
  | none => some (none, a, m)
  | some c =>
    match binarySearch a.chunks c with
    | .ok _ => none
    | .error idx => do
      let m := (m.mapped c chunkSize s).setHeader c ChunkHeader.new
      let (_, m) ← HugeAllocator.take m s 8 s.vecPages
      let a := { a with chunks := a.chunks.insertIdx idx c, lastIdx := idx, goodChunk := some c }
      let (p, h) ← a.tryChunk m l c
      some (some p, a, m.setHeader c h)

/-- The address handed out (none is `AllocError`), and what is left.
fixed_size_allocator.rs:71-126 -/
def allocate (a : FixedSizeAllocator) (m : Memory) (s : Supply) (l : Layout) :
    Option (Option Nat × FixedSizeAllocator × Memory) :=
  match a.goodChunk.bind fun c => (a.tryChunk m l c).map (c, ·) with
  | some (c, p, h) => some (some p, a, m.setHeader c h)
  | none =>
    let a := { a with goodChunk := none }
    match a.cycle.findSome? fun x => (a.tryChunk m l x.2).map (x, ·) with
    | some ((i, c), p, h) => some (some p, { a with goodChunk := some c, lastIdx := i }, m.setHeader c h)
    | none => a.allocateNew m s l

/-- The part of `deallocate` with the allocator's lock, for a chunk that was unused.
fixed_size_allocator.rs:139-161, 283-292 -/
def tryRelease (a : FixedSizeAllocator) (m : Memory) (c : Nat) : Option FixedSizeAllocator :=
  match binarySearch a.chunks c with
  | .error _ => none
  | .ok idx =>
    if 0 < (m.headers c).used then some { a with lastIdx := idx, goodChunk := some c }
    else
      some { a with chunks := a.chunks.eraseIdx idx, goodChunk := if a.goodChunk = some c then none else a.goodChunk }

/-- fixed_size_allocator.rs:128-162 -/
def deallocate (a : FixedSizeAllocator) (m : Memory) (p : Nat) : Option (FixedSizeAllocator × Memory) := do
  let c := p / chunkSize * chunkSize
  let (nowUnused, h, bytes) ← ChunkHeader.deallocate (m.headers c) m.bytes p
  let m := { m with bytes := bytes }.setHeader c h
  if nowUnused then (a.tryRelease m c).map (·, m) else some (a, m)

/-- fixed_size_allocator.rs:164-176 -/
def grow (a : FixedSizeAllocator) (p : Nat) (new : Layout) : Option Nat :=
  if a.n < new.size ∨ a.n < new.align then none else some p

/-- fixed_size_allocator.rs:200-210 -/
def shrink (a : FixedSizeAllocator) (p : Nat) (new : Layout) : Option Nat :=
  if a.n < new.align then none else some p

end FixedSizeAllocator

/-! ## What the operations do -/

structure Frame (c : Nat) : Prop where
  aligned : c % chunkSize = 0
  start_le : dynamicStart ≤ c
  end_le : c + chunkSize ≤ hugeStart

/-- The vector is sorted and the hint names a chunk of it. -/
structure BucketOk (a : FixedSizeAllocator) : Prop where
  n_ge : 8 ≤ a.n
  n_le : a.n ≤ 4096
  sorted : a.chunks.Pairwise (· < ·)
  good : ∀ c ∈ a.goodChunk, c ∈ a.chunks
  frame : ∀ c ∈ a.chunks, Frame c

/-- An allocation takes an entry of a chunk of the allocator, or the first of a new one, or finds no frame. -/
inductive Served (a : FixedSizeAllocator) (m : Memory) (s : Supply) (l : Layout) :
    Option Nat → FixedSizeAllocator → Memory → Prop where
  | known {c p i : Nat} {h : ChunkHeaderState} (mem : c ∈ a.chunks) (take : a.tryChunk m l c = some (p, h)) :
      Served a m s l (some p) { a with goodChunk := some c, lastIdx := i } (m.setHeader c h)
  | fresh {c addr : Nat} {m' : Memory} (frame : s.frame = some c)
      (vec : HugeAllocator.take ((m.mapped c chunkSize s).setHeader c ChunkHeader.new) s 8 s.vecPages =
        some (addr, m')) :
      Served a m s l (some (entry a.n c 0))
        { a with chunks := a.chunks.insertIdx (a.chunks.countP (· < c)) c,
                 lastIdx := a.chunks.countP (· < c), goodChunk := some c } (m'.setHeader c ⟨1, none, 1⟩)
  | failed (frame : s.frame = none) : Served a m s l none { a with goodChunk := none } m

section

variable {a a' : FixedSizeAllocator} {m m' : Memory} {s : Supply} {l : Layout} {r : Option Nat} {c : Nat}
  {h : ChunkHeaderState}

lemma capacity_pos {n : Nat} (h : n ≤ 4096) (hn : 0 < n) : 1 < capacity n := by
  have hoff : firstOffset n < headerSize + n := nextMultipleOf_lt headerSize hn
  refine (Nat.le_div_iff_mul_le hn).2 ?_
  simp only [chunkSize, headerSize] at *
  omega

lemma mem_cycle {x : Nat × Nat} (hx : x ∈ a.cycle) : x.2 ∈ a.chunks := by
  obtain ⟨j, -, hj⟩ := mem_filterMap.1 hx
  obtain ⟨c, hc, rfl⟩ := map_eq_some_iff.1 hj
  exact mem_of_getElem? hc

lemma canAllocate_iff : a.canAllocate l ↔ l.size ≤ a.n ∧ l.align ≤ a.n := by simp [FixedSizeAllocator.canAllocate]

lemma tryChunk_new (ha : BucketOk a) (hl : a.canAllocate l)
    (hc : m.headers c = ChunkHeader.new) : a.tryChunk m l c = some (entry a.n c 0, ⟨1, none, 1⟩) := by
  rw [canAllocate_iff] at hl
  have hpos : 0 < a.n := Nat.lt_of_lt_of_le (by decide) ha.n_ge
  have hcap := capacity_pos ha.n_le hpos
  rw [FixedSizeAllocator.tryChunk, hc]
  exact allocate_new (by omega) hl.1 hl.2

lemma BucketOk.setGood (ha : BucketOk a) : BucketOk { a with goodChunk := none } :=
  ⟨ha.n_ge, ha.n_le, ha.sorted, by simp, ha.frame⟩

lemma mem_insertIdx_countP {xs : List Nat} {x y : Nat} :
    y ∈ xs.insertIdx (xs.countP (· < x)) x ↔ y = x ∨ y ∈ xs := mem_insertIdx countP_le_length

lemma BucketOk.insert (ha : BucketOk a) (hc : c ∉ a.chunks) (hframe : Frame c) :
    BucketOk { a with chunks := a.chunks.insertIdx (a.chunks.countP (· < c)) c,
                      lastIdx := a.chunks.countP (· < c), goodChunk := some c } := by
  refine ⟨ha.n_ge, ha.n_le, sorted_insertIdx ha.sorted hc, ?_, ?_⟩
  · intro d hd
    cases hd
    exact mem_insertIdx_countP.2 (.inl rfl)
  intro d hd
  rcases mem_insertIdx_countP.1 hd with rfl | hd
  · exact hframe
  · exact ha.frame d hd

section

variable (ha : BucketOk a) (hl : a.canAllocate l)
include ha hl

lemma allocateNew_served (hgood : a.goodChunk = none)
    (hframe : ∀ c ∈ s.frame, Frame c ∧ c ∉ a.chunks) (h : a.allocateNew m s l = some (r, a', m')) :
    Served a m s l r a' m' := by
  simp only [FixedSizeAllocator.allocateNew] at h
  cases hf : s.frame with
  | none =>
    simp only [hf] at h
    cases h
    have hfail := Served.failed (a := a) (m := m) (l := l) hf
    rwa [show { a with goodChunk := none } = a by cases a; cases hgood; rfl] at hfail
  | some c =>
    obtain ⟨hc, hmem⟩ := hframe c hf
    simp only [hf, binarySearch, if_neg hmem] at h
    obtain ⟨⟨addr, m1⟩, hvec, h⟩ := bind_eq_some_iff.1 h
    obtain ⟨⟨p, hdr⟩, htry, h⟩ := bind_eq_some_iff.1 h
    have hnew : m1.headers c = ChunkHeader.new := by rw [HugeAllocator.take_headers hvec, Memory.setHeader_self]
    rw [tryChunk_new (ha.insert hmem hc) hl hnew] at htry
    cases htry
    cases h
    exact .fresh hf hvec

lemma allocate_served (hframe : ∀ c ∈ s.frame, Frame c ∧ c ∉ a.chunks) (h : a.allocate m s l = some (r, a', m')) :
    Served a m s l r a' m' := by
  simp only [FixedSizeAllocator.allocate] at h
  split at h
  · -- the chunk of the hint
    rename_i c p hdr hgood
    cases h
    obtain ⟨d, hd, htry⟩ := bind_eq_some_iff.1 hgood
    obtain ⟨x, htry, heq⟩ := map_eq_some_iff.1 htry
    cases heq
    have hserved := Served.known (s := s) (i := a.lastIdx) (ha.good c hd) htry
    rwa [← hd] at hserved
  split at h
  · -- the first chunk with room
    rename_i i c p hdr hfind
    cases h
    obtain ⟨x, hx, htry⟩ := exists_of_findSome?_eq_some hfind
    obtain ⟨y, htry, heq⟩ := map_eq_some_iff.1 htry
    cases heq
    exact Served.known (mem_cycle hx) htry
  · cases allocateNew_served ha.setGood hl rfl hframe h with
    | known hmem htake => exact .known hmem htake
    | fresh hf hvec => exact .fresh hf hvec
    | failed hf => exact .failed hf

/-- The allocator has address space left for the vector of chunks. -/
lemma allocate_isSome (hframe : ∀ c ∈ s.frame, Frame c ∧ c ∉ a.chunks)
    (hroom : m.bump + s.vecPages * 4096 ≤ HugeAllocator.limit) : ∃ out, a.allocate m s l = some out := by
  simp only [FixedSizeAllocator.allocate]
  split
  · exact ⟨_, rfl⟩
  split
  · exact ⟨_, rfl⟩
  simp only [FixedSizeAllocator.allocateNew]
  cases hf : s.frame with
  | none => exact ⟨_, rfl⟩
  | some c =>
    obtain ⟨hc, hmem⟩ := hframe c hf
    simp only [binarySearch, if_neg hmem]
    rw [HugeAllocator.take_of_room ((m.mapped c chunkSize s).setHeader c ChunkHeader.new) hroom]
    simp only [bind_eq_bind, bind_some]
    rw [tryChunk_new (ha.insert hmem hc) hl]
    · exact ⟨_, rfl⟩
    · exact Memory.setHeader_self ..

end

lemma allocate_n (h : a.allocate m s l = some (r, a', m')) : a'.n = a.n := by
  simp only [FixedSizeAllocator.allocate, FixedSizeAllocator.allocateNew] at h
  split at h
  · cases h
    rfl
  split at h
  · cases h
    rfl
  split at h
  · cases h
    rfl
  split at h
  · cases h
  obtain ⟨_, -, h⟩ := bind_eq_some_iff.1 h
  obtain ⟨_, -, h⟩ := bind_eq_some_iff.1 h
  cases h
  rfl

lemma allocate_good {p : Nat} (hgood : a.goodChunk = some c)
    (htry : a.tryChunk m l c = some (p, h)) : a.allocate m s l = some (some p, a, m.setHeader c h) := by
  simp only [FixedSizeAllocator.allocate, hgood, bind_some, htry, map_some]

lemma BucketOk.erase (ha : BucketOk a) :
    BucketOk { a with chunks := a.chunks.erase c,
                      goodChunk := if a.goodChunk = some c then none else a.goodChunk } := by
  refine ⟨ha.n_ge, ha.n_le, ha.sorted.sublist erase_sublist, ?_, fun d hd => ha.frame d (mem_of_mem_erase hd)⟩
  intro d hd
  split at hd
  · cases hd
  rename_i hgood
  have hne : d ≠ c := by
    rintro rfl
    exact hgood hd
  exact (mem_erase_of_ne hne).2 (ha.good d hd)

/-- The memory after an entry of the chunk at `c` was put back. -/
def Memory.freed (m : Memory) (c p : Nat) (h : ChunkHeaderState) : Memory :=
  { m with bytes := setLink m.bytes p (m.headers c).nextEntry }.setHeader c h

/-- The chunk of a block is given away only if it is unused. -/
lemma tryRelease_ok {c : Nat} (ha : BucketOk a) (hc : c ∈ a.chunks) : ∃ a', a.tryRelease m c = some a' ∧ BucketOk a' ∧
    a'.n = a.n ∧ (∀ d ∈ a'.chunks, d ∈ a.chunks) ∧ (∀ d ∈ a.chunks, d ≠ c → d ∈ a'.chunks) ∧
    (c ∉ a'.chunks ↔ (m.headers c).used = 0) := by
  simp only [FixedSizeAllocator.tryRelease, binarySearch, if_pos hc, eraseIdx_idxOf_eq_erase]
  by_cases hused : 0 < (m.headers c).used
  · rw [if_pos hused]
    refine ⟨_, rfl, ⟨ha.n_ge, ha.n_le, ha.sorted, ?_, ha.frame⟩, rfl, fun d hd => hd, fun d hd _ => hd, ?_⟩
    · intro d hd
      cases hd
      exact hc
    · exact ⟨fun h => absurd hc h, fun h => by omega⟩
  · rw [if_neg hused]
    refine ⟨_, rfl, ha.erase, rfl, fun d hd => mem_of_mem_erase hd, fun d hd hne => (mem_erase_of_ne hne).2 hd, ?_⟩
    have hnodup : a.chunks.Nodup := ha.sorted.imp (fun h => Nat.ne_of_lt h)
    exact ⟨fun _ => by omega, fun _ => hnodup.not_mem_erase⟩

lemma deallocate_eq {p : Nat} {unused : Bool} (hc : p / chunkSize * chunkSize = c)
    (hd : ChunkHeader.deallocate (m.headers c) m.bytes p =
      some (unused, h, setLink m.bytes p (m.headers c).nextEntry)) :
    a.deallocate m p =
      if unused then (a.tryRelease (m.freed c p h) c).map (·, m.freed c p h) else some (a, m.freed c p h) := by
  simp only [FixedSizeAllocator.deallocate, Memory.freed, hc, hd, bind_eq_bind, bind_some]

end

end Mushroom.L2.KernelHeap
