import Mushroom.Core.FreeList

/-!
# Chunks of the kernel heap

A chunk is a 2 MiB frame that a `FixedSizeAllocator<N>` cuts into a header and
entries of `N` bytes. An entry was never handed out (`init` and above), is on the
free list that runs through the entries, or is in use (`ChunkOk`). `allocate`
takes one that is not (`allocate_ok`) and `deallocate` puts it back
(`deallocate_ok`): the chunk is unused exactly when no entry is in use.
-/
namespace Mushroom.L2.KernelHeap
open List FreeList

/-! ## Layouts -/

/-- A `Layout`: the alignment is a power of two, and the size rounded up to it is an `isize`. -/
structure Layout where
  (size align : Nat)
  pow : ∃ k, align = 2 ^ k
  fits : size + (align - 1) < 2 ^ 63

/-- `Layout::from_size_align` with the alignment of a layout. -/
def Layout.resize (l : Layout) (size : Nat) : Option Layout :=
  if h : size + (l.align - 1) < 2 ^ 63 then some ⟨size, l.align, l.pow, h⟩ else none

lemma Layout.align_pos (l : Layout) : 0 < l.align := by
  obtain ⟨k, hk⟩ := l.pow
  rw [hk]
  exact Nat.two_pow_pos k

lemma Layout.resize_some {l l' : Layout} {size : Nat} (h : l.resize size = some l') :
    l'.size = size ∧ l'.align = l.align := by
  simp only [resize] at h
  split at h
  · cases h
    exact ⟨rfl, rfl⟩
  · cases h

/-! ## The header -/

def nextMultipleOf (a n : Nat) : Nat := (a + (n - 1)) / n * n

lemma le_nextMultipleOf (a : Nat) {n : Nat} (hn : 0 < n) : a ≤ nextMultipleOf a n := by
  have hmod := Nat.div_add_mod (a + (n - 1)) n
  have hlt := Nat.mod_lt (a + (n - 1)) hn
  rw [Nat.mul_comm] at hmod
  simp only [nextMultipleOf]
  omega

lemma nextMultipleOf_lt (a : Nat) {n : Nat} (hn : 0 < n) : nextMultipleOf a n < a + n := by
  have hle : (a + (n - 1)) / n * n ≤ a + (n - 1) := Nat.div_mul_le_self ..
  simp only [nextMultipleOf]
  omega

lemma dvd_nextMultipleOf (a n : Nat) : n ∣ nextMultipleOf a n := Dvd.intro_left _ rfl

def chunkSize : Nat := 512 * 4096

/-- The state in a chunk's header.
kernel/memory/heap/fixed_size_allocator.rs:371-380 -/
structure ChunkHeaderState where
  init : Nat
  nextEntry : Option Nat
  used : Nat
deriving DecidableEq

namespace ChunkHeader

/-- `size_of::<ChunkHeader<N>>()`: a lock, three words and the frame, aligned to 64. -/
def headerSize : Nat := 64

/-- fixed_size_allocator.rs:264-266 -/
def firstOffset (n : Nat) : Nat := nextMultipleOf headerSize n

/-- fixed_size_allocator.rs:269-273 -/
def capacity (n : Nat) : Nat := (chunkSize - firstOffset n) / n

def entry (n base i : Nat) : Nat := cell (base + firstOffset n) n i

/-- The state `new` writes.
fixed_size_allocator.rs:252-256 -/
def new : ChunkHeaderState := ⟨0, none, 0⟩

/-- fixed_size_allocator.rs:308-349 -/
def allocate (n base : Nat) (h : ChunkHeaderState) (mem : Nat → UInt8) (l : Layout) : Option (Nat × ChunkHeaderState) :=
  if n < l.size ∨ n < l.align then none
  else
    match h.nextEntry with
    | some p => some (p, { h with nextEntry := link mem p, used := h.used + 1 })
    | none =>
      if h.init < capacity n then
        some (entry n base h.init, { h with init := h.init + 1, used := h.used + 1 })
      else none

/-- Whether the chunk is unused now; `used` must not run below zero.
fixed_size_allocator.rs:352-368 -/
def deallocate (h : ChunkHeaderState) (mem : Nat → UInt8) (p : Nat) :
    Option (Bool × ChunkHeaderState × (Nat → UInt8)) :=
  if h.used = 0 then none
  else some (h.used - 1 = 0, { h with nextEntry := some p, used := h.used - 1 }, setLink mem p h.nextEntry)

end ChunkHeader

open ChunkHeader

/-! ## Where entries are -/

section

variable {n : Nat} (base : Nat) {i : Nat}

lemma entry_le (hi : i < capacity n) : entry n base i + n ≤ base + chunkSize := by
  have hcap : capacity n * n ≤ chunkSize - firstOffset n := Nat.div_mul_le_self ..
  have hle := cell_le (base + firstOffset n) n hi
  have hpos : 0 < capacity n * n ∨ n = 0 := by
    rcases Nat.eq_zero_or_pos n with h | h
    · exact .inr h
    · exact .inl (Nat.mul_pos (by omega) h)
  simp only [entry, cell] at hle ⊢
  rcases hpos with h | rfl
  · omega
  · simp [capacity] at hi

lemma le_entry (i : Nat) (hn : 0 < n) : base + headerSize ≤ entry n base i := by
  have h : headerSize ≤ firstOffset n := le_nextMultipleOf headerSize hn
  simp only [entry, cell]
  omega

lemma entry_apart {base j : Nat} (h : i ≠ j) : Apart (entry n base i) n (entry n base j) n := cell_apart h

lemma entry_inj {base j : Nat} (hn : 0 < n) (h : entry n base i = entry n base j) : i = j := cell_inj hn h

lemma entry_mem_chunk (hn : 0 < n) (hi : i < capacity n) :
    base ≤ entry n base i ∧ entry n base i < base + chunkSize := by
  have hle := entry_le base hi
  have hge := le_entry base i hn
  omega

lemma alignDown_entry {base : Nat} (hn : 0 < n) (hi : i < capacity n) (hbase : base % chunkSize = 0) :
    entry n base i / chunkSize * chunkSize = base := by
  obtain ⟨hge, hlt⟩ := entry_mem_chunk base hn hi
  simp only [chunkSize] at *
  omega

end

/-! ## The entries of a chunk -/

/-- The header at `base` and the free list `free` agree with the blocks in use. -/
structure ChunkAt (n base : Nat) (mem : Nat → UInt8) (h : ChunkHeaderState) (live : Set Nat)
    (free : List Nat) : Prop where
  linked : Linked mem h.nextEntry free
  nodup : free.Nodup
  free_mem : ∀ p ∈ free, ∃ i < h.init, p = entry n base i
  init_le : h.init ≤ capacity n
  used_add : h.used + free.length = h.init
  live_iff : ∀ i < capacity n, entry n base i ∈ live ↔ i < h.init ∧ entry n base i ∉ free

def ChunkOk (n base : Nat) (mem : Nat → UInt8) (h : ChunkHeaderState) (live : Set Nat) : Prop :=
  ∃ free, ChunkAt n base mem h live free

section

variable {n base : Nat} {mem mem' : Nat → UInt8} {h h' : ChunkHeaderState} {live live' : Set Nat} {l : Layout} {p : Nat}

lemma chunkOk_new (hlive : ∀ i < capacity n, entry n base i ∉ live) : ChunkOk n base mem new live := by
  refine ⟨[], by simp [new], nodup_nil, by simp, Nat.zero_le _, rfl, fun i hi => ?_⟩
  simp [hlive i hi, new]

/-- What happens elsewhere keeps the blocks in use in the chunk and the first words of the others. -/
lemma ChunkOk.congr (hok : ChunkOk n base mem h live)
    (hlive : ∀ i < capacity n, entry n base i ∈ live' ↔ entry n base i ∈ live)
    (hmem : ∀ i < capacity n, entry n base i ∉ live → ∀ k < 8, mem (entry n base i + k) = mem' (entry n base i + k)) :
    ChunkOk n base mem' h live' := by
  obtain ⟨free, hat⟩ := hok
  refine ⟨free, hat.linked.congr ?_, hat.nodup, hat.free_mem, hat.init_le, hat.used_add, ?_⟩
  · intro p hp
    obtain ⟨i, hi, rfl⟩ := hat.free_mem p hp
    have hcap : i < capacity n := Nat.lt_of_lt_of_le hi hat.init_le
    refine hmem i hcap fun hl => ?_
    exact ((hat.live_iff i hcap).1 hl).2 hp
  · intro i hi
    rw [hlive i hi, hat.live_iff i hi]

lemma allocate_ok (hn : 0 < n) (hok : ChunkOk n base mem h live)
    (ha : ChunkHeader.allocate n base h mem l = some (p, h')) :
    (∃ i < capacity n, p = entry n base i) ∧ p ∉ live ∧ ChunkOk n base mem h' (insert p live) := by
  obtain ⟨free, hat⟩ := hok
  simp only [ChunkHeader.allocate] at ha
  split at ha
  · cases ha
  cases hnext : h.nextEntry with
  | some q =>
    -- the first entry of the free list
    simp only [hnext, Option.some.injEq, Prod.mk.injEq] at ha
    obtain ⟨rfl, rfl⟩ := ha
    have hlinked := hat.linked
    rw [hnext] at hlinked
    obtain ⟨rest, rfl, hrest⟩ := linked_some.1 hlinked
    obtain ⟨i, hi, hq⟩ := hat.free_mem q mem_cons_self
    have hcap : i < capacity n := Nat.lt_of_lt_of_le hi hat.init_le
    obtain ⟨hnotin, hnodup⟩ := nodup_cons.1 hat.nodup
    have hused := hat.used_add
    simp only [length_cons] at hused
    refine ⟨⟨i, hcap, hq⟩, ?_, rest, hrest, hnodup, ?_, hat.init_le, ?_, ?_⟩
    · intro hl
      rw [hq] at hl
      exact ((hat.live_iff i hcap).1 hl).2 (hq ▸ mem_cons_self)
    · exact fun q' hq' => hat.free_mem q' (mem_cons_of_mem q hq')
    · simp only
      omega
    intro j hj
    simp only [Set.mem_insert_iff, hat.live_iff j hj, mem_cons, not_or]
    by_cases hjq : entry n base j = q
    · obtain rfl : j = i := entry_inj hn (hjq.trans hq)
      simp [hjq, hnotin, hi]
    · simp [hjq]
  | none =>
    -- the first entry that was never handed out
    simp only [hnext] at ha
    split at ha
    · rename_i hinit
      cases ha
      have hlinked := hat.linked
      rw [hnext, linked_none] at hlinked
      subst hlinked
      have hused := hat.used_add
      simp only [length_nil] at hused
      refine ⟨⟨h.init, hinit, rfl⟩, ?_, [], by simp, nodup_nil, by simp, hinit, ?_, ?_⟩
      · intro hl
        exact Nat.lt_irrefl _ ((hat.live_iff h.init hinit).1 hl).1
      · simp only [length_nil]
        omega
      intro j hj
      simp only [Set.mem_insert_iff, hat.live_iff j hj, not_mem_nil, not_false_eq_true, and_true]
      constructor
      · rintro (h | h)
        · rw [entry_inj hn h]
          exact Nat.lt_succ_self _
        · omega
      · intro h
        rcases Nat.lt_succ_iff_lt_or_eq.1 h with h | rfl
        · exact .inr h
        · exact .inl rfl
    · cases ha

/-- A block in use takes one entry that the free list does not have. -/
lemma ChunkAt.length_lt {free : List Nat} (hat : ChunkAt n base mem h live free) {i : Nat}
    (hi : i < capacity n) (hl : entry n base i ∈ live) : free.length < h.init := by
  obtain ⟨hinit, hnot⟩ := (hat.live_iff i hi).1 hl
  have hsub : free.toFinset ⊆ ((Finset.range h.init).erase i).image (entry n base) := by
    intro p hp
    obtain ⟨j, hj, rfl⟩ := hat.free_mem p (mem_toFinset.1 hp)
    refine Finset.mem_image_of_mem _ (Finset.mem_erase.2 ⟨?_, Finset.mem_range.2 hj⟩)
    rintro rfl
    exact hnot (mem_toFinset.1 hp)
  calc free.length = free.toFinset.card := (toFinset_card_of_nodup hat.nodup).symm
    _ ≤ (((Finset.range h.init).erase i).image (entry n base)).card := Finset.card_le_card hsub
    _ ≤ ((Finset.range h.init).erase i).card := Finset.card_image_le
    _ < (Finset.range h.init).card := Finset.card_erase_lt_of_mem (Finset.mem_range.2 hinit)
    _ = h.init := Finset.card_range _

/-- `deallocate` puts a block in use back, and never finds `used` at zero. -/
lemma deallocate_ok (hn : 8 ≤ n) (hend : base + chunkSize ≤ 256 ^ 8) (hok : ChunkOk n base mem h live) {i : Nat}
    (hi : i < capacity n) (hl : entry n base i ∈ live) : ∃ unused h', ChunkHeader.deallocate h mem (entry n base i) =
        some (unused, h', setLink mem (entry n base i) h.nextEntry) ∧
      ChunkOk n base (setLink mem (entry n base i) h.nextEntry) h' (live \ {entry n base i}) ∧
      (unused = true ↔ h'.used = 0) ∧ (h'.used = 0 → ∀ j < capacity n, entry n base j ∉ live \ {entry n base i}) := by
  obtain ⟨free, hat⟩ := hok
  have hn0 : 0 < n := by omega
  have hlt := hat.length_lt hi hl
  have hused := hat.used_add
  obtain ⟨hinit, hnot⟩ := (hat.live_iff i hi).1 hl
  have hlinkable : ∀ j < capacity n, Linkable (entry n base j) := by
    intro j hj
    have h1 := le_entry base j hn0
    have h2 := entry_le base hj
    simp only [headerSize] at h1
    exact ⟨by omega, by omega⟩
  have hat' : ChunkAt n base (setLink mem (entry n base i) h.nextEntry)
      { h with nextEntry := some (entry n base i), used := h.used - 1 } (live \ {entry n base i})
      (entry n base i :: free) := by
    refine ⟨hat.linked.push ?_ ?_, nodup_cons.2 ⟨hnot, hat.nodup⟩, ?_, hat.init_le, ?_, ?_⟩
    · intro q hq
      obtain ⟨j, hj, rfl⟩ := hat.free_mem q hq
      refine (entry_apart ?_).mono hn hn
      rintro rfl
      exact hnot hq
    · intro q hq
      obtain ⟨j, hj, rfl⟩ := hat.free_mem q hq
      exact hlinkable j (Nat.lt_of_lt_of_le hj hat.init_le)
    · intro q hq
      rcases mem_cons.1 hq with rfl | hq
      · exact ⟨i, hinit, rfl⟩
      · exact hat.free_mem q hq
    · simp only [length_cons]
      omega
    · intro j hj
      simp only [Set.mem_sdiff, Set.mem_singleton_iff, hat.live_iff j hj, mem_cons, not_or]
      tauto
  have hpos : h.used ≠ 0 := by omega
  refine ⟨_, _, if_neg hpos, ⟨_, hat'⟩, by simp, ?_⟩
  intro hzero j hj hlj
  have hlt' := hat'.length_lt hj hlj
  have hused' := hat'.used_add
  simp only at hzero hlt' hused'
  omega

lemma allocate_new (hcap : 0 < capacity n) (hsize : l.size ≤ n) (halign : l.align ≤ n) :
    ChunkHeader.allocate n base new mem l = some (entry n base 0, ⟨1, none, 1⟩) := by
  have hfit : ¬(n < l.size ∨ n < l.align) := by omega
  simp [ChunkHeader.allocate, hfit, new, hcap]

end

end Mushroom.L2.KernelHeap
