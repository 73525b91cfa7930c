import Mushroom.L2Memory.Fallback

/-!
# The blocks of the kernel heap

Every block is an entry of a chunk of the allocator at its level, or a run of
pages below the bump address (`Placed`), and the chunks' free lists hold exactly
the other entries (`HeapOk`). Blocks are apart from each other and from the
headers because of where they are (`HeapOk.apart`, `HeapOk.header_apart`). Every
operation keeps the invariant and the bytes of all other blocks.
-/
namespace Mushroom.L2.KernelHeap
open Option FreeList ChunkHeader KernelHeap HugeAllocator Memory

/-! ## Blocks in use -/

/-- A block in use: the layout it has now, and the level of the allocator that produced it. -/
structure Block where
  layout : Layout
  level : Nat

abbrev Live := Nat → Option Block

def addrs (live : Live) : Set Nat := {p | (live p).isSome = true}

variable {live : Live} {p j : Nat}

@[simp] lemma mem_addrs : p ∈ addrs live ↔ (live p).isSome := Iff.rfl

def hugeLen (l : Layout) : Nat := (l.size + 4095) / 4096 * 4096

/-- The memory a block has: an entry of its allocator, or whole pages. -/
def extent (ns : List Nat) (b : Block) : Nat := ns[b.level]?.getD (hugeLen b.layout)

inductive Placed (bs : Buckets) (m : Memory) (p : Nat) (b : Block) : Prop where
  | entry {a : FixedSizeAllocator} {c i : Nat} (get : bs[b.level]? = some a) (mem : c ∈ a.chunks)
      (lt : i < capacity a.n) (eq : p = entry a.n c i)
  | huge (last : bs[b.level]? = none) (start : hugeStart ≤ p) (page : 4096 ∣ p) (aligned : b.layout.align ∣ p)
      (le : p + hugeLen b.layout ≤ m.bump)

structure HeapOk (bs : Buckets) (m : Memory) (live : Live) : Prop where
  bucket : ∀ (k : Nat) a, bs[k]? = some a → BucketOk a
  owner : ∀ (j k : Nat) a b c, bs[j]? = some a → bs[k]? = some b → c ∈ a.chunks → c ∈ b.chunks → j = k
  chunk : ∀ (k : Nat) a, bs[k]? = some a → ∀ c ∈ a.chunks, ChunkOk a.n c m.bytes (m.headers c) (addrs live)
  page : 4096 ∣ m.bump
  start : hugeStart ≤ m.bump
  placed : ∀ p b, live p = some b → Placed bs m p b
  routed : ∀ p b, live p = some b → level (sizes bs) b.layout = b.level
  pos : ∀ p b, live p = some b → 0 < b.layout.size
  huge : ∀ p q b b', live p = some b → live q = some b' → p ≠ q → bs[b.level]? = none → bs[b'.level]? = none →
    Apart p (hugeLen b.layout) q (hugeLen b'.layout)

def Kept (ns : List Nat) (live : Live) (m m' : Memory) : Prop :=
  ∀ p b, live p = some b → ∀ i < extent ns b, m'.bytes (p + i) = m.bytes (p + i)

/-- The frames that the supervisor hands out are 2 MiB aligned and distinct from those in use. -/
def FreshFrame (bs : Buckets) (s : Supply) : Prop :=
  ∀ c ∈ s.frame, Frame c ∧ ∀ (k : Nat) a, bs[k]? = some a → c ∉ a.chunks

/-! ## Where blocks are -/

section

variable {bs : Buckets} {m m' : Memory} {live live' : Live} {a a' : FixedSizeAllocator} {p q k c : Nat} {b b' : Block}
  {l : Layout}

lemma extent_get (h : bs[b.level]? = some a) : extent (sizes bs) b = a.n := by
  rw [extent, sizes_getElem?, h, map_some, getD_some]

lemma extent_none (h : bs[b.level]? = none) : extent (sizes bs) b = hugeLen b.layout := by
  rw [extent, sizes_getElem?, h, map_none, getD_none]

lemma size_le_hugeLen (l : Layout) : l.size ≤ hugeLen l := by
  simp only [hugeLen]
  omega

lemma HeapOk.size_le (h : HeapOk bs m live) (hp : live p = some b) : b.layout.size ≤ extent (sizes bs) b := by
  have hlevel := h.routed p b hp
  cases hget : bs[b.level]? with
  | none =>
    rw [extent_none hget]
    exact size_le_hugeLen b.layout
  | some a =>
    rw [extent_get hget]
    have hn : (sizes bs)[level (sizes bs) b.layout]? = some a.n := by rw [hlevel, sizes_getElem?, hget, map_some]
    exact (fits_of_level hn).1

lemma HeapOk.extent_pos (h : HeapOk bs m live) (hp : live p = some b) : 0 < extent (sizes bs) b :=
  Nat.lt_of_lt_of_le (h.pos p b hp) (h.size_le hp)

lemma frames_apart {d : Nat} (hc : Frame c) (hd : Frame d) (h : c ≠ d) : Apart c chunkSize d chunkSize := by
  have h1 := hc.aligned
  have h2 := hd.aligned
  simp only [Apart, chunkSize] at *
  omega

lemma BucketOk.pos (h : BucketOk a) : 0 < a.n := Nat.lt_of_lt_of_le (by decide) h.n_ge

section

variable (h : HeapOk bs m live)

include h

/-- A block outside the chunks lies above all of them. -/
lemma Placed.chunk_or_above (hp : Placed bs m p b) :
    (∃ a c i, bs[b.level]? = some a ∧ c ∈ a.chunks ∧ i < capacity a.n ∧ p = ChunkHeader.entry a.n c i ∧ Frame c ∧
      c + headerSize ≤ p ∧ p + extent (sizes bs) b ≤ c + chunkSize) ∨ (bs[b.level]? = none ∧ hugeStart ≤ p) := by
  cases hp with
  | entry hget hmem hlt heq =>
    have hb := h.bucket _ _ hget
    rw [extent_get hget, heq]
    exact .inl ⟨_, _, _, hget, hmem, hlt, rfl, hb.frame _ hmem, le_entry _ _ hb.pos, entry_le _ hlt⟩
  | huge hnone hstart => exact .inr ⟨hnone, hstart⟩

variable (hp : live p = some b)
include hp

lemma HeapOk.entry_apart {i : Nat} (hget : bs[k]? = some a)
    (hc : c ∈ a.chunks) (hi : i < capacity a.n) (hne : ChunkHeader.entry a.n c i ≠ p) :
    Apart (ChunkHeader.entry a.n c i) a.n p (extent (sizes bs) b) := by
  have hb := h.bucket _ _ hget
  have hframe := hb.frame c hc
  have hend := entry_le c hi
  have hge := le_entry c i hb.pos
  rcases (h.placed p b hp).chunk_or_above h with
    ⟨a', c', i', hget', hmem', hi', hpe, hframe', hhead', hend'⟩ | ⟨-, hstart⟩
  · by_cases hcc : c = c'
    · -- two entries of one chunk, hence of one allocator
      subst hcc
      have hlevel := h.owner _ _ _ _ c hget hget' hc hmem'
      rw [hlevel, hget'] at hget
      cases hget
      rw [extent_get hget', hpe]
      refine KernelHeap.entry_apart fun hii => ?_
      rw [hii] at hne
      exact hne hpe.symm
    · rcases frames_apart hframe hframe' hcc with hap | hap
      · exact .inl (by omega)
      · exact .inr (by omega)
  · have := hframe.end_le
    exact .inl (by omega)

lemma HeapOk.apart (hq : live q = some b') (hne : p ≠ q) :
    Apart p (extent (sizes bs) b) q (extent (sizes bs) b') := by
  cases hgetp : bs[b.level]? with
  | some a =>
    rcases (h.placed p b hp).chunk_or_above h with ⟨x, c, i, hget, hmem, hi, hpe, -⟩ | ⟨hnone, -⟩
    · rw [extent_get hget, hpe]
      exact h.entry_apart hq hget hmem hi (hpe ▸ hne)
    · simp [hnone] at hgetp
  | none =>
    rcases (h.placed q b' hq).chunk_or_above h with ⟨x, c, i, hget, hmem, hi, hqe, -⟩ | ⟨hnone, -⟩
    · rw [extent_get hget, hqe]
      exact (h.entry_apart hp hget hmem hi (hqe ▸ hne.symm)).symm
    · rw [extent_none hgetp, extent_none hnone]
      exact h.huge p q b b' hp hq hne hgetp hnone

lemma HeapOk.header_apart (hget : bs[k]? = some a)
    (hc : c ∈ a.chunks) : Apart p (extent (sizes bs) b) c headerSize := by
  have hframe := (h.bucket _ _ hget).frame c hc
  rcases (h.placed p b hp).chunk_or_above h with
    ⟨a', c', i', -, -, -, -, hframe', hhead, hend⟩ | ⟨-, hstart⟩
  · by_cases hcc : c' = c
    · subst hcc
      exact .inr hhead
    rcases frames_apart hframe' hframe hcc with hap | hap
    · exact .inl (by omega)
    refine .inr ?_
    simp only [headerSize, chunkSize] at *
    omega
  · have := hframe.end_le
    refine .inr ?_
    simp only [headerSize, chunkSize] at *
    omega

lemma HeapOk.dvd (hfit : ∀ a, bs[b.level]? = some a → b.layout.align ∣ a.n) : b.layout.align ∣ p := by
  cases h.placed p b hp with
  | huge _ _ _ haligned => exact haligned
  | @entry a c i hget hmem hlt heq =>
    have hdvd := hfit a hget
    have hb := h.bucket _ _ hget
    -- the alignment is at most the size of the entries, so it divides the chunk's address
    have hchunk : b.layout.align ∣ chunkSize := by
      refine pow_dvd b.layout.pow ⟨21, rfl⟩ (Nat.le_trans (Nat.le_of_dvd hb.pos hdvd) ?_)
      exact Nat.le_trans hb.n_le (by decide)
    have hbase : b.layout.align ∣ c := Nat.dvd_trans hchunk (Nat.dvd_of_mod_eq_zero (hb.frame c hmem).aligned)
    have hoff : b.layout.align ∣ firstOffset a.n := Nat.dvd_trans hdvd (dvd_nextMultipleOf headerSize a.n)
    rw [heq]
    exact Nat.dvd_add (Nat.dvd_add hbase hoff) (Nat.dvd_mul_left_of_dvd hdvd i)

lemma HeapOk.le_bump : p + extent (sizes bs) b ≤ m.bump := by
  have hplaced := h.placed p b hp
  cases hplaced with
  | huge hnone _ _ _ hle =>
    rw [extent_none hnone]
    exact hle
  | @entry a c i hget hmem hlt heq =>
    have hframe := (h.bucket _ _ hget).frame c hmem
    have hend := entry_le c hlt
    have h1 := hframe.end_le
    have h2 := h.start
    rw [extent_get hget, heq]
    omega

lemma HeapOk.frame_apart (hc : Frame c)
    (hno : ∀ (k : Nat) a, bs[k]? = some a → c ∉ a.chunks) : Apart p (extent (sizes bs) b) c chunkSize := by
  rcases (h.placed p b hp).chunk_or_above h with
    ⟨a, d, i, hget, hmem, -, -, hframe, hhead, hend⟩ | ⟨-, hstart⟩
  · have hne : d ≠ c := by
      rintro rfl
      exact hno _ _ hget hmem
    rcases frames_apart hframe hc hne with hap | hap
    · exact .inl (by omega)
    · exact .inr (by omega)
  · have := hc.end_le
    exact .inr (by omega)

end

end

/-! ## One allocator changes -/

section

variable {bs : Buckets} {m m' : Memory} {live live' : Live} {a a' : FixedSizeAllocator} {p c k : Nat} {b : Block}
  {l : Layout} {s : Supply}

lemma getElem?_set_cases {x : FixedSizeAllocator} (h : (bs.set k a')[j]? = some x) :
    (j = k ∧ x = a') ∨ (j ≠ k ∧ bs[j]? = some x) := by
  rw [List.getElem?_set] at h
  split at h
  · rename_i hkj
    split at h
    · exact .inl ⟨hkj.symm, (Option.some.inj h).symm⟩
    · cases h
  · rename_i hkj
    exact .inr ⟨Ne.symm hkj, h⟩

lemma getElem?_set_none : (bs.set k a')[j]? = none ↔ bs[j]? = none := by simp

lemma getElem?_set_get (h : bs[k]? = some a) : (bs.set k a')[k]? = some a' := by
  rw [List.getElem?_set_self (List.getElem?_eq_some_iff.1 h).1]

lemma set_get (h : bs[k]? = some a) : bs.set k a = bs := by
  obtain ⟨hk, rfl⟩ := List.getElem?_eq_some_iff.1 h
  exact List.set_getElem_self hk

/-- What happens in other places leaves a chunk as it is. -/
lemma ChunkOk.elsewhere {n : Nat} {h : ChunkHeaderState} (hn : 8 ≤ n) (hok : ChunkOk n c m.bytes h (addrs live))
    (hsame : ∀ x, c ≤ x → x < c + chunkSize → m'.bytes x = m.bytes x ∧ (x ∈ addrs live' ↔ x ∈ addrs live)) :
    ChunkOk n c m'.bytes h (addrs live') := by
  have hpos : 0 < n := Nat.lt_of_lt_of_le (by decide) hn
  refine hok.congr ?_ ?_
  · intro i hi
    obtain ⟨hge, hlt⟩ := entry_mem_chunk c hpos hi
    exact (hsame _ hge hlt).2
  intro i hi _ j hj
  obtain ⟨hge, -⟩ := entry_mem_chunk c hpos hi
  have hend := entry_le c hi
  exact (hsame _ (by omega) (by omega)).1.symm

lemma Placed.set (hp : Placed bs m p b) (hget : bs[k]? = some a) (hn : a'.n = a.n)
    (hkeep : ∀ d ∈ a.chunks, (∃ i < capacity a.n, p = ChunkHeader.entry a.n d i) → d ∈ a'.chunks)
    (hbump : m.bump ≤ m'.bump) :
    Placed (bs.set k a') m' p b := by
  cases hp with
  | huge hnone hstart hpage haligned hle =>
    exact .huge (getElem?_set_none.2 hnone) hstart hpage haligned (Nat.le_trans hle hbump)
  | @entry x d i hgetx hmem hlt heq =>
    by_cases hk : b.level = k
    · subst hk
      rw [hget] at hgetx
      cases hgetx
      exact .entry (getElem?_set_get hget) (hkeep d hmem ⟨i, hlt, heq⟩) (hn ▸ hlt) (hn ▸ heq)
    · refine .entry ?_ hmem hlt heq
      rw [List.getElem?_set_ne (Ne.symm hk)]
      exact hgetx

/-- One allocator and one of its chunks change. -/
lemma HeapOk.replace (h : HeapOk bs m live) (hget : bs[k]? = some a) (hn : a'.n = a.n) (hok : BucketOk a')
    (hsub : ∀ d ∈ a'.chunks, d ∈ a.chunks ∨ d = c) (hc : c ∈ a.chunks ∨ ∀ (j : Nat) x, bs[j]? = some x → c ∉ x.chunks)
    (hsame : ∀ d, Frame d → d ≠ c → m'.headers d = m.headers d ∧
      ∀ x, d ≤ x → x < d + chunkSize → m'.bytes x = m.bytes x ∧ (x ∈ addrs live' ↔ x ∈ addrs live))
    (hchunk : c ∈ a'.chunks → ChunkOk a.n c m'.bytes (m'.headers c) (addrs live'))
    (hpage : 4096 ∣ m'.bump) (hbump : m.bump ≤ m'.bump)
    (hplaced : ∀ p b, live' p = some b → Placed (bs.set k a') m' p b)
    (hrouted : ∀ p b, live' p = some b → level (sizes bs) b.layout = b.level)
    (hpos : ∀ p b, live' p = some b → 0 < b.layout.size)
    (hhuge : ∀ p b, live' p = some b → bs[b.level]? = none → live p = some b) : HeapOk (bs.set k a') m' live' := by
  -- the other allocators do not have the chunk
  have hother : ∀ (j : Nat) x, j ≠ k → bs[j]? = some x → c ∉ x.chunks := by
    intro j x hjk hx hmem
    rcases hc with hc | hc
    · exact hjk (h.owner j k x a c hx hget hmem hc)
    · exact hc j x hx hmem
  have hnotOther : ∀ (j : Nat) x d, j ≠ k → bs[j]? = some x → d ∈ x.chunks → d ∉ a'.chunks := by
    intro j x d hjk hx hd hd'
    rcases hsub d hd' with hd' | rfl
    · exact hjk (h.owner j k x a d hx hget hd hd')
    · exact hother j x hjk hx hd
  refine ⟨?_, ?_, ?_, hpage, Nat.le_trans h.start hbump, hplaced, ?_, hpos, ?_⟩
  · intro j x hx
    rcases getElem?_set_cases hx with ⟨rfl, rfl⟩ | ⟨hjk, hx⟩
    · exact hok
    · exact h.bucket j x hx
  · intro i j x y d hx hy hdx hdy
    rcases getElem?_set_cases hx with ⟨rfl, rfl⟩ | ⟨hik, hx'⟩ <;>
    rcases getElem?_set_cases hy with ⟨rfl, rfl⟩ | ⟨hjk, hy'⟩
    · rfl
    · exact absurd hdx (hnotOther j y d hjk hy' hdy)
    · exact absurd hdy (hnotOther i x d hik hx' hdx)
    · exact h.owner i j x y d hx' hy' hdx hdy
  · intro j x hx d hd
    have hold : ∀ (i : Nat) y, bs[i]? = some y → d ∈ y.chunks → d ≠ c →
        ChunkOk y.n d m'.bytes (m'.headers d) (addrs live') := by
      intro i y hy hdy hdc
      have hb := h.bucket i y hy
      obtain ⟨hheader, hbytes⟩ := hsame d (hb.frame d hdy) hdc
      rw [hheader]
      exact (h.chunk i y hy d hdy).elsewhere hb.n_ge hbytes
    rcases getElem?_set_cases hx with ⟨rfl, rfl⟩ | ⟨hjk, hx⟩
    · by_cases hdc : d = c
      · subst hdc
        rw [hn]
        exact hchunk hd
      rcases hsub d hd with hda | hda
      · rw [hn]
        exact hold j a hget hda hdc
      · exact absurd hda hdc
    · refine hold j x hx hd ?_
      rintro rfl
      exact hother j x hjk hx hd
  · intro q b hq
    rw [sizes_set hget hn]
    exact hrouted q b hq
  · intro q r b b' hq hr hne hb hb'
    rw [getElem?_set_none] at hb hb'
    exact h.huge q r b b' (hhuge q b hq hb) (hhuge r b' hr hb') hne hb hb'

/-- One allocator changes and keeps the chunks of the blocks in use. -/
lemma HeapOk.setBucket (hok : HeapOk bs m live) (hget : bs[k]? = some a) (hn : a'.n = a.n) (hb : BucketOk a')
    (hsub : ∀ d ∈ a'.chunks, d ∈ a.chunks)
    (hkeep : ∀ d ∈ a.chunks, ∀ i < capacity a.n, entry a.n d i ∈ addrs live → d ∈ a'.chunks) :
    HeapOk (bs.set k a') m live := by
  -- no chunk is at address zero
  have hzero : ∀ (j : Nat) x, bs[j]? = some x → 0 ∉ x.chunks := by
    intro j x hx hmem
    have hstart := ((hok.bucket j x hx).frame 0 hmem).start_le
    simp [dynamicStart] at hstart
  refine hok.replace hget hn hb (fun d hd => .inl (hsub d hd)) (.inr hzero) ?_ ?_ hok.page (Nat.le_refl _) ?_
    hok.routed hok.pos fun q b hq _ => hq
  · exact fun d _ _ => ⟨rfl, fun x _ _ => ⟨rfl, Iff.rfl⟩⟩
  · exact fun hmem => absurd (hsub 0 hmem) (hzero _ a hget)
  refine fun q b hq => (hok.placed q b hq).set hget hn ?_ (Nat.le_refl _)
  rintro d hd ⟨i, hi, rfl⟩
  exact hkeep d hd i hi (by simp [hq])

end

/-! ## Allocation -/

def Live.add (live : Live) (l : Layout) : Option (Nat × Nat) → Live
  | none => live
  | some x => Function.update live x.1 (some ⟨l, x.2⟩)

def Live.remove (live : Live) (p : Nat) : Live := Function.update live p none

variable {l : Layout} {k q : Nat}

lemma Live.add_some {b : Block} (h : live.add l (some (p, k)) q = some b) :
    (q = p ∧ b = ⟨l, k⟩) ∨ (q ≠ p ∧ live q = some b) := by
  by_cases hq : q = p
  · subst hq
    simp only [add, Function.update_self, Option.some.injEq] at h
    exact .inl ⟨rfl, h.symm⟩
  · simp only [add, Function.update_of_ne hq] at h
    exact .inr ⟨hq, h⟩

lemma Live.add_forall {P : Nat → Block → Prop} (hnew : P p ⟨l, k⟩)
    (hold : ∀ q b, live q = some b → P q b) : ∀ q b, live.add l (some (p, k)) q = some b → P q b := by
  intro q b hq
  rcases Live.add_some hq with ⟨rfl, rfl⟩ | ⟨-, hq⟩
  · exact hnew
  · exact hold q b hq

/-- A block of a fixed-size allocator is none of the huge ones. -/
lemma Live.add_huge {bs : Buckets} {a : FixedSizeAllocator}
    (hget : bs[k]? = some a) : ∀ q b, live.add l (some (p, k)) q = some b → bs[b.level]? = none → live q = some b := by
  apply Live.add_forall
  · intro hnone
    rw [hget] at hnone
    cases hnone
  · exact fun q b hq _ => hq

lemma Live.remove_some {b : Block} (h : live.remove p q = some b) : q ≠ p ∧ live q = some b := by
  by_cases hq : q = p
  · subst hq
    simp [remove] at h
  · simp only [remove, Function.update_of_ne hq] at h
    exact ⟨hq, h⟩

lemma addrs_add : addrs (live.add l (some (p, k))) = insert p (addrs live) := by
  ext q
  by_cases hq : q = p
  · subst hq
    simp [Live.add]
  · simp [Live.add, hq]

lemma addrs_remove : addrs (live.remove p) = addrs live \ {p} := by
  ext q
  by_cases hq : q = p
  · subst hq
    simp [Live.remove]
  · simp [Live.remove, hq]

/-- A block that was not in use, if any, and all others with their bytes. -/
structure Allocated (bs : Buckets) (m : Memory) (live : Live) (l : Layout) (r : Option (Nat × Nat)) (bs' : Buckets)
    (m' : Memory) : Prop where
  ok : HeapOk bs' m' (live.add l r)
  sizes : sizes bs' = sizes bs
  fresh : ∀ x ∈ r, live x.1 = none
  kept : Kept (KernelHeap.sizes bs) live m m'

section

variable {bs bs' : Buckets} {m m' : Memory} {live : Live} {a a' : FixedSizeAllocator} {p c k : Nat} {b : Block}
  {l : Layout} {s : Supply} {r : Option Nat}

section

variable (hok : HeapOk bs m live) (hl : 0 < l.size)
include hok hl

lemma HeapOk.known {h : ChunkHeaderState} {i : Nat}
    (hget : bs[level (sizes bs) l]? = some a) (hmem : c ∈ a.chunks) (htry : a.tryChunk m l c = some (p, h)) :
    Allocated bs m live l (some (p, level (sizes bs) l))
      (bs.set (level (sizes bs) l) { a with goodChunk := some c, lastIdx := i }) (m.setHeader c h) := by
  have hb := hok.bucket _ _ hget
  obtain ⟨⟨j, hj, hpe⟩, hnot, hchunk⟩ := allocate_ok hb.pos (hok.chunk _ _ hget c hmem) htry
  have hnone : live p = none := by simpa using hnot
  obtain ⟨hge, hlt⟩ := entry_mem_chunk c hb.pos hj
  rw [← addrs_add] at hchunk
  refine ⟨?_, sizes_set hget rfl, by simpa using hnone, fun q b hq i hi => rfl⟩
  refine hok.replace hget rfl ?_ (fun d hd => .inl hd) (.inl hmem) ?_ ?_ hok.page (Nat.le_refl _) ?_ ?_ ?_ ?_
  · refine ⟨hb.n_ge, hb.n_le, hb.sorted, ?_, hb.frame⟩
    intro d hd
    cases hd
    exact hmem
  · intro d hd hdc
    refine ⟨setHeader_ne hdc .., fun x hx hx' => ⟨rfl, ?_⟩⟩
    have hxp : x ≠ p := by rcases frames_apart hd (hb.frame c hmem) hdc with hap | hap <;> omega
    rw [addrs_add]
    simp [hxp]
  · intro _
    rw [setHeader_self]
    exact hchunk
  · apply Live.add_forall
    · exact .entry (getElem?_set_get hget) hmem hj hpe
    intro q b hq
    exact (hok.placed q b hq).set hget rfl (fun d hd _ => hd) (Nat.le_refl _)
  · exact Live.add_forall rfl hok.routed
  · exact Live.add_forall hl hok.pos
  · exact Live.add_huge hget

lemma HeapOk.freshChunk {addr : Nat} (hget : bs[level (sizes bs) l]? = some a)
    (hframe : Frame c) (hno : ∀ (k : Nat) a, bs[k]? = some a → c ∉ a.chunks)
    (hvec : take ((m.mapped c chunkSize s).setHeader c new) s 8 s.vecPages = some (addr, m')) :
    Allocated bs m live l (some (entry a.n c 0, level (sizes bs) l)) (bs.set (level (sizes bs) l)
        { a with chunks := a.chunks.insertIdx (a.chunks.countP (· < c)) c,
                 lastIdx := a.chunks.countP (· < c), goodChunk := some c })
      (m'.setHeader c ⟨1, none, 1⟩) := by
  have hb := hok.bucket _ _ hget
  have hstart := hok.start
  have hend := hframe.end_le
  have htaken : HugeAllocator.Taken ((m.mapped c chunkSize s).setHeader c new) 8 s.vecPages addr m' :=
    take_taken ⟨3, rfl⟩ hok.page hvec
  have hcap := capacity_pos hb.n_le hb.pos
  have hle : m.bump ≤ addr := htaken.le_addr
  have hbump := htaken.bump_eq
  -- outside the new chunk and the vector's pages the bytes stay
  have hbytes : ∀ x, x < c ∨ c + chunkSize ≤ x → x < m.bump → m'.bytes x = m.bytes x := by
    intro x hx hx'
    rw [htaken.bytes x (.inl hx')]
    exact mapped_bytes hx
  have hnolive : ∀ x, c ≤ x → x < c + chunkSize → live x = none := by
    intro x hx hx'
    by_contra hne
    obtain ⟨b, hxb⟩ := ne_none_iff_exists'.1 hne
    have hpos := hok.extent_pos hxb
    rcases hok.frame_apart hxb hframe hno with hap | hap <;> omega
  have hpe := entry_mem_chunk c hb.pos (show 0 < capacity a.n by omega)
  have hnone : live (entry a.n c 0) = none := hnolive _ hpe.1 hpe.2
  refine ⟨?_, sizes_set hget rfl, by simpa using hnone, ?_⟩
  · refine hok.replace (c := c) hget rfl (hb.insert (hno _ _ hget) hframe) ?_ (.inr hno) ?_ ?_ ?_ ?_ ?_ ?_ ?_ ?_
    · intro d hd
      rcases mem_insertIdx_countP.1 hd with rfl | hd
      · exact .inr rfl
      · exact .inl hd
    · intro d hd hdc
      refine ⟨?_, fun x hx hx' => ?_⟩
      · rw [setHeader_ne hdc, htaken.headers, setHeader_ne hdc]
        rfl
      have hap := frames_apart hd hframe hdc
      have hdend := hd.end_le
      have hxc : x < c ∨ c + chunkSize ≤ x := by rcases hap with hap | hap <;> omega
      refine ⟨hbytes x hxc (by omega), ?_⟩
      have hxp : x ≠ entry a.n c 0 := by
        rintro rfl
        rcases hxc with hxc | hxc <;> omega
      rw [addrs_add]
      simp [hxp]
    · intro _
      rw [setHeader_self, addrs_add]
      have hnew : ChunkOk a.n c m'.bytes new (addrs live) := by
        refine chunkOk_new fun i hi => ?_
        obtain ⟨h1, h2⟩ := entry_mem_chunk c hb.pos hi
        simp [hnolive _ h1 h2]
      have hcan := canAllocate_of_level hget
      rw [canAllocate_iff] at hcan
      exact (allocate_ok hb.pos hnew (allocate_new (by omega) hcan.1 hcan.2)).2.2
    · have h4096 : 4096 ∣ s.vecPages * 4096 := Nat.dvd_mul_left ..
      rw [setHeader_bump, hbump]
      exact Nat.dvd_add htaken.page h4096
    · rw [setHeader_bump, hbump]
      omega
    · apply Live.add_forall
      · exact .entry (getElem?_set_get hget) (mem_insertIdx_countP.2 (.inl rfl)) (by simp only; omega) rfl
      intro q b hq
      refine (hok.placed q b hq).set hget rfl (fun d hd _ => mem_insertIdx_countP.2 (.inr hd)) ?_
      rw [setHeader_bump, hbump]
      omega
    · exact Live.add_forall rfl hok.routed
    · exact Live.add_forall hl hok.pos
    · exact Live.add_huge hget
  · intro q b hq i hi
    have h1 := hok.le_bump hq
    refine hbytes _ ?_ (by omega)
    rcases hok.frame_apart hq hframe hno with hap | hap <;> omega

lemma HeapOk.served (hget : bs[level (sizes bs) l]? = some a)
    (hfresh : FreshFrame bs s) (hs : Served a m s l r a' m') :
    Allocated bs m live l (r.map (·, level (sizes bs) l)) (bs.set (level (sizes bs) l) a') m' := by
  cases hs with
  | known hmem htry => exact hok.known hl hget hmem htry
  | fresh hframe hvec =>
    obtain ⟨hc, hno⟩ := hfresh _ hframe
    exact hok.freshChunk hl hget hc hno hvec
  | failed =>
    -- only the hint changes
    exact ⟨hok.setBucket hget rfl (hok.bucket _ _ hget).setGood (fun d hd => hd) fun d hd _ _ _ => hd,
      sizes_set hget rfl, by simp, fun q b hq i hi => rfl⟩

lemma HeapOk.hugeBlock (hget : bs[level (sizes bs) l]? = none) (hout : HugeAllocator.allocate m s l = some (r, m')) :
    Allocated bs m live l (r.map (·, level (sizes bs) l)) bs m' := by
  simp only [HugeAllocator.allocate] at hout
  split at hout
  · cases hout
    exact ⟨hok, rfl, by simp, fun q b hq i hi => rfl⟩
  obtain ⟨⟨addr, m1⟩, htake, heq⟩ := map_eq_some_iff.1 hout
  simp only [Prod.mk.injEq] at heq
  obtain ⟨rfl, rfl⟩ := heq
  have htaken := HugeAllocator.take_taken l.pow hok.page htake
  have hbump : m1.bump = addr + hugeLen l := htaken.bump_eq
  have hle := htaken.le_addr
  have hstart := hok.start
  -- all blocks in use lie below the new one
  have hbelow : ∀ q b, live q = some b → q + extent (sizes bs) b ≤ addr := by
    intro q b hq
    exact Nat.le_trans (hok.le_bump hq) hle
  have hbytes : ∀ x < m.bump, m1.bytes x = m.bytes x := fun x hx => htaken.bytes x (.inl hx)
  have hnone : live addr = none := by
    by_contra hne
    obtain ⟨b, hb⟩ := ne_none_iff_exists'.1 hne
    have h1 := hbelow addr b hb
    have h2 := hok.extent_pos hb
    omega
  refine ⟨?_, rfl, by simpa using hnone, ?_⟩
  · refine ⟨hok.bucket, hok.owner, ?_, ?_, by omega, ?_, ?_, ?_, ?_⟩
    · intro k a ha c hc
      have hba := hok.bucket k a ha
      have hend := (hba.frame c hc).end_le
      rw [htaken.headers]
      refine (hok.chunk k a ha c hc).elsewhere hba.n_ge fun x hx hx' => ⟨hbytes x (by omega), ?_⟩
      have hne : x ≠ addr := by omega
      simp only [map_some]
      rw [addrs_add]
      simp [hne]
    · rw [hbump]
      exact Nat.dvd_add htaken.page (Nat.dvd_mul_left ..)
    · apply Live.add_forall
      · exact .huge hget (by omega) htaken.page htaken.aligned (Nat.le_of_eq hbump.symm)
      intro q b hq
      cases hok.placed q b hq with
      | entry h1 h2 h3 h4 => exact .entry h1 h2 h3 h4
      | huge h1 h2 h3 h4 h5 => exact .huge h1 h2 h3 h4 (by omega)
    · exact Live.add_forall rfl hok.routed
    · exact Live.add_forall hl hok.pos
    intro q q' b b' hq hq' hne hb hb'
    rcases Live.add_some hq with ⟨rfl, rfl⟩ | ⟨-, hold⟩ <;>
    rcases Live.add_some hq' with ⟨rfl, rfl⟩ | ⟨-, hold'⟩
    · exact absurd rfl hne
    · have := hbelow q' b' hold'
      rw [extent_none hb'] at this
      exact .inr this
    · have := hbelow q b hold
      rw [extent_none hb] at this
      exact .inl this
    · exact hok.huge q q' b b' hold hold' hne hb hb'
  · intro q b hq i hi
    have := hok.le_bump hq
    exact hbytes _ (by omega)

lemma HeapOk.allocate {r : Option (Nat × Nat)}
    (hfresh : FreshFrame bs s) (hout : allocate bs m s l = some (r, bs', m')) : Allocated bs m live l r bs' m' := by
  rw [allocate_at] at hout
  cases hget : bs[level (sizes bs) l]? with
  | none =>
    simp only [hget] at hout
    obtain ⟨⟨r', m1⟩, hhuge, heq⟩ := map_eq_some_iff.1 hout
    cases heq
    exact hok.hugeBlock hl hget hhuge
  | some a =>
    simp only [hget] at hout
    obtain ⟨⟨r', a', m1⟩, hfixed, heq⟩ := map_eq_some_iff.1 hout
    cases heq
    have hframe : ∀ c ∈ s.frame, Frame c ∧ c ∉ a.chunks := fun c hc => ⟨(hfresh c hc).1, (hfresh c hc).2 _ a hget⟩
    exact hok.served hl hget hfresh (allocate_served (hok.bucket _ _ hget) (canAllocate_of_level hget) hframe hfixed)

end

def Room (m : Memory) (s : Supply) (l : Layout) : Prop := m.bump + s.vecPages * 4096 + l.align + hugeLen l ≤ limit

lemma HeapOk.allocate_isSome (hok : HeapOk bs m live) (hfresh : FreshFrame bs s) (hroom : Room m s l) :
    ∃ out, KernelHeap.allocate bs m s l = some out := by
  rw [allocate_at]
  simp only [Room] at hroom
  cases hget : bs[level (sizes bs) l]? with
  | none =>
    have hplace : HugeAllocator.place m l.align + (l.size + 4095) / 4096 * 4096 ≤ HugeAllocator.limit := by
      have hlen : (l.size + 4095) / 4096 * 4096 = hugeLen l := rfl
      have hlt := nextMultipleOf_lt m.bump l.align_pos
      simp only [HugeAllocator.place]
      split <;> omega
    simp only [HugeAllocator.allocate]
    split
    · exact ⟨_, rfl⟩
    rw [HugeAllocator.take_of_room m hplace]
    exact ⟨_, rfl⟩
  | some a =>
    have hframe : ∀ c ∈ s.frame, Frame c ∧ c ∉ a.chunks := fun c hc => ⟨(hfresh c hc).1, (hfresh c hc).2 _ a hget⟩
    obtain ⟨out, hout⟩ := KernelHeap.allocate_isSome (hok.bucket _ _ hget) (canAllocate_of_level hget) hframe
      (show m.bump + s.vecPages * 4096 ≤ HugeAllocator.limit by omega)
    simp only [hout, map_some]
    exact ⟨_, rfl⟩

end

/-! ## Blocks that go or change -/

structure Freed (bs : Buckets) (m : Memory) (live : Live) (p : Nat) (bs' : Buckets) (m' : Memory) : Prop where
  ok : HeapOk bs' m' (live.remove p)
  sizes : sizes bs' = sizes bs
  kept : Kept (KernelHeap.sizes bs) (live.remove p) m m'

section

variable {bs : Buckets} {m m' : Memory} {live : Live} {a a' : FixedSizeAllocator} {p c k : Nat} {b : Block}
  {l : Layout} {s : Supply}

section

variable (hok : HeapOk bs m live)

include hok

lemma HeapOk.forget (hp : live p = some b) (hnone : bs[b.level]? = none) : HeapOk bs m (live.remove p) := by
  have hold : ∀ q b, live.remove p q = some b → live q = some b := fun q b hq => (Live.remove_some hq).2
  refine ⟨hok.bucket, hok.owner, ?_, hok.page, hok.start, fun q b hq => hok.placed q b (hold q b hq),
    fun q b hq => hok.routed q b (hold q b hq), fun q b hq => hok.pos q b (hold q b hq),
    fun q r b b' hq hr => hok.huge q r b b' (hold q b hq) (hold r b' hr)⟩
  intro k a ha c hc
  have hba := hok.bucket k a ha
  refine (hok.chunk k a ha c hc).elsewhere hba.n_ge fun x hx hx' => ⟨rfl, ?_⟩
  have hend := (hba.frame c hc).end_le
  have hne : x ≠ p := by
    cases hok.placed p b hp with
    | entry hget => simp [hnone] at hget
    | huge _ hstart => omega
  rw [addrs_remove]
  simp [hne]

lemma HeapOk.putBack {i : Nat} (hget : bs[b.level]? = some a) (hmem : c ∈ a.chunks)
    (hi : i < capacity a.n) (hpe : p = entry a.n c i) (hp : live p = some b) : ∃ unused h,
      ChunkHeader.deallocate (m.headers c) m.bytes p = some (unused, h, setLink m.bytes p (m.headers c).nextEntry) ∧
      Freed bs m live p bs (m.freed c p h) ∧ (unused = true ↔ h.used = 0) := by
  subst hpe
  have hb := hok.bucket _ _ hget
  have hend : c + chunkSize ≤ 256 ^ 8 := by
    have := (hb.frame c hmem).end_le
    simp only [hugeStart] at this
    omega
  obtain ⟨unused, h, hdealloc, hchunk, hunused, -⟩ :=
    deallocate_ok hb.n_ge hend (hok.chunk _ _ hget c hmem) hi (by simp [hp])
  obtain ⟨hge, hlt⟩ := entry_mem_chunk c hb.pos hi
  have hend := entry_le c hi
  have hlink := hb.n_ge
  refine ⟨unused, h, hdealloc, ⟨?_, rfl, ?_⟩, hunused⟩
  · rw [← set_get hget]
    refine hok.replace (c := c) hget rfl hb (fun d hd => .inl hd) (.inl hmem) ?_ ?_ hok.page (Nat.le_refl _) ?_ ?_ ?_ ?_
    · intro d hd hdc
      refine ⟨Memory.setHeader_ne hdc .., fun x hx hx' => ?_⟩
      have hap := frames_apart hd (hb.frame c hmem) hdc
      refine ⟨setLink_outside ?_, ?_⟩
      · rcases hap with hap | hap <;> omega
      have hne : x ≠ entry a.n c i := by rcases hap with hap | hap <;> omega
      rw [addrs_remove]
      simp [hne]
    · intro _
      rw [addrs_remove, Memory.freed, Memory.setHeader_self]
      exact hchunk
    · exact fun q b' hq => (hok.placed q b' (Live.remove_some hq).2).set hget rfl (fun d hd _ => hd) (Nat.le_refl _)
    · exact fun q b' hq => hok.routed q b' (Live.remove_some hq).2
    · exact fun q b' hq => hok.pos q b' (Live.remove_some hq).2
    · exact fun q b' hq _ => (Live.remove_some hq).2
  · intro q b' hq j hj
    obtain ⟨hne, hq⟩ := Live.remove_some hq
    have hap := hok.apart hp hq (Ne.symm hne)
    rw [extent_get hget] at hap
    refine setLink_outside ?_
    rcases hap with hap | hap <;> omega

/-- A chunk that is unused is taken out of the list, a chunk with an entry in use is not. -/
lemma HeapOk.tryRelease (hget : bs[k]? = some a) (hc : c ∈ a.chunks) :
    ∃ a', a.tryRelease m c = some a' ∧ a'.n = a.n ∧ HeapOk (bs.set k a') m live ∧
      (∀ d, d ≠ c → (d ∈ a'.chunks ↔ d ∈ a.chunks)) ∧
      (c ∉ a'.chunks → ∀ i < capacity a.n, entry a.n c i ∉ addrs live) := by
  obtain ⟨a', ha', hb, hn, hsub, hkeep, hiff⟩ := @tryRelease_ok a m c (hok.bucket _ _ hget) hc
  have hempty : c ∉ a'.chunks → ∀ i < capacity a.n, entry a.n c i ∉ addrs live := by
    intro hno i hi hlive
    obtain ⟨free, hat⟩ := hok.chunk _ _ hget c hc
    have hlt := hat.length_lt hi hlive
    have hused := hat.used_add
    have := hiff.1 hno
    omega
  refine ⟨a', ha', hn, hok.setBucket hget hn hb hsub ?_, fun d hd => ⟨hsub d, fun h => hkeep d h hd⟩, hempty⟩
  intro d hd i hi hlive
  by_cases hdc : d = c
  · subst hdc
    by_contra hno
    exact hempty hno i hi hlive
  · exact hkeep d hd hdc

variable (hp : live p = some b)
include hp

/-- A block is taken back by the allocator that produced it. -/
lemma HeapOk.deallocate :
    ∃ bs' m', KernelHeap.deallocate bs m p b.layout = some (b.level, bs', m') ∧ Freed bs m live p bs' m' := by
  have hlevel := hok.routed p b hp
  rw [deallocate_at, hlevel]
  cases hok.placed p b hp with
  | huge hnone hstart hpage =>
    simp only [hnone]
    rw [if_pos (Nat.mod_eq_zero_of_dvd hpage)]
    exact ⟨bs, m, rfl, hok.forget hp hnone, rfl, fun q b hq i hi => rfl⟩
  | @entry a c i hget hmem hi hpe =>
    have hb := hok.bucket _ _ hget
    obtain ⟨unused, h, hdealloc, hfreed, -⟩ := hok.putBack hget hmem hi hpe hp
    have hdown : p / chunkSize * chunkSize = c := hpe ▸ alignDown_entry hb.pos hi (hb.frame c hmem).aligned
    simp only [hget, deallocate_eq hdown hdealloc]
    cases unused with
    | false =>
      refine ⟨bs, _, ?_, hfreed⟩
      simp [set_get hget]
    | true =>
      obtain ⟨a', ha', hn, hok', -⟩ := hfreed.ok.tryRelease hget hmem
      simp only [if_true, ha', map_some]
      exact ⟨_, _, rfl, hok', sizes_set hget hn, hfreed.kept⟩

lemma HeapOk.write (off : Nat) (w : Bytes)
    (hlen : off + w.length ≤ extent (sizes bs) b) : HeapOk bs { m with bytes := writeMem m.bytes (p + off) w } live ∧
      Kept (sizes bs) (live.remove p) m { m with bytes := writeMem m.bytes (p + off) w } := by
  refine ⟨⟨hok.bucket, hok.owner, ?_, hok.page, hok.start, ?_, hok.routed, hok.pos, hok.huge⟩, ?_⟩
  · intro k a hget c hc
    have hb := hok.bucket k a hget
    have hlink := hb.n_ge
    refine (hok.chunk k a hget c hc).congr (fun _ _ => Iff.rfl) ?_
    intro i hi hnot j hj
    have hne : entry a.n c i ≠ p := by
      intro heq
      rw [heq] at hnot
      exact hnot (by simp [hp])
    refine (writeMem_of_not_mem ?_).symm
    rcases hok.entry_apart hp hget hc hi hne with hap | hap <;> omega
  · intro q b' hq
    cases hok.placed q b' hq with
    | entry h1 h2 h3 h4 => exact .entry h1 h2 h3 h4
    | huge h1 h2 h3 h4 h5 => exact .huge h1 h2 h3 h4 h5
  · intro q b' hq j hj
    obtain ⟨hne, hq⟩ := Live.remove_some hq
    refine writeMem_of_not_mem ?_
    rcases hok.apart hp hq (Ne.symm hne) with hap | hap <;> omega

/-- A block of a fixed-size allocator gets another layout of the same level. -/
lemma HeapOk.relabel (hget : bs[b.level]? = some a)
    (hlevel : level (sizes bs) l = b.level) (hl : 0 < l.size) : HeapOk bs m (live.add l (some (p, b.level))) := by
  have haddrs : addrs (live.add l (some (p, b.level))) = addrs live := by
    rw [addrs_add]
    exact Set.insert_eq_of_mem (by simp [hp])
  refine ⟨hok.bucket, hok.owner, ?_, hok.page, hok.start, ?_, ?_, ?_, ?_⟩
  · rw [haddrs]
    exact hok.chunk
  · apply Live.add_forall _ hok.placed
    cases hok.placed p b hp with
    | entry h1 h2 h3 h4 => exact .entry h1 h2 h3 h4
    | huge h1 => simp [hget] at h1
  · exact Live.add_forall hlevel hok.routed
  · exact Live.add_forall hl hok.pos
  · intro q r b1 b2 hq hr hne hb1 hb2
    apply hok.huge q r b1 b2 _ _ hne hb1 hb2
    · exact Live.add_huge hget q b1 hq hb1
    · exact Live.add_huge hget r b2 hr hb2

end

end

end Mushroom.L2.KernelHeap
