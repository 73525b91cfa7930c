import Mushroom.L2Memory.HeapInv
import Mushroom.Core.LTS

/-!
# The kernel heap over every sequence of calls

Whatever is allocated, resized, freed and written, the blocks are long enough,
apart from each other and from the headers of the chunks, and every `dealloc` and
`realloc` goes to the allocator that produced the block.

Two things fail. The entries of a fixed-size allocator are spaced by its size,
which is no power of two for 24, 40, 48 and 96, and `can_allocate` only compares
the alignment with the size: 24 bytes with alignment 16 start 72 bytes into a
chunk. And a `realloc` to the same size is `unreachable!()`. `kernel_heap_iff`
says that these are the only ones.
-/
namespace Mushroom.L2.KernelHeap
open List Option Function FreeList ChunkHeader

/-! ## The system -/

structure HeapState where
  buckets : Buckets
  mem : Memory
  live : Live

inductive Call where
  | alloc (s : Supply) (l : Layout)
  | dealloc (p : Nat)
  | realloc (s : Supply) (p newSize : Nat)
  | store (p off : Nat) (v : UInt8)

/-- The blocks in use after `realloc` answered `r`. -/
def Live.resize (live : Live) (p : Nat) (l : Layout) (newSize : Nat) : Option (Nat × Nat) → Live
  | none => live
  | some x =>
    match l.resize newSize with
    | none => live
    | some new => (live.remove p).add new (some x)

/-- What the callers of `GlobalAlloc` promise, and the supervisor about its frames. -/
def Legal (st : HeapState) : Call → Prop
  | .alloc s l => 0 < l.size ∧ FreshFrame st.buckets s
  | .dealloc p => ∃ b, st.live p = some b
  | .realloc s p newSize => (∃ b, st.live p = some b) ∧ 0 < newSize ∧ FreshFrame st.buckets s
  | .store p off _ => ∃ b, st.live p = some b ∧ off < b.layout.size

/-- One call; a panic is `none`.
kernel/memory/heap/combined_allocator.rs:55-88 -/
def exec (st : HeapState) : Call → Option HeapState
  | .alloc s l => (allocate st.buckets st.mem s l).map fun r => ⟨r.2.1, r.2.2, st.live.add l r.1⟩
  | .dealloc p => do
    let b ← st.live p
    let r ← deallocate st.buckets st.mem p b.layout
    some ⟨r.2.1, r.2.2, st.live.remove p⟩
  | .realloc s p newSize => do
    let b ← st.live p
    let r ← realloc st.buckets st.mem s p b.layout newSize
    some ⟨r.2.1, r.2.2, st.live.resize p b.layout newSize r.1.block⟩
  | .store p off v => some { st with mem := { st.mem with bytes := writeMem st.mem.bytes (p + off) [v] } }

/-- combined_allocator.rs:35-49 -/
def heapSystem : LTS HeapState Call where
  init st := st.buckets = bucketSizes.map FixedSizeAllocator.new ∧ st.mem.bump = hugeStart ∧ st.live = fun _ => none
  step st call st' := Legal st call ∧ exec st call = some st'

/-! ## Resizing -/

/-- `realloc` leaves the block with its bytes, handled by the allocator that produced it, and all others as
they were. -/
structure Reallocated (bs : Buckets) (m : Memory) (live : Live) (p : Nat) (b : Block) (newSize : Nat) (r : Resized)
    (bs' : Buckets) (m' : Memory) : Prop where
  ok : HeapOk bs' m' (live.resize p b.layout newSize r.block)
  sizes : sizes bs' = sizes bs
  routed : ∀ x ∈ r.block, r.routed = some b.level
  bytes : ∀ x ∈ r.block, ∀ i < min b.layout.size newSize, m'.bytes (x.1 + i) = m.bytes (p + i)
  kept : Kept (KernelHeap.sizes bs) (live.remove p) m m'
  failed : r.block = none → Kept (KernelHeap.sizes bs) live m m'

section

variable {bs bs' bs1 : Buckets} {m m' m1 : Memory} {live live' : Live} {a : FixedSizeAllocator} {p newSize : Nat}
  {b : Block} {new : Layout} {s : Supply} {len : Nat} {r : Resized}

lemma Kept.mono {ns : List Nat} (h : Kept ns live m m')
    (hlive : ∀ q b, live' q = some b → live q = some b) : Kept ns live' m m' :=
  fun q b hq => h q b (hlive q b hq)

lemma Live.remove_add {x : Nat × Nat} (hne : x.1 ≠ p) :
    (live.add new (some x)).remove p = (live.remove p).add new (some x) := update_comm hne ..

lemma Live.add_remove_self {k : Nat} : (live.remove p).add new (some (p, k)) = live.add new (some (p, k)) :=
  update_idem ..

section

variable (hok : HeapOk bs m live) (hp : live p = some b) (hnew : b.layout.resize new.size = some new)
include hok hp hnew

/-- With a block for the new layout, the copy and the end of the old block go through. -/
lemma HeapOk.moved {q k : Nat} (hlen : len = min b.layout.size new.size)
    (hallocated : Allocated bs m live new (some (q, k)) bs1 m1) :
    ∃ bs2 m2, KernelHeap.deallocate bs1 (m1.copy p q len) p b.layout = some (b.level, bs2, m2) ∧
      Reallocated bs m live p b new.size ⟨some (q, k), some b.level⟩ bs2 m2 := by
  have hq : live q = none := hallocated.fresh _ rfl
  have hne : q ≠ p := by
    intro heq
    rw [heq, hp] at hq
    cases hq
  have hqlive : live.add new (some (q, k)) q = some ⟨new, k⟩ := update_self ..
  have hplive : live.add new (some (q, k)) p = some b := (update_of_ne hne.symm ..).trans hp
  have hqsize : new.size ≤ extent (sizes bs1) ⟨new, k⟩ := hallocated.ok.size_le hqlive
  -- the copy writes to the new block only
  obtain ⟨hok1, hkept1⟩ := hallocated.ok.write hqlive 0 (readMem m1.bytes p len) (by simp; omega)
  rw [Nat.add_zero] at hok1 hkept1
  obtain ⟨bs2, m2, hdealloc, hfreed⟩ := hok1.deallocate hplive
  rw [← Memory.copy] at hdealloc
  have hsizes : sizes bs1 = sizes bs := hallocated.sizes
  have hothers : ∀ q' b', live.remove p q' = some b' →
      (live.add new (some (q, k))).remove q q' = some b' ∧ (live.add new (some (q, k))).remove p q' = some b' := by
    intro q' b' hq'
    obtain ⟨hnp, hlive⟩ := Live.remove_some hq'
    have hnq : q' ≠ q := by
      intro heq
      rw [heq, hq] at hlive
      cases hlive
    have hadd : live.add new (some (q, k)) q' = some b' := (update_of_ne hnq ..).trans hlive
    exact ⟨(update_of_ne hnq ..).trans hadd, (update_of_ne hnp ..).trans hadd⟩
  refine ⟨bs2, m2, hdealloc, ?_, hfreed.sizes.trans hsizes, fun _ _ => rfl, ?_, ?_, by simp⟩
  · simp only [Live.resize, hnew]
    rw [← Live.remove_add hne]
    exact hfreed.ok
  · intro x hx i hi
    cases hx
    have hqremove : (live.add new (some (q, k))).remove p q = some ⟨new, k⟩ :=
      (update_of_ne hne ..).trans hqlive
    have hpsize := hok.size_le hp
    have hread : (readMem m1.bytes p len).getD i 0 = m1.bytes (p + i) := by
      simp [readMem, getD_eq_getElem?_getD, hlen ▸ hi]
    calc m2.bytes (q + i) = writeMem m1.bytes q (readMem m1.bytes p len) (q + i) :=
          hfreed.kept q _ hqremove i (by omega)
      _ = m1.bytes (p + i) := by rw [writeMem_add (by simp; omega), hread]
      _ = m.bytes (p + i) := hallocated.kept p b hp i (by omega)
  · intro q' b' hq' i hi
    obtain ⟨h1, h2⟩ := hothers q' b' hq'
    rw [← hsizes] at hi
    rw [hfreed.kept q' b' h2 i hi, hkept1 q' b' h1 i hi]
    exact hallocated.kept q' b' (Live.remove_some hq').2 i (hsizes ▸ hi)

lemma HeapOk.move (hpos : 0 < new.size) (hfresh : FreshFrame bs s) (hlen : len = min b.layout.size new.size)
    (hout : KernelHeap.move len bs m s p b.layout new = some (r, bs', m')) :
    Reallocated bs m live p b new.size r bs' m' := by
  simp only [KernelHeap.move] at hout
  obtain ⟨⟨x, bs1, m1⟩, halloc, hout⟩ := bind_eq_some_iff.1 hout
  have hallocated := hok.allocate hpos hfresh halloc
  cases x with
  | none =>
    cases hout
    refine ⟨hallocated.ok, hallocated.sizes, by simp, by simp, ?_, fun _ => hallocated.kept⟩
    exact hallocated.kept.mono fun q b hq => (Live.remove_some hq).2
  | some x =>
    obtain ⟨bs2, m2, hdealloc, hre⟩ := hok.moved hp hnew hlen hallocated
    simp only [hdealloc, bind_eq_bind, bind_some, Option.some.injEq, Prod.mk.injEq] at hout
    obtain ⟨rfl, rfl, rfl⟩ := hout
    exact hre

/-- It moves unless there is no address space left. -/
lemma HeapOk.move_isSome (hpos : 0 < new.size) (hfresh : FreshFrame bs s)
    (hlen : len = min b.layout.size new.size) (hroom : Room m s new) :
    ∃ out, KernelHeap.move len bs m s p b.layout new = some out := by
  obtain ⟨⟨x, bs1, m1⟩, halloc⟩ := hok.allocate_isSome hfresh hroom
  have hallocated := hok.allocate hpos hfresh halloc
  simp only [KernelHeap.move, halloc, bind_eq_bind, bind_some]
  cases x with
  | none => exact ⟨_, rfl⟩
  | some x =>
    obtain ⟨bs2, m2, hdealloc, -⟩ := hok.moved hp hnew hlen hallocated
    simp only [hdealloc, bind_some]
    exact ⟨_, rfl⟩

end

lemma grow_eq (h : a.canAllocate new) : a.grow p new = some p := by
  rw [canAllocate_iff] at h
  exact if_neg (by omega)

lemma shrink_eq (h : a.canAllocate new) : a.shrink p new = some p := by
  rw [canAllocate_iff] at h
  exact if_neg (by omega)

lemma HeapOk.resize {inPlace : FixedSizeAllocator → Nat → Layout → Option Nat}
    (hinPlace : ∀ a : FixedSizeAllocator, a.canAllocate new → inPlace a p new = some p)
    (hok : HeapOk bs m live) (hp : live p = some b) (hnew : b.layout.resize new.size = some new)
    (hpos : 0 < new.size) (hfresh : FreshFrame bs s) (hlen : len = min b.layout.size new.size)
    (hout : KernelHeap.resize inPlace len bs m s p b.layout new = some (r, bs', m')) :
    Reallocated bs m live p b new.size r bs' m' := by
  rw [resize_eq] at hout
  split at hout
  · rename_i hlevel
    cases hget : bs[level (sizes bs) new]? with
    | none =>
      simp only [hget] at hout
      exact hok.move hp hnew hpos hfresh hlen hout
    | some a =>
      have hrouted := hok.routed p b hp
      have hlevel' : level (sizes bs) new = b.level := hlevel.symm.trans hrouted
      simp only [hget, hinPlace a (canAllocate_of_level hget), map_some, Option.some.injEq, Prod.mk.injEq] at hout
      obtain ⟨rfl, rfl, rfl⟩ := hout
      refine ⟨?_, rfl, fun _ _ => congrArg some hlevel', ?_, fun _ _ _ _ _ => rfl, by simp⟩
      · simp only [Live.resize, hnew]
        rw [Live.add_remove_self, hlevel']
        exact hok.relabel hp (hlevel' ▸ hget) hlevel' hpos
      · intro x hx i hi
        cases hx
        rfl
  · exact hok.move hp hnew hpos hfresh hlen hout

lemma HeapOk.realloc (hok : HeapOk bs m live) (hp : live p = some b) (hpos : 0 < newSize)
    (hfresh : FreshFrame bs s) (hout : KernelHeap.realloc bs m s p b.layout newSize = some (r, bs', m')) :
    Reallocated bs m live p b newSize r bs' m' := by
  simp only [KernelHeap.realloc] at hout
  cases hnew : b.layout.resize newSize with
  | none =>
    simp only [hnew] at hout
    cases hout
    exact ⟨hok, rfl, by simp, by simp, fun _ _ _ _ _ => rfl, fun _ _ _ _ _ _ => rfl⟩
  | some new =>
    obtain ⟨hsize, -⟩ := Layout.resize_some hnew
    subst hsize
    simp only [hnew] at hout
    split at hout
    · rename_i hlt
      exact hok.resize (fun a ha => grow_eq ha) hp hnew hpos hfresh (Nat.min_eq_left (Nat.le_of_lt hlt)).symm hout
    split at hout
    · cases hout
    rename_i hle hne
    exact hok.resize (fun a ha => shrink_eq ha) hp hnew hpos hfresh (Nat.min_eq_right (by omega)).symm hout

lemma HeapOk.resize_isSome (inPlace : FixedSizeAllocator → Nat → Layout → Option Nat) (hok : HeapOk bs m live)
    (hp : live p = some b) (hnew : b.layout.resize new.size = some new) (hpos : 0 < new.size) (hfresh : FreshFrame bs s)
    (hlen : len = min b.layout.size new.size) (hroom : Room m s new) :
    ∃ out, KernelHeap.resize inPlace len bs m s p b.layout new = some out := by
  have hmove := hok.move_isSome hp hnew hpos hfresh hlen hroom
  rw [resize_eq]
  split
  · cases bs[level (sizes bs) new]? with
    | none => exact hmove
    | some a => exact ⟨_, rfl⟩
  · exact hmove

/-- `realloc` returns exactly if the size changes or is no size of a layout. -/
lemma HeapOk.realloc_isSome (hok : HeapOk bs m live) (hp : live p = some b) (hpos : 0 < newSize)
    (hfresh : FreshFrame bs s) (hroom : ∀ new, b.layout.resize newSize = some new → Room m s new) :
    (∃ out, KernelHeap.realloc bs m s p b.layout newSize = some out) ↔ newSize ≠ b.layout.size := by
  simp only [KernelHeap.realloc]
  cases hnew : b.layout.resize newSize with
  | none =>
    have hne : newSize ≠ b.layout.size := by
      intro heq
      rw [heq, Layout.resize, dif_pos b.layout.fits] at hnew
      cases hnew
    simp [hne]
  | some new =>
    obtain ⟨hsize, -⟩ := Layout.resize_some hnew
    subst hsize
    have hroom := hroom new hnew
    rcases Nat.lt_trichotomy b.layout.size new.size with hlt | heq | hgt
    · have hlen := (Nat.min_eq_left (Nat.le_of_lt hlt)).symm
      have hsome := hok.resize_isSome FixedSizeAllocator.grow hp hnew hpos hfresh hlen hroom
      simp only [if_pos hlt]
      exact iff_of_true hsome (Nat.ne_of_gt hlt)
    · simp [heq]
    · have hlen := (Nat.min_eq_right (Nat.le_of_lt hgt)).symm
      have hsome := hok.resize_isSome FixedSizeAllocator.shrink hp hnew hpos hfresh hlen hroom
      simp only [if_neg (Nat.not_lt.2 (Nat.le_of_lt hgt)), if_neg (Nat.ne_of_gt hgt)]
      exact iff_of_true hsome (Nat.ne_of_lt hgt)

end

/-! ## Every run -/

structure StateOk (st : HeapState) : Prop where
  ok : HeapOk st.buckets st.mem st.live
  sizes : sizes st.buckets = bucketSizes

lemma bucketSizes_bounds : ∀ n ∈ bucketSizes, 8 ≤ n ∧ n ≤ 4096 := by decide

variable {a : FixedSizeAllocator} {n : Nat} {st st0 : HeapState}

lemma new_getElem? {k : Nat} (h : (bucketSizes.map FixedSizeAllocator.new)[k]? = some a) :
    ∃ n ∈ bucketSizes, a = FixedSizeAllocator.new n := by
  rw [List.getElem?_map] at h
  obtain ⟨n, hn, rfl⟩ := map_eq_some_iff.1 h
  exact ⟨n, mem_of_getElem? hn, rfl⟩

lemma bucketOk_new (h : n ∈ bucketSizes) : BucketOk (FixedSizeAllocator.new n) := by
  obtain ⟨hge, hle⟩ := bucketSizes_bounds n h
  exact ⟨hge, hle, List.Pairwise.nil, by simp [FixedSizeAllocator.new], by simp [FixedSizeAllocator.new]⟩

lemma StateOk.init (h : heapSystem.init st) : StateOk st := by
  obtain ⟨bs, m, live⟩ := st
  obtain ⟨rfl, hbump, rfl⟩ := h
  simp only at hbump
  refine ⟨⟨?_, ?_, ?_, ?_, Nat.le_of_eq hbump.symm, ?_, ?_, ?_, ?_⟩, ?_⟩
  · intro k a ha
    obtain ⟨n, hn, rfl⟩ := new_getElem? ha
    exact bucketOk_new hn
  · intro j k a b c ha _ hc
    obtain ⟨n, -, rfl⟩ := new_getElem? ha
    simp [FixedSizeAllocator.new] at hc
  · intro k a ha c hc
    obtain ⟨n, -, rfl⟩ := new_getElem? ha
    simp [FixedSizeAllocator.new] at hc
  · rw [hbump]
    exact Nat.dvd_of_mod_eq_zero (by decide)
  · simp
  · simp
  · simp
  · simp
  · rfl

lemma StateOk.step {st st' : HeapState} {call : Call} (h : StateOk st) (hstep : heapSystem.step st call st') :
    StateOk st' := by
  obtain ⟨hlegal, hexec⟩ := hstep
  cases call with
  | alloc s l =>
    obtain ⟨hpos, hfresh⟩ := hlegal
    obtain ⟨⟨r, bs, m⟩, hout, rfl⟩ := map_eq_some_iff.1 hexec
    have hallocated := h.ok.allocate hpos hfresh hout
    exact ⟨hallocated.ok, hallocated.sizes.trans h.sizes⟩
  | dealloc p =>
    obtain ⟨b, hb⟩ := hlegal
    obtain ⟨bs, m, hout, hfreed⟩ := h.ok.deallocate hb
    simp only [exec, hb, hout, bind_eq_bind, bind_some] at hexec
    cases hexec
    exact ⟨hfreed.ok, hfreed.sizes.trans h.sizes⟩
  | realloc s p newSize =>
    obtain ⟨⟨b, hb⟩, hpos, hfresh⟩ := hlegal
    simp only [exec, hb, bind_eq_bind, bind_some] at hexec
    obtain ⟨⟨r, bs, m⟩, hout, hexec⟩ := bind_eq_some_iff.1 hexec
    cases hexec
    have hre := h.ok.realloc hb hpos hfresh hout
    exact ⟨hre.ok, hre.sizes.trans h.sizes⟩
  | store p off v =>
    obtain ⟨b, hb, hoff⟩ := hlegal
    cases hexec
    have hsize := h.ok.size_le hb
    exact ⟨(h.ok.write hb off [v] (by simp; omega)).1, h.sizes⟩

lemma stateOk_run {calls : List Call} (hinit : heapSystem.init st0) (hrun : heapSystem.Run st0 calls st) : StateOk st :=
  hrun.keeps (fun _ _ _ h hstep => h.step hstep) (StateOk.init hinit)

/-! ## The contract -/

/-- A block is long enough, aligned, and apart from the other blocks and from the headers. -/
structure Sound (st : HeapState) (p : Nat) (b : Block) : Prop where
  size : b.layout.size ≤ extent bucketSizes b
  aligned : b.layout.align ∣ p
  apart : ∀ q b', st.live q = some b' → q ≠ p → Apart p (extent bucketSizes b) q (extent bucketSizes b')
  header : ∀ a ∈ st.buckets, ∀ c ∈ a.chunks, Apart p (extent bucketSizes b) c headerSize

/-- A call goes to the allocator that produced the block; `realloc` and the other blocks keep the bytes. -/
def Answered (st : HeapState) : Call → Prop
  | .alloc s l => ∃ r bs m, allocate st.buckets st.mem s l = some (r, bs, m) ∧
      (∀ x ∈ r, st.live x.1 = none) ∧ Kept bucketSizes st.live st.mem m
  | .dealloc p => ∀ b, st.live p = some b → ∃ bs m, deallocate st.buckets st.mem p b.layout = some (b.level, bs, m) ∧
      Kept bucketSizes (st.live.remove p) st.mem m
  | .realloc s p newSize => ∀ b, st.live p = some b →
      ∃ r bs m, realloc st.buckets st.mem s p b.layout newSize = some (r, bs, m) ∧
        (∀ x ∈ r.block, r.routed = some b.level ∧
          ∀ i < min b.layout.size newSize, m.bytes (x.1 + i) = st.mem.bytes (p + i)) ∧
        Kept bucketSizes (st.live.remove p) st.mem m ∧ (r.block = none → Kept bucketSizes st.live st.mem m)
  | .store .. => True

/-- The alignment divides the size of the first bucket that can allocate the layout, if any can. -/
def Fits (l : Layout) : Prop := ∀ n, bucketSizes[level bucketSizes l]? = some n → l.align ∣ n

/-- A `realloc` to the size the block has. -/
def SameSize (st : HeapState) : Call → Prop
  | .realloc _ p newSize => ∃ b, st.live p = some b ∧ newSize = b.layout.size
  | _ => False

def HasRoom (st : HeapState) : Call → Prop
  | .alloc s l => Room st.mem s l
  | .realloc s p newSize => ∀ b new, st.live p = some b → b.layout.resize newSize = some new → Room st.mem s new
  | _ => True

lemma StateOk.sound {p : Nat} {b : Block} (h : StateOk st) (hp : st.live p = some b)
    (hfit : Fits b.layout) : Sound st p b := by
  have hsizes := h.sizes
  refine ⟨?_, h.ok.dvd hp ?_, ?_, ?_⟩
  · rw [← hsizes]
    exact h.ok.size_le hp
  · intro a ha
    refine hfit a.n ?_
    rw [← hsizes, h.ok.routed p b hp, sizes_getElem?, ha, map_some]
  · intro q b' hq hne
    rw [← hsizes]
    exact h.ok.apart hp hq hne.symm
  intro a ha c hc
  obtain ⟨k, hk⟩ := mem_iff_getElem?.1 ha
  rw [← hsizes]
  exact h.ok.header_apart hp hk hc

lemma StateOk.answered {call : Call} (h : StateOk st) (hlegal : Legal st call)
    (hroom : HasRoom st call) : Answered st call ↔ ¬SameSize st call := by
  have hsizes := h.sizes
  cases call with
  | alloc s l =>
    obtain ⟨hpos, hfresh⟩ := hlegal
    refine iff_of_true ?_ not_false
    obtain ⟨⟨r, bs, m⟩, hout⟩ := h.ok.allocate_isSome hfresh hroom
    have hallocated := h.ok.allocate hpos hfresh hout
    exact ⟨r, bs, m, hout, hallocated.fresh, hsizes ▸ hallocated.kept⟩
  | dealloc p =>
    refine iff_of_true ?_ not_false
    intro b hb
    obtain ⟨bs, m, hout, hfreed⟩ := h.ok.deallocate hb
    exact ⟨bs, m, hout, hsizes ▸ hfreed.kept⟩
  | store p off v => exact iff_of_true trivial not_false
  | realloc s p newSize =>
    obtain ⟨⟨b, hb⟩, hpos, hfresh⟩ := hlegal
    have hsome := h.ok.realloc_isSome hb hpos hfresh fun new hnew => hroom b new hb hnew
    constructor
    · rintro hans ⟨b', hb', heq⟩
      rw [hb] at hb'
      cases hb'
      obtain ⟨r, bs, m, hout, -⟩ := hans b hb
      exact hsome.1 ⟨_, hout⟩ heq
    intro hdiff b' hb'
    rw [hb] at hb'
    cases hb'
    obtain ⟨⟨r, bs, m⟩, hout⟩ := hsome.2 fun heq => hdiff ⟨b, hb, heq⟩
    have hre := h.ok.realloc hb hpos hfresh hout
    exact ⟨r, bs, m, hout, fun x hx => ⟨hre.routed x hx, hre.bytes x hx⟩, hsizes ▸ hre.kept, hsizes ▸ hre.failed⟩

/-! ## Two blocks of one layout -/

def freshHeap : HeapState :=
  ⟨bucketSizes.map FixedSizeAllocator.new, ⟨fun _ => 0, fun _ => ChunkHeader.new, hugeStart⟩, fun _ => none⟩

def firstFrame : Supply := ⟨some dynamicStart, fun _ => 0, 0⟩
def noFrame : Supply := ⟨none, fun _ => 0, 0⟩

lemma freshHeap_init : heapSystem.init freshHeap := ⟨rfl, rfl, rfl⟩

lemma frame_dynamicStart : Frame dynamicStart := ⟨by decide, by decide, by decide⟩

lemma freshFrame_first : FreshFrame freshHeap.buckets firstFrame := by
  intro c hc
  cases hc
  refine ⟨frame_dynamicStart, fun k a ha => ?_⟩
  obtain ⟨n, -, rfl⟩ := new_getElem? ha
  exact not_mem_nil

variable {l : Layout} {bs : Buckets}

lemma first_block (hn : bucketSizes[level bucketSizes l]? = some n) :
    ∃ a m, allocate freshHeap.buckets freshHeap.mem firstFrame l =
        some (some (entry n dynamicStart 0, level bucketSizes l), freshHeap.buckets.set (level bucketSizes l) a, m) ∧
      a.n = n ∧ a.goodChunk = some dynamicStart ∧ m.headers dynamicStart = ⟨1, none, 1⟩ := by
  have hget : freshHeap.buckets[level bucketSizes l]? = some (FixedSizeAllocator.new n) := by
    simp only [freshHeap, List.getElem?_map, hn, map_some]
  have hframe : ∀ c ∈ firstFrame.frame, Frame c ∧ c ∉ (FixedSizeAllocator.new n).chunks :=
    fun c hc => ⟨(freshFrame_first c hc).1, (freshFrame_first c hc).2 _ _ hget⟩
  have hb := bucketOk_new (mem_of_getElem? hn)
  have hcan : (FixedSizeAllocator.new n).canAllocate l := canAllocate_of_level hget
  obtain ⟨⟨r, a, m⟩, hout⟩ := allocate_isSome (m := freshHeap.mem) hb hcan hframe (by decide)
  have hfirst : allocate freshHeap.buckets freshHeap.mem firstFrame l = _ := allocate_at ..
  have hsizes : sizes freshHeap.buckets = bucketSizes := rfl
  simp only [hsizes, hget, hout, map_some] at hfirst
  cases allocate_served hb hcan hframe hout with
  | known hc => exact absurd hc not_mem_nil
  | failed hf => cases hf
  | fresh hf hvec =>
    cases hf
    exact ⟨_, _, hfirst, rfl, rfl, Memory.setHeader_self ..⟩

lemma second_block {m : Memory} {c : Nat}
    (hget : bs[level (sizes bs) l]? = some a) (hcap : 1 < capacity a.n) (hgood : a.goodChunk = some c)
    (hheader : m.headers c = ⟨1, none, 1⟩) :
    ∃ bs' m', allocate bs m noFrame l = some (some (entry a.n c 1, level (sizes bs) l), bs', m') := by
  have hcan := canAllocate_of_level hget
  rw [canAllocate_iff] at hcan
  have hfit : ¬(a.n < l.size ∨ a.n < l.align) := by omega
  have htry : a.tryChunk m l c = some (entry a.n c 1, ⟨2, none, 2⟩) := by
    simp [FixedSizeAllocator.tryChunk, hheader, ChunkHeader.allocate, hfit, hcap]
  rw [allocate_at, hget]
  simp only [allocate_good hgood htry, map_some]
  exact ⟨_, _, rfl⟩

lemma exec_alloc {s : Supply} {r : Option (Nat × Nat)} {m : Memory}
    (h : allocate st.buckets st.mem s l = some (r, bs, m)) : exec st (.alloc s l) = some ⟨bs, m, st.live.add l r⟩ := by
  simp only [exec, h, map_some]

/-- Two allocations of a layout that a bucket can serve get its first two entries. -/
lemma two_blocks (hpos : 0 < l.size) (hn : bucketSizes[level bucketSizes l]? = some n) :
    ∃ st, heapSystem.Run freshHeap [.alloc firstFrame l, .alloc noFrame l] st ∧
      st.live (entry n dynamicStart 0) = some ⟨l, level bucketSizes l⟩ ∧
      st.live (entry n dynamicStart 1) = some ⟨l, level bucketSizes l⟩ := by
  obtain ⟨hge, hle⟩ := bucketSizes_bounds n (mem_of_getElem? hn)
  have hnpos : 0 < n := by omega
  have hcap := capacity_pos hle hnpos
  obtain ⟨a, m, hfirst, rfl, hgood, hheader⟩ := first_block hn
  have hget : freshHeap.buckets[level bucketSizes l]? = some (FixedSizeAllocator.new a.n) := by
    simp only [freshHeap, List.getElem?_map, hn, map_some]
  have hsizes : sizes (freshHeap.buckets.set (level bucketSizes l) a) = bucketSizes := sizes_set hget rfl
  have hget' : (freshHeap.buckets.set (level bucketSizes l) a)[level bucketSizes l]? = some a := getElem?_set_get hget
  nth_rewrite 2 [← hsizes] at hget'
  obtain ⟨bs, m', hsecond⟩ := second_block hget' hcap hgood hheader
  rw [hsizes] at hsecond
  refine ⟨_, .cons ⟨⟨hpos, freshFrame_first⟩, exec_alloc hfirst⟩
    (.cons ⟨⟨hpos, ?_⟩, exec_alloc hsecond⟩ (.nil _)), ?_, ?_⟩
  · nofun
  · have hne : entry a.n dynamicStart 0 ≠ entry a.n dynamicStart 1 := by
      intro heq
      exact absurd (entry_inj hnpos heq) (by decide)
    exact (update_of_ne hne ..).trans (update_self ..)
  · exact update_self ..

/-! ## The result -/

/-- Over every sequence of calls the blocks of a layout are sound exactly if its alignment divides the size of
its bucket, and every call but a `realloc` to the same size is answered. -/
theorem kernel_heap_iff (l : Layout) (hpos : 0 < l.size) :
    ((∀ st₀ calls st, heapSystem.init st₀ → heapSystem.Run st₀ calls st →
      ∀ p b, st.live p = some b → b.layout = l → Sound st p b) ↔ Fits l) ∧
    (∀ st₀ calls st call, heapSystem.init st₀ → heapSystem.Run st₀ calls st → Legal st call → HasRoom st call →
      (Answered st call ↔ ¬SameSize st call)) := by
  refine ⟨⟨?_, ?_⟩, ?_⟩
  · intro hsound n hn
    obtain ⟨st, hrun, h0, h1⟩ := two_blocks hpos hn
    have hdvd0 := (hsound freshHeap _ st freshHeap_init hrun _ _ h0 rfl).aligned
    have hdvd1 := (hsound freshHeap _ st freshHeap_init hrun _ _ h1 rfl).aligned
    have hstep : entry n dynamicStart 1 = entry n dynamicStart 0 + n := by simp [entry, cell]
    rw [hstep] at hdvd1
    exact (Nat.dvd_add_right hdvd0).1 hdvd1
  · intro hfit st₀ calls st hinit hrun p b hp hl
    exact (stateOk_run hinit hrun).sound hp (hl ▸ hfit)
  · intro st₀ calls st call hinit hrun hlegal hroom
    exact (stateOk_run hinit hrun).answered hlegal hroom

lemma eight_pow : ∃ k, 8 = 2 ^ k := ⟨3, rfl⟩

def threeWords : Layout := ⟨24, 8, eight_pow, by decide⟩

lemma fits_threeWords : Fits threeWords := by
  intro n hn
  have h24 : bucketSizes[level bucketSizes threeWords]? = some 24 := by decide
  rw [h24] at hn
  cases hn
  exact ⟨3, rfl⟩

/-- Two blocks of three words are sound, and the first one can be given back. -/
theorem kernel_heap_threeWords :
    ∃ st, heapSystem.Run freshHeap [.alloc firstFrame threeWords, .alloc noFrame threeWords] st ∧
      (∀ p b, st.live p = some b → b.layout = threeWords → Sound st p b) ∧
      Answered st (.dealloc (dynamicStart + 72)) := by
  obtain ⟨st, hrun, h0, -⟩ := two_blocks (l := threeWords) (n := 24) (by decide) (by decide)
  obtain ⟨hsound, hanswered⟩ := kernel_heap_iff threeWords (by decide)
  refine ⟨st, hrun, hsound.2 fits_threeWords freshHeap _ st freshHeap_init hrun, ?_⟩
  exact (hanswered freshHeap _ st (.dealloc (dynamicStart + 72)) freshHeap_init hrun ⟨_, h0⟩ trivial).2 not_false

def odd24 : Layout := ⟨24, 16, ⟨4, rfl⟩, by decide⟩

/-- They start 72 bytes into a chunk, and a `realloc` to 24 bytes panics. -/
theorem kernel_heap_misaligned : ∃ st, heapSystem.Run freshHeap [.alloc firstFrame odd24] st ∧
      st.live (dynamicStart + 72) = some ⟨odd24, 2⟩ ∧ ¬16 ∣ dynamicStart + 72 ∧
      Legal st (.realloc noFrame (dynamicStart + 72) 24) ∧
        exec st (.realloc noFrame (dynamicStart + 72) 24) = none := by
  obtain ⟨a, m, hfirst, -⟩ := first_block (l := odd24) (n := 24) (by decide)
  have hentry : entry 24 dynamicStart 0 = dynamicStart + 72 := by decide
  have hlevel : level bucketSizes odd24 = 2 := by decide
  rw [hentry, hlevel] at hfirst
  have hlive : freshHeap.live.add odd24 (some (dynamicStart + 72, 2)) (dynamicStart + 72) = some ⟨odd24, 2⟩ := by
    simp only [Live.add, update_self]
  refine ⟨_, .cons ⟨⟨by decide, freshFrame_first⟩, exec_alloc hfirst⟩ (.nil _), hlive, by decide,
    ⟨⟨_, hlive⟩, by decide, ?_⟩, ?_⟩
  · simp [noFrame, FreshFrame]
  simp only [exec, hlive, bind_eq_bind, bind_some]
  rfl

end Mushroom.L2.KernelHeap
