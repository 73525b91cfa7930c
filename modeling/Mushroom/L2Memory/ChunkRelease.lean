import Mushroom.Core.LTS
import Mushroom.L2Memory.HeapInv

/-!
# The release of chunks

`deallocate` puts an entry back with the lock of its chunk. If the chunk is
unused then, it gives the chunk away in a second section, with the lock of the
allocator. In the gap other CPUs may allocate from the chunk, free the entry and
give the chunk away.
-/
namespace Mushroom.L2.KernelHeap.ChunkRelease
open Option ChunkHeader

/-- `gap i` is the chunk that CPU `i` has left unused and is about to release. -/
structure State (ι : Type) where
  alloc : FixedSizeAllocator
  mem : Memory
  live : Live
  gap : ι → Option Nat

inductive Act where
  | allocate (s : Supply) (l : Layout)
  | deallocate (p : Nat)
  | release

/-- `align_down(ptr, Size2MiB::SIZE)`. -/
def chunkOf (p : Nat) : Nat := p / chunkSize * chunkSize

instance (c : Nat) : Decidable (Frame c) :=
  decidable_of_iff (c % chunkSize = 0 ∧ dynamicStart ≤ c ∧ c + chunkSize ≤ hugeStart)
    ⟨fun h => ⟨h.1, h.2.1, h.2.2⟩, fun h => ⟨h.aligned, h.start_le, h.end_le⟩⟩

variable {ι : Type} [DecidableEq ι]

/-- A locked section. The frames are new, and a CPU frees blocks in use.
kernel/memory/heap/fixed_size_allocator.rs:71-162 -/
def next (s : State ι) : ι × Act → Option (State ι)
  | (i, .allocate sup l) =>
    if s.gap i = none ∧ 0 < l.size ∧ s.alloc.canAllocate l ∧ ∀ c ∈ sup.frame, Frame c ∧ c ∉ s.alloc.chunks then
      (s.alloc.allocate s.mem sup l).map fun (r, a, m) =>
        { s with alloc := a, mem := m, live := s.live.add l (r.map (·, 0)) }
    else none
  | (i, .deallocate p) =>
    if s.gap i = none ∧ (s.live p).isSome then
      (ChunkHeader.deallocate (s.mem.headers (chunkOf p)) s.mem.bytes p).map fun (unused, h, bytes) =>
        { s with mem := { s.mem with bytes := bytes }.setHeader (chunkOf p) h, live := s.live.remove p,
                 gap := Function.update s.gap i (if unused then some (chunkOf p) else none) }
    else none
  | (i, .release) => (s.gap i).bind fun c =>
    (s.alloc.tryRelease s.mem c).map fun a => { s with alloc := a, gap := Function.update s.gap i none }

def start (n : Nat) : State ι :=
  ⟨.new n, ⟨fun _ => 0, fun _ => ChunkHeader.new, hugeStart⟩, fun _ => none, fun _ => none⟩

def system (ι : Type) [DecidableEq ι] (n : Nat) : LTS (State ι) (ι × Act) := .ofFn (· = start n) next

/-- No CPU frees the last block of a chunk that another one is about to release. -/
def Lone (s : State ι) : ι × Act → Prop
  | (i, .deallocate p) => (s.mem.headers (chunkOf p)).used = 1 → ∀ j ≠ i, s.gap j ≠ some (chunkOf p)
  | _ => True

structure Inv (s : State ι) : Prop where
  heap : HeapOk [s.alloc] s.mem s.live
  fixed : ∀ p b, s.live p = some b → b.level = 0
  gap : ∀ i c, s.gap i = some c → c ∈ s.alloc.chunks
  lone : ∀ i j c, s.gap i = some c → s.gap j = some c → i = j

variable {s s' : State ι} {i : ι}

omit [DecidableEq ι] in
lemma Inv.entry (h : Inv s) {p : Nat} {b : Block} (hp : s.live p = some b) : [s.alloc][b.level]? = some s.alloc ∧
    chunkOf p ∈ s.alloc.chunks ∧ ∃ i < capacity s.alloc.n, p = ChunkHeader.entry s.alloc.n (chunkOf p) i := by
  have hlevel := h.fixed p b hp
  cases h.heap.placed p b hp with
  | huge hnone => simp [hlevel] at hnone
  | @entry a c i hget hmem hi hpe =>
    have ha : a = s.alloc := by simpa [hlevel, eq_comm] using hget
    subst ha
    have hb := h.heap.bucket _ _ hget
    have hdown : chunkOf p = c := hpe ▸ alignDown_entry hb.pos hi (hb.frame c hmem).aligned
    exact ⟨hget, hdown ▸ hmem, i, hi, hdown ▸ hpe⟩

lemma Inv.allocate {sup : Supply} {l : Layout} (h : Inv s) (hn : next s (i, .allocate sup l) = some s') : Inv s' := by
  obtain ⟨⟨-, hl, hcan, hframe⟩, hn⟩ := ite_none_right_eq_some.1 hn
  obtain ⟨⟨r, a, m⟩, hout, rfl⟩ := map_eq_some_iff.1 hn
  have hget : [s.alloc][KernelHeap.level (sizes [s.alloc]) l]? = some s.alloc := by rw [level_pos hcan]; rfl
  have hfresh : FreshFrame [s.alloc] sup := by
    refine fun c hc => ⟨(hframe c hc).1, fun k x hx => ?_⟩
    obtain ⟨-, rfl⟩ := by simpa [List.getElem?_singleton] using hx
    exact (hframe c hc).2
  have hserved := allocate_served (h.heap.bucket _ _ hget) hcan hframe hout
  have hok := (h.heap.served hl hget hfresh hserved).ok
  rw [level_pos hcan] at hok
  have hsub : ∀ c ∈ s.alloc.chunks, c ∈ a.chunks := by
    cases hserved with
    | known => exact fun c hc => hc
    | fresh => exact fun c hc => mem_insertIdx_countP.2 (.inr hc)
    | failed => exact fun c hc => hc
  refine ⟨hok, ?_, fun i c hc => hsub c (h.gap i c hc), h.lone⟩
  cases r with
  | none => exact h.fixed
  | some p => exact Live.add_forall rfl h.fixed

lemma Inv.deallocate {p : Nat} (h : Inv s) (hlone : Lone s (i, .deallocate p))
    (hn : next s (i, .deallocate p) = some s') : Inv s' := by
  obtain ⟨⟨-, hp⟩, hn⟩ := ite_none_right_eq_some.1 hn
  obtain ⟨b, hp⟩ := isSome_iff_exists.1 hp
  obtain ⟨hget, hmem, j, hj, hpe⟩ := h.entry hp
  obtain ⟨unused, hdr, hdealloc, hfreed, hunused⟩ := h.heap.putBack hget hmem hj hpe hp
  rw [hdealloc] at hn
  cases hn
  refine ⟨hfreed.ok, fun q b hq => h.fixed q b (Live.remove_some hq).2, ?_, ?_⟩
  · have hgap := h.gap
    simp only [Function.update_apply]
    grind
  -- a chunk that becomes unused now has had one entry in use, and nobody else is about to release it
  have hnew : unused → ∀ k ≠ i, s.gap k ≠ some (chunkOf p) := by
    intro hu
    refine hlone ?_
    obtain ⟨hused, ⟨⟩⟩ := ite_none_left_eq_some.1 hdealloc
    have := hunused.1 hu
    simp only at this
    omega
  have hgap := h.lone
  simp only [Function.update_apply]
  grind

/-- The second section finds its chunk, and takes it out of the list only if no entry of it is in use. -/
lemma Inv.release (h : Inv s) {c : Nat} (hc : s.gap i = some c) : ∃ s', next s (i, .release) = some s' ∧ Inv s' ∧
    (∀ d ≠ c, d ∈ s'.alloc.chunks ↔ d ∈ s.alloc.chunks) ∧
    (c ∉ s'.alloc.chunks → ∀ p, (s.live p).isSome → chunkOf p ≠ c) := by
  obtain ⟨a, ha, hn, hok, hother, hempty⟩ := h.heap.tryRelease (k := 0) rfl (h.gap i c hc)
  refine ⟨{ s with alloc := a, gap := Function.update s.gap i none }, by simp [next, hc, ha],
    ⟨hok, h.fixed, ?_, ?_⟩, hother, ?_⟩
  · have hgap := h.gap
    have hlone := h.lone
    simp only [Function.update_apply]
    grind
  · have hlone := h.lone
    simp only [Function.update_apply]
    grind
  · rintro hno p hp rfl
    obtain ⟨b, hb⟩ := isSome_iff_exists.1 hp
    obtain ⟨-, -, j, hj, hpe⟩ := h.entry hb
    exact hempty hno j hj (hpe ▸ hp)

lemma inductive_inv {n : Nat} (hge : 8 ≤ n) (hle : n ≤ 4096) : ((system ι n).only Lone).Inductive Inv where
  init := by
    rintro _ rfl
    have hnew : ∀ (k : Nat) a, [FixedSizeAllocator.new n][k]? = some a → a = .new n := by
      intro k a ha
      exact List.mem_singleton.1 (List.mem_of_getElem? ha)
    refine ⟨⟨?_, ?_, ?_, (by decide : 4096 ∣ hugeStart), Nat.le_refl _, nofun, nofun, nofun, nofun⟩,
      nofun, nofun, nofun⟩
    · intro k a ha
      rw [hnew k a ha]
      exact ⟨hge, hle, .nil, nofun, nofun⟩
    · intro j k a b c ha _ hc
      simp [hnew j a ha, FixedSizeAllocator.new] at hc
    · intro k a ha c hc
      simp [hnew k a ha, FixedSizeAllocator.new] at hc
  step := by
    rintro s ⟨i, act⟩ s' h ⟨hlone, hstep⟩
    cases act with
    | allocate sup l => exact h.allocate hstep
    | deallocate p => exact h.deallocate hlone hstep
    | release =>
      obtain ⟨c, hc, -⟩ := bind_eq_some_iff.1 hstep
      obtain ⟨s1, hs1, hinv, -⟩ := h.release hc
      cases hs1.symm.trans hstep
      exact hinv

/-- For any number of CPUs, in every interleaving in which no CPU frees the last block of a chunk that another one
is about to release: the list is sorted, the hint is in it, and the second section of a `deallocate` finds its chunk
there, and takes it out only if no entry of it is in use. -/
theorem chunk_released_once {ι : Type} [DecidableEq ι] {n : Nat} (hge : 8 ≤ n) (hle : n ≤ 4096) {s : State ι}
    (h : ((system ι n).only Lone).Reachable s) : s.alloc.chunks.Pairwise (· < ·) ∧
    (∀ c ∈ s.alloc.goodChunk, c ∈ s.alloc.chunks) ∧ ∀ i c, s.gap i = some c → c ∈ s.alloc.chunks ∧
      ∃ s', next s (i, .release) = some s' ∧ (∀ d ≠ c, d ∈ s'.alloc.chunks ↔ d ∈ s.alloc.chunks) ∧
        (c ∉ s'.alloc.chunks → ∀ p, (s.live p).isSome → chunkOf p ≠ c) := by
  have hinv := (inductive_inv hge hle).reachable s h
  have hb := hinv.heap.bucket 0 _ rfl
  refine ⟨hb.sorted, hb.good, fun i c hc => ⟨hinv.gap i c hc, ?_⟩⟩
  obtain ⟨s', hs', -, hother, hempty⟩ := hinv.release hc
  exact ⟨s', hs', hother, hempty⟩

def word : Layout := ⟨8, 8, ⟨3, rfl⟩, by decide⟩

/-- Allocates the first entry of the first chunk and frees it. -/
def allocFree {κ : Type} (i : κ) (frame : Option Nat) : List (κ × Act) :=
  [(i, .allocate ⟨frame, fun _ => 0, 1⟩ word), (i, .deallocate (dynamicStart + 64))]

/-- No CPU is about to release the chunk of the block. -/
def lone (s : State Bool) : Bool × Act → Bool
  | (_, .deallocate p) => decide (∀ j, s.gap j ≠ some (chunkOf p))
  | _ => true

lemma lone_spec (s : State Bool) (l : Bool × Act) (h : lone s l = true) : Lone s l := by
  obtain ⟨i, act⟩ := l
  cases act with
  | deallocate p => exact fun _ j _ => of_decide_eq_true h j
  | allocate | release => trivial

/-- In the gap of one CPU another one allocates from the chunk: it stays. -/
theorem chunk_released_once_reused : ∃ s : State Bool, s.gap false = some dynamicStart ∧
    (s.live (dynamicStart + 64)).isSome ∧ ∃ s', next s (false, .release) = some s' ∧
      dynamicStart ∈ s'.alloc.chunks := by
  have hrun : (LTS.runFn (fun s l => if lone s l then next s l else none) (start 8)
      (allocFree false (some dynamicStart) ++ [(true, .allocate ⟨none, fun _ => 0, 1⟩ word)])).any
      (fun s => s.gap false = some dynamicStart && (s.live (dynamicStart + 64)).isSome) = true := by decide +kernel
  obtain ⟨s, hs, hp⟩ := (any_eq_true _ _).1 hrun
  simp only [Bool.and_eq_true, decide_eq_true_eq] at hp
  have hreach : ((system Bool 8).only Lone).Reachable s := ⟨start 8, _, rfl, LTS.runFn_only lone lone_spec hs⟩
  obtain ⟨-, s', hs', -, hempty⟩ := (chunk_released_once (by decide) (by decide) hreach).2.2 false _ hp.1
  exact ⟨s, hp.1, hp.2, s', hs', by_contra fun hgone => hempty hgone _ hp.2 (by decide)⟩

/-- In the gap of one CPU another one allocates from the chunk, frees it and releases it: the first does not find
the chunk. -/
theorem chunk_gone : ∃ s : State Bool, (system Bool 8).Reachable s ∧ s.gap false = some dynamicStart ∧
    next s (false, .release) = none := by
  have hrun : (LTS.runFn next (start 8)
      (allocFree false (some dynamicStart) ++ allocFree true none ++ [(true, .release)])).any
      (fun s => s.gap false = some dynamicStart && (next s (false, .release)).isNone) = true := by decide +kernel
  obtain ⟨s, hs, h⟩ := (any_eq_true _ _).1 hrun
  simp only [Bool.and_eq_true, decide_eq_true_eq, isNone_iff_eq_none] at h
  exact ⟨s, ⟨start 8, _, rfl, LTS.runFn_run hs⟩, h⟩

end Mushroom.L2.KernelHeap.ChunkRelease
