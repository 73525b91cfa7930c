import Mushroom.L2Memory.Mapping

/-!
# Copy-on-write pages

`KernelPage` of `kernel/memory/page/kernel.rs`: a pointer to a frame and, once
the page has been cloned, to the cell that counts the pointers. The common zero
page never gets one.

The heap holds the bytes of the frames, which are allocated, and the counters.
An `Allocator` is a stream of answers: the n-th request gets the n-th one, and
fails when it is `none` or names something that is still allocated.

`Own h H` says that `H` are all the pointers there are: a page without a counter
is the only pointer to its frame, a counter is the number of pointers. Each
operation keeps it: `Own.clone`, `Own.makeMut`, `Own.drop`, `Own.zeroRange`.
-/
namespace Mushroom.L2
open List KernelPage

structure Heap where
  bytes : Nat → Nat → UInt8
  live : Nat → Bool
  counts : Nat → Option Nat
  clock : Nat

abbrev Allocator := Nat → Option Nat

namespace Heap

def zeroFrame : Nat := 0

def setBytes (h : Heap) (f : Nat) (v : Nat → UInt8) : Heap :=
  { h with bytes := fun g => if g = f then v else h.bytes g }

def setLive (h : Heap) (f : Nat) (b : Bool) : Heap := { h with live := fun g => if g = f then b else h.live g }

def setCount (h : Heap) (r : Nat) (c : Option Nat) : Heap :=
  { h with counts := fun q => if q = r then c else h.counts q }

/-- A new frame, with what the old memory there held. -/
def allocFrame (A : Allocator) (h : Heap) : Option Nat × Heap :=
  ((A h.clock).filter fun f => !h.live f, { h with clock := h.clock + 1 })

def allocCell (A : Allocator) (h : Heap) : Option Nat × Heap :=
  ((A h.clock).filter fun r => (h.counts r).isNone, { h with clock := h.clock + 1 })

end Heap

namespace KernelPage

/-- kernel.rs:34-40 -/
def zeroed : KernelPage := ⟨Heap.zeroFrame, none⟩

/-- kernel.rs:42-56 -/
def isZeroPage (k : KernelPage) : Bool := k.referenceCount.isNone && k.content == Heap.zeroFrame

/-- The clone points to the same frame and cell as `self` does afterwards, so one page stands for both.
kernel.rs:58-86 -/
def clone (A : Allocator) (h : Heap) (k : KernelPage) : Except Errno KernelPage × Heap :=
  if k.isZeroPage then (.ok k, h)
  else
    match k.referenceCount with
    | some r => (.ok k, h.setCount r ((h.counts r).map (· + 1)))
    | none =>
      match h.allocCell A with
      | (none, h) => (.error .noMem, h)
      | (some r, h) => (.ok ⟨k.content, some r⟩, h.setCount r (some 2))

/-- kernel.rs:88-96 -/
def mutable (k : KernelPage) (shared : Bool) : Bool := !k.isZeroPage && (k.referenceCount.isNone || shared)

/-- kernel.rs:214-243 -/
def drop (h : Heap) (k : KernelPage) : Heap :=
  if k.isZeroPage then h
  else
    match k.referenceCount with
    | none => h.setLive k.content false
    | some r =>
      if h.counts r = some 1 then (h.setCount r none).setLive k.content false
      else h.setCount r ((h.counts r).map (· - 1))

/-- The slow path of `make_mut`: a new frame with the same bytes replaces `self`.
kernel.rs:132-145 -/
def copy (A : Allocator) (h : Heap) (k : KernelPage) : Except Errno KernelPage × Heap :=
  match h.allocFrame A with
  | (none, h) => (.error .noMem, h)
  | (some f, h) => (.ok ⟨f, none⟩, drop ((h.setLive f true).setBytes f (h.bytes k.content)) k)

/-- kernel.rs:98-146 -/
def makeMut (A : Allocator) (h : Heap) (k : KernelPage) (shared : Bool) : Except Errno KernelPage × Heap :=
  if k.isZeroPage then copy A h k
  else if shared then (.ok k, h)
  else
    match k.referenceCount with
    | none => (.ok k, h)
    | some r =>
      if h.counts r = some 1 then (.ok ⟨k.content, none⟩, h.setCount r none)
      else copy A h k

/-- The bytes of a page, zero in `start..end`. -/
def zeroedBytes (v : Nat → UInt8) (start stop : Nat) : Nat → UInt8 :=
  fun i => if start ≤ i ∧ i < stop then 0 else v i

/-- kernel.rs:176-205 -/
def zeroRange (A : Allocator) (h : Heap) (k : KernelPage) (start stop : Nat) (shared : Bool) :
    Except Errno KernelPage × Heap :=
  if stop - start = 0 then (.ok k, h)
  else if k.isZeroPage then (.ok k, h)
  else
    match makeMut A h k shared with
    | (.error e, h) => (.error e, h)
    | (.ok k, h) => (.ok k, h.setBytes k.content (zeroedBytes (h.bytes k.content) start stop))

variable {k k' : KernelPage}

lemma isZeroPage_iff : k.isZeroPage ↔ k = zeroed := by
  cases k with
  | mk c r => cases r <;> simp [isZeroPage, zeroed]

/-! ### What a call that returns did -/

section

variable {A : Allocator} {h h' : Heap} {k k' : KernelPage} {e : Errno} {shared : Bool} {start : Nat}

lemma copy_eq_ok (hc : k.copy A h = (.ok k', h')) : ∃ f, h.live f = false ∧ k' = ⟨f, none⟩ ∧
      h' = drop ((({ h with clock := h.clock + 1 } : Heap).setLive f true).setBytes f
        (h.bytes k.content)) k := by
  simp only [copy, Heap.allocFrame] at hc
  split at hc
  · cases hc
  rename_i f h1 halloc
  simp only [Prod.mk.injEq, Option.filter_eq_some_iff, Bool.not_eq_true'] at halloc
  obtain ⟨⟨-, hfresh⟩, rfl⟩ := halloc
  cases hc
  exact ⟨f, hfresh, rfl, rfl⟩

lemma copy_eq_error (hc : k.copy A h = (.error e, h')) : h' = { h with clock := h.clock + 1 } := by
  simp only [copy, Heap.allocFrame] at hc
  split at hc
  · rename_i halloc
    simp only [Prod.mk.injEq] at halloc hc
    exact hc.2.symm.trans halloc.2.symm
  · cases hc

/-- `make_mut` left the page alone, gave its cell up, or copied it. -/
lemma makeMut_eq_ok (hm : k.makeMut A h shared = (.ok k', h')) :
    (k.isZeroPage = false ∧ (shared = true ∨ k.referenceCount = none) ∧ k' = k ∧ h' = h) ∨
      (k.isZeroPage = false ∧ ∃ r, k.referenceCount = some r ∧ h.counts r = some 1 ∧
        k' = ⟨k.content, none⟩ ∧ h' = h.setCount r none) ∨ k.copy A h = (.ok k', h') := by
  unfold makeMut at hm
  split at hm
  · exact .inr (.inr hm)
  rename_i hz
  have hz : k.isZeroPage = false := by simpa using hz
  split at hm
  · rename_i hs; cases hm; exact .inl ⟨hz, .inl hs, rfl, rfl⟩
  split at hm
  · rename_i hn; cases hm; exact .inl ⟨hz, .inr hn, rfl, rfl⟩
  rename_i r hr
  split at hm
  · rename_i h1; cases hm; exact .inr (.inl ⟨hz, r, hr, h1, rfl, rfl⟩)
  · exact .inr (.inr hm)

lemma makeMut_eq_error (hm : k.makeMut A h shared = (.error e, h')) : h' = { h with clock := h.clock + 1 } := by
  unfold makeMut at hm
  split at hm
  · exact copy_eq_error hm
  split at hm
  · cases hm
  split at hm
  · cases hm
  split at hm
  · cases hm
  · exact copy_eq_error hm

lemma clone_eq_ok (hc : k.clone A h = (.ok k', h')) :
    k'.content = k.content ∧ h'.bytes = h.bytes ∧ h'.live = h.live := by
  unfold clone at hc
  split at hc
  · cases hc; exact ⟨rfl, rfl, rfl⟩
  split at hc
  · cases hc; exact ⟨rfl, rfl, rfl⟩
  simp only [Heap.allocCell] at hc
  split at hc
  · cases hc
  rename_i halloc
  simp only [Prod.mk.injEq] at halloc
  obtain ⟨-, rfl⟩ := halloc
  cases hc; exact ⟨rfl, rfl, rfl⟩

lemma clone_eq_error (hc : k.clone A h = (.error e, h')) : h' = { h with clock := h.clock + 1 } := by
  unfold clone at hc
  split at hc
  · cases hc
  split at hc
  · cases hc
  simp only [Heap.allocCell] at hc
  split at hc
  · rename_i halloc
    simp only [Prod.mk.injEq] at halloc hc
    exact hc.2.symm.trans halloc.2.symm
  · cases hc

@[simp] lemma drop_bytes : (k.drop h).bytes = h.bytes := by
  unfold drop
  split
  · rfl
  split
  · rfl
  split <;> rfl

lemma drop_live {g : Nat} (hg : g ≠ k.content) : (k.drop h).live g = h.live g := by
  unfold drop
  split
  · rfl
  split
  · simp [Heap.setLive, hg]
  split
  · simp [Heap.setLive, Heap.setCount, hg]
  · rfl

/-- `zero_range` had nothing to do, or wrote to the page made mutable. -/
lemma zeroRange_eq_ok {stop : Nat} (hz : k.zeroRange A h start stop shared = (.ok k', h')) :
    ((stop ≤ start ∨ k.isZeroPage) ∧ k' = k ∧ h' = h) ∨
      (k.isZeroPage = false ∧ ∃ h1, k.makeMut A h shared = (.ok k', h1) ∧
        h' = h1.setBytes k'.content (zeroedBytes (h1.bytes k'.content) start stop)) := by
  unfold zeroRange at hz
  split at hz
  · cases hz; exact .inl ⟨.inl (by omega), rfl, rfl⟩
  split at hz
  · rename_i h0; cases hz; exact .inl ⟨.inr h0, rfl, rfl⟩
  rename_i h0
  split at hz
  · cases hz
  · rename_i k1 h1 hm; cases hz; exact .inr ⟨by simpa using h0, h1, hm, rfl⟩

lemma zeroRange_eq_error {stop : Nat}
    (hz : k.zeroRange A h start stop shared = (.error e, h')) : h' = { h with clock := h.clock + 1 } := by
  unfold zeroRange at hz
  split at hz
  · cases hz
  split at hz
  · cases hz
  split at hz
  · rename_i hm; cases hz; exact makeMut_eq_error hm
  · cases hz

end

/-- `make_mut` keeps the bytes of the page and of every frame allocated before. -/
structure Moved (h h' : Heap) (k k' : KernelPage) : Prop where
  bytes : h'.bytes k'.content = h.bytes k.content
  others : ∀ g, h.live g = true → h'.bytes g = h.bytes g
  stays : ∀ g, h.live g = true → g ≠ k.content → h'.live g = true
  frame : k'.content = k.content ∨ h.live k'.content = false

lemma makeMut_moved {A : Allocator} {h h' : Heap} {shared : Bool}
    (hm : k.makeMut A h shared = (.ok k', h')) : Moved h h' k k' := by
  rcases makeMut_eq_ok hm with ⟨-, -, rfl, rfl⟩ | ⟨-, r, -, -, rfl, rfl⟩ | hc
  iterate 2 exact ⟨rfl, fun _ _ => rfl, fun _ hg _ => hg, .inl rfl⟩
  · obtain ⟨f, hf, rfl, rfl⟩ := copy_eq_ok hc
    have hne : ∀ g, h.live g → g ≠ f := fun g hg he => by rw [← he, hg] at hf; cases hf
    refine ⟨?_, fun g hg => ?_, fun g hg hgk => ?_, .inr hf⟩
    · simp [Heap.setBytes]
    · simp [Heap.setBytes, Heap.setLive, hne g hg]
    · rw [drop_live hgk]; simp [Heap.setBytes, Heap.setLive, hne g hg, hg]

end KernelPage

/-! ## Who points to what -/

def holders (H : List KernelPage) (f : Nat) : Nat := H.countP fun k => k.content = f

lemma holders_cons (k : KernelPage) (H : List KernelPage) (f : Nat) :
    holders (k :: H) f = holders H f + if k.content = f then 1 else 0 := by
  simp [holders, countP_cons]

variable {H H' : List KernelPage} {k : KernelPage}

lemma holders_perm (h : H.Perm H') (f : Nat) : holders H f = holders H' f := h.countP_eq _

lemma holders_pos (hk : k ∈ H) : 0 < holders H k.content := countP_pos_iff.2 ⟨k, hk, by simp⟩

lemma holders_eq_zero {H : List KernelPage} {f : Nat} : holders H f = 0 ↔ ∀ k ∈ H, k.content ≠ f := by
  simp [holders, countP_eq_zero]

/-- `H` are all pointers to frames of `h`; `cell f` is the cell that counts those to `f`, if any. -/
structure OwnBy (cell : Nat → Option Nat) (h : Heap) (H : List KernelPage) : Prop where
  live : ∀ k ∈ H, h.live k.content = true
  zeroLive : h.live Heap.zeroFrame = true
  zero : ∀ i, h.bytes Heap.zeroFrame i = 0
  ptr : ∀ k ∈ H, k.referenceCount = cell k.content
  zeroCell : cell Heap.zeroFrame = none
  inj : ∀ f g r, cell f = some r → cell g = some r → f = g
  count : ∀ f r, cell f = some r → h.counts r = some (holders H f)
  unique : ∀ f, cell f = none → f ≠ Heap.zeroFrame → holders H f ≤ 1

def Own (h : Heap) (H : List KernelPage) : Prop := ∃ cell, OwnBy cell h H

variable {h : Heap} {f : Nat}

lemma Own.live (o : Own h H) (hk : k ∈ H) : h.live k.content := by
  obtain ⟨cell, o⟩ := o
  exact o.live k hk

lemma Own.zero (o : Own h H) : h.bytes Heap.zeroFrame = fun _ => 0 := by
  obtain ⟨cell, o⟩ := o
  exact funext o.zero

lemma Own.perm (hp : H.Perm H') (o : Own h H) : Own h H' := by
  obtain ⟨cell, o⟩ := o
  refine ⟨cell, fun k hk => o.live k (hp.mem_iff.2 hk), o.zeroLive, o.zero,
    fun k hk => o.ptr k (hp.mem_iff.2 hk), o.zeroCell, o.inj, fun f r hr => ?_, fun f hf h0 => ?_⟩
  · rw [← holders_perm hp]; exact o.count f r hr
  · rw [← holders_perm hp]; exact o.unique f hf h0

/-- The heap `h'` differs from `h` at most in the allocator's clock. -/
def SameHeap (h h' : Heap) : Prop := h'.bytes = h.bytes ∧ h'.live = h.live ∧ h'.counts = h.counts

lemma sameHeap_tick (h : Heap) : SameHeap h { h with clock := h.clock + 1 } := ⟨rfl, rfl, rfl⟩

lemma Own.same {h' : Heap} (hs : SameHeap h h') (o : Own h H) : Own h' H := by
  obtain ⟨cell, o⟩ := o
  obtain ⟨hb, hl, hc⟩ := hs
  refine ⟨cell, ?_, ?_, ?_, o.ptr, o.zeroCell, o.inj, ?_, o.unique⟩
  · rw [hl]; exact o.live
  · rw [hl]; exact o.zeroLive
  · rw [hb]; exact o.zero
  · rw [hc]; exact o.count

section

variable {cell : Nat → Option Nat} {h h' : Heap} {k k' : KernelPage} {R H H' : List KernelPage} {A : Allocator}
  {shared : Bool}

lemma OwnBy.ptr_head (o : OwnBy cell h (k :: R)) : k.referenceCount = cell k.content := o.ptr k (mem_cons_self ..)

lemma OwnBy.isZeroPage (o : OwnBy cell h (k :: R)) : k.isZeroPage ↔ k.content = Heap.zeroFrame := by
  rw [isZeroPage_iff]
  constructor
  · rintro rfl; rfl
  intro hk
  have hr := o.ptr_head
  rw [hk, o.zeroCell] at hr
  cases k with
  | mk c r => simp only at hk hr; rw [hk, hr]; rfl

lemma holders_cons_self : holders (k :: R) k.content = holders R k.content + 1 := by simp [holders_cons]

lemma OwnBy.zeroFrame (o : OwnBy cell h H) (hH : ∀ g, g ≠ Heap.zeroFrame → holders H' g = holders H g)
    (hmem : ∀ k ∈ H', k ∈ H ∨ k = zeroed) : Own h H' := by
  obtain ⟨hl, hzl, hz, hptr, hzc, hinj, hcount, huniq⟩ := o
  refine ⟨cell, ?_, hzl, hz, ?_, hzc, hinj, ?_, ?_⟩ <;> grind [zeroed]

/-- Only the pointers to one frame `f` change, and the cell that counts them. -/
lemma OwnBy.change (o : OwnBy cell h H) (f : Nat) (c : Option Nat) (hf : f ≠ Heap.zeroFrame)
    (hbytes : h'.bytes Heap.zeroFrame = h.bytes Heap.zeroFrame) (hlive : ∀ g, g ≠ f → h'.live g = h.live g)
    (hH : ∀ g, g ≠ f → holders H' g = holders H g)
    (hmem : ∀ k ∈ H', k.content = f ∧ h'.live f ∧ k.referenceCount = c ∨ k.content ≠ f ∧ k ∈ H)
    (hcounts : ∀ g r, g ≠ f → cell g = some r → c ≠ some r ∧ h'.counts r = h.counts r)
    (hc : ∀ r, c = some r → h'.counts r = some (holders H' f)) (hnone : c = none → holders H' f ≤ 1) : Own h' H' := by
  obtain ⟨hl, hzl, hz, hptr, hzc, hinj, hcount, huniq⟩ := o
  refine ⟨fun g => if g = f then c else cell g, ?_, ?_, fun i => hbytes ▸ hz i, ?_, ?_, ?_, ?_, ?_⟩ <;> grind

lemma Own.drop (o : Own h (k :: R)) : Own (k.drop h) R := by
  obtain ⟨cell, o⟩ := o
  unfold KernelPage.drop
  split
  · rename_i hz
    have hk0 := o.isZeroPage.1 hz
    exact o.zeroFrame (by grind [holders_cons]) (by grind)
  rename_i hz
  have hk0 : k.content ≠ Heap.zeroFrame := fun h => hz (o.isZeroPage.2 h)
  have hcount := o.count k.content
  have huniq := o.unique k.content
  have hinj := o.inj
  have hzero := @holders_eq_zero R k.content
  have hl := o.live
  have hp := o.ptr
  split
  · rename_i hnone
    refine o.change k.content none hk0 rfl ?_ ?_ ?_ ?_ nofun ?_ <;> grind [holders_cons, Heap.setLive]
  rename_i r hsome
  split
  · simp only [Heap.setLive, Heap.setCount]
    refine o.change k.content none hk0 rfl ?_ ?_ ?_ ?_ nofun ?_ <;> grind [holders_cons]
  · refine o.change k.content (some r) hk0 rfl ?_ ?_ ?_ ?_ ?_ nofun <;>
      grind [holders_cons, Heap.setLive, Heap.setCount]

/-- **Cloning a pointer**: `self` and the clone are then two pointers to the
frame. -/
lemma Own.clone (o : Own h (k :: R)) (hc : k.clone A h = (.ok k', h')) : Own h' (k' :: k' :: R) := by
  obtain ⟨cell, o⟩ := o
  unfold KernelPage.clone at hc
  split at hc
  · rename_i hz
    have hk0 := o.isZeroPage.1 hz
    cases hc
    exact o.zeroFrame (by grind [holders_cons]) (by grind)
  rename_i hz
  have hk0 : k.content ≠ Heap.zeroFrame := fun h => hz (o.isZeroPage.2 h)
  have hcount := o.count
  have huniq := o.unique k.content
  have hinj := o.inj
  have hl := o.live
  have hp := o.ptr
  have hzero := @holders_eq_zero R k.content
  split at hc
  · rename_i r hsome
    cases hc
    refine o.change k.content (some r) hk0 rfl ?_ ?_ ?_ ?_ ?_ nofun <;> grind [holders_cons, Heap.setCount]
  rename_i hnone
  simp only [Heap.allocCell] at hc
  split at hc
  · simp at hc
  rename_i r h1 halloc
  simp only [Prod.mk.injEq, Option.filter_eq_some_iff, Option.isNone_iff_eq_none] at halloc
  obtain ⟨⟨-, hfresh⟩, rfl⟩ := halloc
  cases hc
  refine o.change k.content (some r) hk0 rfl ?_ ?_ ?_ ?_ ?_ nofun <;> grind [holders_cons, Heap.setCount]

lemma Own.fresh (o : Own h R) (hf : h.live f = false) (v : Nat → UInt8) :
    Own ((h.setLive f true).setBytes f v) (⟨f, none⟩ :: R) := by
  obtain ⟨cell, o⟩ := o
  have hf0 : f ≠ Heap.zeroFrame := by rintro rfl; rw [o.zeroLive] at hf; cases hf
  have hl := o.live
  have hzero := @holders_eq_zero R f
  simp only [Heap.setLive, Heap.setBytes]
  refine o.change f none hf0 (if_neg hf0.symm) ?_ ?_ ?_ ?_ nofun ?_ <;> grind [holders_cons]

lemma Own.setBytes (o : Own h R) (hf : f ≠ Heap.zeroFrame) (v : Nat → UInt8) : Own (h.setBytes f v) R := by
  obtain ⟨cell, o⟩ := o
  refine ⟨cell, o.live, o.zeroLive, ?_, o.ptr, o.zeroCell, o.inj, o.count, o.unique⟩
  simp only [Heap.setBytes, if_neg hf.symm]; exact o.zero

lemma Own.zeroed (o : Own h R) : Own h (zeroed :: R) := by
  obtain ⟨cell, o⟩ := o
  exact o.zeroFrame (by grind [holders_cons, zeroed]) (by grind)

variable (o : Own h (k :: R))
include o

lemma Own.copy (hc : k.copy A h = (.ok k', h')) :
    Own h' (k' :: R) ∧ k'.content ≠ Heap.zeroFrame ∧ k'.referenceCount = none := by
  obtain ⟨f, hf, rfl, rfl⟩ := copy_eq_ok hc
  refine ⟨(((o.same (sameHeap_tick h)).fresh hf (h.bytes k.content)).perm (.swap ..)).drop, ?_, rfl⟩
  obtain ⟨cell, o⟩ := o
  rintro rfl
  rw [o.zeroLive] at hf; cases hf

/-- The last pointer to a frame gives its cell up and keeps the frame. -/
lemma Own.takeOwnership {r : Nat} (hsome : k.referenceCount = some r)
    (hone : h.counts r = some 1) : Own (h.setCount r none) (⟨k.content, none⟩ :: R) := by
  obtain ⟨cell, o⟩ := o
  have hptr := o.ptr_head
  rw [hsome] at hptr
  have hk0 : k.content ≠ Heap.zeroFrame := by
    intro he
    cases (he ▸ hptr).trans o.zeroCell
  have hcount := o.count k.content
  have hinj := o.inj
  have hl := o.live
  have hp := o.ptr
  have hzero := @holders_eq_zero R k.content
  refine o.change k.content none hk0 rfl ?_ ?_ ?_ ?_ nofun ?_ <;> grind [holders_cons, Heap.setCount]

/-- **`make_mut`** leaves no zero page, and the only pointer to its frame unless it is shared. -/
lemma Own.makeMut (hm : k.makeMut A h shared = (.ok k', h')) : Own h' (k' :: R) ∧ k'.content ≠ Heap.zeroFrame ∧
      (shared = false → k'.referenceCount = none) := by
  have hk0 : k.isZeroPage = false → k.content ≠ Heap.zeroFrame := fun hz hc => by
    obtain ⟨cell, o⟩ := o
    rw [o.isZeroPage.2 hc] at hz; cases hz
  rcases makeMut_eq_ok hm with ⟨hz, hs, rfl, rfl⟩ | ⟨hz, r, hr, h1, rfl, rfl⟩ | hc
  · refine ⟨o, hk0 hz, fun hsh => ?_⟩
    rcases hs with hs | hs
    · rw [hsh] at hs; cases hs
    · exact hs
  · exact ⟨o.takeOwnership hr h1, hk0 hz, fun _ => rfl⟩
  · obtain ⟨h₁, h2, h3⟩ := o.copy hc
    exact ⟨h₁, h2, fun _ => h3⟩

lemma Own.zeroRange {start stop : Nat} (hz : k.zeroRange A h start stop shared = (.ok k', h')) : Own h' (k' :: R) ∧
      h'.bytes k'.content = zeroedBytes (h.bytes k.content) start stop := by
  rcases zeroRange_eq_ok hz with ⟨hc, rfl, rfl⟩ | ⟨-, h1, hm, rfl⟩
  · refine ⟨o, funext fun i => ?_⟩
    rcases hc with hc | hc
    · rw [zeroedBytes, if_neg (by omega)]
    obtain ⟨cell, o⟩ := o
    rw [o.isZeroPage.1 hc, zeroedBytes, o.zero i, ite_self]
  · obtain ⟨hown, h0, -⟩ := o.makeMut hm
    refine ⟨hown.setBytes h0 _, ?_⟩
    simp only [Heap.setBytes, if_true, (makeMut_moved hm).bytes]

end

/-! ## Many pages -/

def dropAll (h : Heap) (ks : List KernelPage) : Heap := ks.foldl (fun h k => k.drop h) h

variable {ks R : List KernelPage}

lemma Own.dropAll (o : Own h (ks ++ R)) : Own (dropAll h ks) R := by
  induction ks generalizing h with
  | nil => exact o
  | cons k ks ih => exact ih (Own.drop o)

lemma dropAll_bytes (h : Heap) (ks : List KernelPage) : (dropAll h ks).bytes = h.bytes := by
  induction ks generalizing h with
  | nil => rfl
  | cons k ks ih => exact (ih _).trans drop_bytes

lemma dropAll_live {g : Nat} (hg : ∀ k ∈ ks, k.content ≠ g) : (dropAll h ks).live g = h.live g := by
  induction ks generalizing h with
  | nil => rfl
  | cons k ks ih =>
    rw [forall_mem_cons] at hg
    exact (ih hg.2).trans (drop_live hg.1.symm)

end Mushroom.L2
