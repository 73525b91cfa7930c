import Mushroom.Core.Bytes
import Mushroom.L2Memory.Contents

/-!
# Files as byte strings

A file is a byte string that can be truncated and written to (`FileSpec`). The
buffer of a tmpfs file is one, as long as the allocator does not fail: if from
now on each request is answered with a free frame (`Supplies`), every
operation on a buffer succeeds, and the bytes of the buffer change as those of
the string (`bufferFile_spec`).
-/
namespace Mushroom.L2
open List Buffer

/-! ## An allocator that does not fail -/

/-- From now on each request is answered with a free frame, each with another
one. -/
def Supplies (A : Allocator) (h : Heap) : Prop :=
  ∀ n, h.clock ≤ n → ∃ f, A n = some f ∧ h.live f = false ∧ ∀ m, h.clock ≤ m → m < n → A m ≠ some f

/-- The frames in use are those of before and those handed out meanwhile. -/
structure Grows (A : Allocator) (h h' : Heap) : Prop where
  clock : h.clock ≤ h'.clock
  live : ∀ f, h'.live f = true → h.live f = true ∨ ∃ m, h.clock ≤ m ∧ m < h'.clock ∧ A m = some f

section

variable {A : Allocator} {h h' : Heap} {k : KernelPage} {b : Buffer}

lemma Supplies.grows (hs : Supplies A h) (hg : Grows A h h') : Supplies A h' := by
  intro n hn
  obtain ⟨f, hf, hlive, hother⟩ := hs n (hg.clock.trans hn)
  refine ⟨f, hf, ?_, fun m hm => hother m (hg.clock.trans hm)⟩
  by_contra hl
  rcases hg.live f (by simpa using hl) with h0 | ⟨m, hm, hlt, hA⟩
  · rw [hlive] at h0
    cases h0
  · exact hother m hm (by omega) hA

lemma Grows.refl (h : Heap) : Grows A h h := ⟨le_rfl, fun _ hl => .inl hl⟩

lemma Grows.trans {h'' : Heap} (h1 : Grows A h h') (h2 : Grows A h' h'') : Grows A h h'' := by
  refine ⟨h1.clock.trans h2.clock, fun f hf => ?_⟩
  rcases h2.live f hf with hl | ⟨m, hm, hlt, hA⟩
  · rcases h1.live f hl with hl | ⟨m, hm, hlt, hA⟩
    · exact .inl hl
    · exact .inr ⟨m, hm, hlt.trans_le h2.clock, hA⟩
  · exact .inr ⟨m, h1.clock.trans hm, hlt, hA⟩

lemma Grows.tick : Grows A h { h with clock := h.clock + 1 } := ⟨Nat.le_succ _, fun _ hl => .inl hl⟩

lemma Grows.setBytes (h : Heap) (f : Nat) (v : Nat → UInt8) : Grows A h (h.setBytes f v) :=
  ⟨le_rfl, fun _ hl => .inl hl⟩

lemma Grows.setCount (h : Heap) (r : Nat) (c : Option Nat) : Grows A h (h.setCount r c) := ⟨le_rfl, fun _ hl => .inl hl⟩

lemma Grows.free (h : Heap) (f : Nat) : Grows A h (h.setLive f false) := by
  refine ⟨le_rfl, fun g hg => .inl ?_⟩
  simp only [Heap.setLive] at hg
  split at hg
  · cases hg
  · exact hg

lemma Grows.drop (h : Heap) (k : KernelPage) : Grows A h (k.drop h) := by
  unfold KernelPage.drop
  split
  · exact .refl h
  split
  · exact .free h _
  split
  · exact (Grows.setCount h _ _).trans (.free _ _)
  · exact .setCount h _ _

lemma Grows.dropAll (h : Heap) (ks : List KernelPage) : Grows A h (dropAll h ks) := by
  induction ks generalizing h with
  | nil => exact .refl h
  | cons k ks ih => exact (Grows.drop h k).trans (ih _)

section

variable (hs : Supplies A h)

include hs

lemma Supplies.allocFrame : ∃ f, h.allocFrame A = (some f, { h with clock := h.clock + 1 }) ∧ A h.clock = some f := by
  obtain ⟨f, hf, hlive, -⟩ := hs h.clock le_rfl
  refine ⟨f, ?_, hf⟩
  simp [Heap.allocFrame, hf, hlive]

lemma copy_ok (k : KernelPage) : ∃ k' h', k.copy A h = (.ok k', h') ∧ Grows A h h' := by
  obtain ⟨f, halloc, hA⟩ := hs.allocFrame
  simp only [KernelPage.copy, halloc]
  refine ⟨_, _, rfl, ?_⟩
  refine Grows.trans ?_ (.drop _ k)
  refine Grows.trans ?_ (.setBytes _ _ _)
  refine ⟨Nat.le_succ _, fun g hg => ?_⟩
  by_cases hgf : g = f
  · exact .inr ⟨h.clock, le_rfl, Nat.lt_succ_self _, hgf ▸ hA⟩
  left
  simpa [Heap.setLive, hgf] using hg

lemma makeMut_ok (k : KernelPage) (shared : Bool) : ∃ k' h', k.makeMut A h shared = (.ok k', h') ∧ Grows A h h' := by
  unfold KernelPage.makeMut
  split
  · exact copy_ok hs k
  split
  · exact ⟨_, _, rfl, .refl h⟩
  split
  · exact ⟨_, _, rfl, .refl h⟩
  split
  · exact ⟨_, _, rfl, .setCount h _ _⟩
  · exact copy_ok hs k

lemma zeroRange_ok (k : KernelPage) (start stop : Nat) (shared : Bool) :
    ∃ k' h', k.zeroRange A h start stop shared = (.ok k', h') ∧ Grows A h h' := by
  unfold KernelPage.zeroRange
  split
  · exact ⟨_, _, rfl, .refl h⟩
  split
  · exact ⟨_, _, rfl, .refl h⟩
  obtain ⟨k', h', hm, hg⟩ := makeMut_ok hs k shared
  rw [hm]
  exact ⟨_, _, rfl, hg.trans (.setBytes _ _ _)⟩

lemma reserve_ok (b : Buffer) (n : Nat) : ∃ b' h', b.reserve A h n = (.ok (), b', h') ∧ Grows A h h' := by
  unfold reserve
  split
  · exact ⟨_, _, rfl, .refl h⟩
  obtain ⟨f, hf, -⟩ := hs h.clock le_rfl
  simp only [hf, Option.isSome_some, if_true]
  exact ⟨_, _, rfl, .tick⟩

lemma zeroTail_ok (b : Buffer) : ∃ b' h', b.zeroTail A h = (.ok (), b', h') ∧ Grows A h h' := by
  unfold zeroTail
  split
  · exact ⟨_, _, rfl, .refl h⟩
  rename_i ht
  obtain ⟨k', h', hz, hg⟩ := zeroRange_ok hs (b.pages.get ⟨b.len / 4096, b.tail_lt ht⟩) (b.len % 4096) 4096 true
  rw [hz]
  exact ⟨_, _, rfl, hg⟩

lemma reserveZeroed_ok (b : Buffer) (n : Nat) : ∃ b' h', b.reserveZeroed A h n = (.ok (), b', h') ∧ Grows A h h' := by
  unfold reserveZeroed
  split
  · exact ⟨_, _, rfl, .refl h⟩
  obtain ⟨b1, h1, hz, hg1⟩ := zeroTail_ok hs b
  rw [hz]
  have hg2 : Grows A h1 (dropAll h1 b1.drainFollowing.2) := .dropAll _ _
  obtain ⟨b2, h2, hr, hg3⟩ := reserve_ok ((hs.grows hg1).grows hg2) b1.drainFollowing.1 n
  exact ⟨b2, h2, hr, hg1.trans (hg2.trans hg3)⟩

lemma truncate_ok (b : Buffer) (len : Nat) : ∃ b' h', b.truncate A h len = (.ok (), b', h') ∧ Grows A h h' := by
  obtain ⟨b1, h1, hz, hg⟩ := reserveZeroed_ok hs b (len - b.len)
  unfold truncate
  split
  · rename_i hz'
    cases hz.symm.trans hz'
  rename_i hz'
  cases hz.symm.trans hz'
  exact ⟨_, _, rfl, hg⟩

lemma writePages_ok (offset : Nat) (buf : Bytes) (i : Nat) (ks : List KernelPage) :
    (writePages A offset buf h i ks).1 = .ok () ∧ Grows A h (writePages A offset buf h i ks).2.2 := by
  induction ks generalizing h i with
  | nil => exact ⟨rfl, .refl h⟩
  | cons k ks ih =>
    unfold writePages
    split
    · obtain ⟨k', h1, hm, hg⟩ := makeMut_ok hs k true
      rw [hm]
      have hg1 := hg.trans
        (.setBytes h1 k'.content (writtenBytes offset buf i (h1.bytes k'.content)))
      obtain ⟨hr, hg2⟩ := ih (hs.grows hg1) (i + 1)
      exact ⟨hr, hg1.trans hg2⟩
    · exact ih hs (i + 1)

lemma write_ok (b : Buffer) (offset : Nat) (buf : Bytes) :
    ∃ n b' h', b.write A h offset buf = (.ok n, b', h') ∧ Grows A h h' := by
  obtain ⟨b1, h1, hz, hg1⟩ := reserveZeroed_ok hs b (offset - b.len)
  unfold write
  rw [hz]
  simp only
  by_cases hbuf : buf = []
  · rw [if_pos hbuf]
    exact ⟨_, _, _, rfl, hg1⟩
  rw [if_neg hbuf]
  obtain ⟨b2, h2, hr, hg2⟩ := reserve_ok (hs.grows hg1) b1 (offset + buf.length - b1.len)
  have hs2 := (hs.grows hg1).grows hg2
  obtain ⟨hw, hg3⟩ := writePages_ok hs2 offset buf 0 b2.pages
  split
  · rename_i hr'
    cases hr.symm.trans hr'
  rename_i hr'
  cases hr.symm.trans hr'
  refine ⟨buf.length, _, _, Prod.ext ?_ rfl, hg1.trans (hg2.trans hg3)⟩
  simp only [hw]
  rfl

end

end

/-! ## Byte strings as files -/

def truncated (f : Bytes) (len : Nat) : Bytes := pad len (f.take len)

/-- What `write` makes of a file; a gap in front of `offset` becomes zero. -/
def written (f : Bytes) (offset : Nat) (buf : Bytes) : Bytes :=
  if buf = [] then f else truncated f offset ++ (buf ++ f.drop (offset + buf.length))

@[simp] lemma truncated_length (f : Bytes) (len : Nat) : (truncated f len).length = len :=
  pad_length (length_take_le ..)

lemma truncated_getD (f : Bytes) (len i : Nat) : (truncated f len).getD i 0 = if i < len then f.getD i 0 else 0 := by
  rw [truncated, pad_getD]
  simp only [getD_eq_getElem?_getD, List.getElem?_take]
  split <;> rfl

lemma written_length {f buf : Bytes} {offset : Nat} (hbuf : buf ≠ []) :
    (written f offset buf).length = max f.length (offset + buf.length) := by
  simp only [written, if_neg hbuf, length_append, truncated_length, length_drop]
  omega

lemma written_getD (f : Bytes) (offset : Nat) (buf : Bytes) (i : Nat) :
    (written f offset buf).getD i 0 = overwritten offset buf i (f.getD i 0) := by
  unfold written
  split
  · rename_i hbuf
    subst hbuf
    rw [overwritten_outside]
    simp only [length_nil]
    omega
  by_cases h1 : i < offset
  · rw [overwritten_outside _ (.inl h1), getD_append _ _ _ _ (by simpa using h1), truncated_getD, if_pos h1]
  rw [getD_append_right _ _ _ _ (by simpa using h1), truncated_length]
  by_cases h2 : i < offset + buf.length
  · have hlt : i - offset < buf.length := by omega
    rw [getD_append _ _ _ _ hlt, overwritten, if_pos (by omega), List.getElem?_eq_getElem hlt, getD_eq_getElem _ _ hlt]
    rfl
  rw [getD_append_right _ _ _ _ (by omega), overwritten_outside _ (.inr (by omega))]
  simp only [getD_eq_getElem?_getD, List.getElem?_drop]
  congr 2
  omega

/-- The operations of a file that `copy_to` uses. -/
structure FileOps (F : Type) where
  truncate : F → Nat → Except Errno Unit × F
  write : F → Nat → Bytes → Except Errno Nat × F

/-- The operations succeed, and do what they do to a byte string. -/
structure FileSpec {F : Type} (ops : FileOps F) (Is : Bytes → F → Prop) : Prop where
  truncate : ∀ {f x} (len : Nat), Is f x → ∃ x', ops.truncate x len = (.ok (), x') ∧ Is (truncated f len) x'
  write : ∀ {f x} (offset : Nat) (buf : Bytes), Is f x →
    ∃ n x', ops.write x offset buf = (.ok n, x') ∧ Is (written f offset buf) x'

/-- A tmpfs file, with the heap its pages lie in.
kernel/fs/node/tmpfs.rs:884-890,928-934 -/
def bufferFile (A : Allocator) : FileOps (Buffer × Heap) where
  truncate x len := x.1.truncate A x.2 len
  write x offset buf := x.1.write A x.2 offset buf

/-- The buffer holds the string `f`; `R` are the pages of everybody else. -/
structure BufferIs (A : Allocator) (R : List KernelPage) (f : Bytes) (x : Buffer × Heap) : Prop where
  len : x.1.len = f.length
  byte : ∀ i, x.1.byte x.2 i = f.getD i 0
  own : Own x.2 (x.1.pages ++ R)
  distinct : Distinct x.1.pages
  supplies : Supplies A x.2

lemma bufferIs_new {A : Allocator} {R : List KernelPage} {h : Heap} (o : Own h R) (hs : Supplies A h) :
    BufferIs A R [] (new, h) :=
  ⟨rfl, fun i => by simp [byte, new], o, List.Pairwise.nil, hs⟩

def Heap.fresh : Heap := ⟨fun _ _ => 0, fun f => f = Heap.zeroFrame, fun _ => none, 0⟩

lemma own_fresh : Own Heap.fresh [] :=
  ⟨fun _ => none, by simp, rfl, fun _ => rfl, by simp, rfl, by simp, by simp, by simp [holders]⟩

def bump : Allocator := fun n => some (n + 1)

lemma bump_supplies : Supplies bump Heap.fresh := by
  intro n _
  refine ⟨n + 1, rfl, by simp [Heap.fresh, Heap.zeroFrame], ?_⟩
  intro m _ hlt he
  simp only [bump, Option.some.injEq] at he
  omega

lemma BufferIs.step {A : Allocator} {R : List KernelPage} {f f' : Bytes} {x x' : Buffer × Heap}
    (hx : BufferIs A R f x) (hstep : BufStep x.2 x.1.pages x'.2 x'.1.pages []) (hg : Grows A x.2 x'.2)
    (hlen : x'.1.len = f'.length) (hbyte : ∀ i, x'.1.byte x'.2 i = f'.getD i 0) : BufferIs A R f' x' := by
  exact ⟨hlen, hbyte, hstep.own R hx.own, hstep.keeps_distinct hx.own hx.distinct, hx.supplies.grows hg⟩

/-- A tmpfs file is a byte string. -/
lemma bufferFile_spec (A : Allocator) (R : List KernelPage) : FileSpec (bufferFile A) (BufferIs A R) := by
  refine ⟨?_, ?_⟩
  · rintro f ⟨b, h⟩ len hx
    obtain ⟨b', h', hr, hg⟩ := truncate_ok hx.supplies b len
    obtain ⟨hlen, hbyte⟩ := truncate_byte hx.own hx.distinct hr
    refine ⟨(b', h'), hr, hx.step (truncate_step hr) hg (by simp [hlen]) fun i => ?_⟩
    rw [hbyte, truncated_getD, ← hx.byte]
  rintro f ⟨b, h⟩ offset buf hx
  obtain ⟨n, b', h', hr, hg⟩ := write_ok hx.supplies b offset buf
  obtain ⟨-, hlen, hlen0, hbyte⟩ := write_byte hx.own hx.distinct hr
  refine ⟨n, (b', h'), hr, hx.step (write_step hr) hg ?_ fun i => ?_⟩
  · by_cases hbuf : buf = []
    · rw [written, if_pos hbuf, ← hx.len]
      exact hlen0 hbuf
    · rw [written_length hbuf, ← hx.len]
      exact hlen hbuf
  · rw [hbyte, written_getD, ← hx.byte]

end Mushroom.L2
