import Mushroom.L2Memory.KernelPage

/-!
# File buffers

`Buffer` of `kernel/memory/page/buffer.rs`, the contents of a tmpfs file: a
length and pages for at least as many bytes. What the pages hold behind the
length is only made zero when it is needed (`reserve_zeroed`).

An operation that fails returns the buffer as far as it got. Every one keeps the
bookkeeping of the heap, touches only frames of the buffer, and points to no
frame of anybody else afterwards (`BufStep`).
-/
namespace Mushroom.L2
open List KernelPage

/-- buffer.rs:13-17 -/
structure Buffer where
  len : Nat
  pages : List KernelPage
  fits : len ≤ 4096 * pages.length

variable {n offset i pageIdx : Nat} {r : Except Errno Unit} {buf : List UInt8} {ks ks' ks₁ : List KernelPage}
  {k' : KernelPage}

namespace Buffer

def new : Buffer := ⟨0, [], by simp⟩

/-- `Vec::try_reserve` may need memory of its own.
buffer.rs:33-47 -/
def reserve (A : Allocator) (h : Heap) (b : Buffer) (additional : Nat) : Except Errno Unit × Buffer × Heap :=
  if additional = 0 then (.ok (), b, h)
  else
    let numPages := (b.len + additional + 4095) / 4096
    let newPages := numPages - b.pages.length
    if (A h.clock).isSome then
      (.ok (), ⟨b.len, b.pages ++ List.replicate newPages .zeroed, by
        have := b.fits; rw [length_append]; omega⟩, { h with clock := h.clock + 1 })
    else (.error .noMem, b, { h with clock := h.clock + 1 })

def setPage (b : Buffer) (idx : Nat) (page : KernelPage) : Buffer :=
  ⟨b.len, b.pages.set idx page, by rw [length_set]; exact b.fits⟩

lemma tail_lt (b : Buffer) (h : b.len % 4096 ≠ 0) : b.len / 4096 < b.pages.length := by have := b.fits; omega

/-- Make the bytes behind the length in its last page zero.
buffer.rs:55-60 -/
def zeroTail (A : Allocator) (h : Heap) (b : Buffer) : Except Errno Unit × Buffer × Heap :=
  if ht : b.len % 4096 = 0 then (.ok (), b, h)
  else
    match (b.pages.get ⟨b.len / 4096, b.tail_lt ht⟩).zeroRange A h (b.len % 4096) 4096 true with
    | (.error e, h) => (.error e, b, h)
    | (.ok k, h) => (.ok (), b.setPage (b.len / 4096) k, h)

/-- Drop the pages behind the one with the last byte.
buffer.rs:62-63 -/
def drainFollowing (b : Buffer) : Buffer × List KernelPage :=
  (⟨b.len, b.pages.take ((b.len + 4095) / 4096), by
    have := b.fits; rw [length_take]; omega⟩, b.pages.drop ((b.len + 4095) / 4096))

/-- buffer.rs:49-68 -/
def reserveZeroed (A : Allocator) (h : Heap) (b : Buffer) (additional : Nat) : Except Errno Unit × Buffer × Heap :=
  if additional = 0 then (.ok (), b, h)
  else
    match b.zeroTail A h with
    | (.error e, b, h) => (.error e, b, h)
    | (.ok (), b, h) => reserve A (dropAll h b.drainFollowing.2) b.drainFollowing.1 additional

variable {A : Allocator} {h h' : Heap} {b b' : Buffer}

lemma reserve_fits (hr : b.reserve A h n = (.ok (), b', h')) : b'.len = b.len ∧ b.len + n ≤ 4096 * b'.pages.length := by
  unfold reserve at hr
  split at hr
  · rename_i h0
    cases hr
    exact ⟨rfl, by have := b.fits; omega⟩
  simp only at hr
  split at hr
  · cases hr
    refine ⟨rfl, ?_⟩
    rw [length_append, length_replicate]
    omega
  · cases hr

lemma zeroTail_len (hr : b.zeroTail A h = (r, b', h')) : b'.len = b.len ∧ b'.pages.length = b.pages.length := by
  unfold zeroTail at hr
  split at hr
  · cases hr; exact ⟨rfl, rfl⟩
  split at hr
  · cases hr; exact ⟨rfl, rfl⟩
  · cases hr; exact ⟨rfl, length_set⟩

lemma reserveZeroed_fits
    (hr : b.reserveZeroed A h n = (.ok (), b', h')) : b'.len = b.len ∧ b.len + n ≤ 4096 * b'.pages.length := by
  unfold reserveZeroed at hr
  split at hr
  · rename_i h0
    cases hr
    exact ⟨rfl, by have := b.fits; omega⟩
  split at hr
  · cases hr
  rename_i b1 h₁ ht
  have hlen := (zeroTail_len ht).1
  obtain ⟨hl, hle⟩ := reserve_fits hr
  simp only [drainFollowing] at hl hle
  omega

lemma getPage_lt
    (hr : b.reserveZeroed A h ((pageIdx + 1) * 4096 - b.len) = (.ok (), b', h')) : pageIdx < b'.pages.length := by
  have := (reserveZeroed_fits hr).2
  omega

/-- A page that is to be shared is made mutable first, so that `make_mut` on the clone keeps it.
buffer.rs:296-315 -/
def getPage (A : Allocator) (h : Heap) (b : Buffer) (pageIdx : Nat) (shared : Bool) :
    Except Errno KernelPage × Buffer × Heap :=
  if ¬ pageIdx < b.pages.length then (.error .acces, b, h)
  else
    match hr : b.reserveZeroed A h ((pageIdx + 1) * 4096 - b.len) with
    | (.error e, b, h) => (.error e, b, h)
    | (.ok (), b, h) =>
      let page := b.pages.get ⟨pageIdx, getPage_lt hr⟩
      match if shared then page.makeMut A h true else (.ok page, h) with
      | (.error e, h) => (.error e, b, h)
      | (.ok page, h) =>
        match page.clone A h with
        | (.error e, h) => (.error e, b.setPage pageIdx page, h)
        | (.ok page, h) => (.ok page, b.setPage pageIdx page, h)

/-- buffer.rs:287-294 -/
def truncate (A : Allocator) (h : Heap) (b : Buffer) (len : Nat) : Except Errno Unit × Buffer × Heap :=
  match hr : b.reserveZeroed A h (len - b.len) with
  | (.error e, b, h) => (.error e, b, h)
  | (.ok (), b', h) => (.ok (), ⟨len, b'.pages, by have := (reserveZeroed_fits hr).2; omega⟩, h)

/-- The bytes `buf` written at `offset`, over the bytes `v` of page `i`. -/
def writtenBytes (offset : Nat) (buf : List UInt8) (i : Nat) (v : Nat → UInt8) : Nat → UInt8 :=
  fun j => if offset ≤ i * 4096 + j then (buf[i * 4096 + j - offset]?).getD (v j) else v j

/-- The loop of `write` over the pages from index `i` on.
buffer.rs:188-218 -/
def writePages (A : Allocator) (offset : Nat) (buf : List UInt8) (h : Heap) :
    Nat → List KernelPage → Except Errno Unit × List KernelPage × Heap
  | _, [] => (.ok (), [], h)
  | i, k :: ks =>
    if offset / 4096 ≤ i ∧ i < (offset + buf.length + 4095) / 4096 then
      match k.makeMut A h true with
      | (.error e, h) => (.error e, k :: ks, h)
      | (.ok k, h) =>
        let h := h.setBytes k.content (writtenBytes offset buf i (h.bytes k.content))
        let r := writePages A offset buf h (i + 1) ks
        (r.1, k :: r.2.1, r.2.2)
    else
      let r := writePages A offset buf h (i + 1) ks
      (r.1, k :: r.2.1, r.2.2)

lemma writePages_length : (writePages A offset buf h i ks).2.1.length = ks.length := by
  induction ks generalizing h i with
  | nil => rfl
  | cons k ks ih =>
    unfold writePages
    split
    · split
      · rfl
      · simp [ih]
    · simp [ih]

/-- buffer.rs:167-224 -/
def write (A : Allocator) (h : Heap) (b : Buffer) (offset : Nat) (buf : List UInt8) :
    Except Errno Nat × Buffer × Heap :=
  match b.reserveZeroed A h (offset - b.len) with
  | (.error e, b, h) => (.error e, b, h)
  | (.ok (), b, h) =>
    if buf = [] then (.ok 0, b, h)
    else
      match hr : b.reserve A h (offset + buf.length - b.len) with
      | (.error e, b, h) => (.error e, b, h)
      | (.ok (), b', h) =>
        let r := writePages A offset buf h 0 b'.pages
        -- the length only changes once all pages are written
        let len := match r.1 with
          | .ok () => max b'.len (offset + buf.length)
          | .error _ => b'.len
        (r.1.map fun _ => buf.length, ⟨len, r.2.1, by
          have h₁ := reserve_fits hr
          have h₂ := b'.fits
          rw [writePages_length]
          show (match r.1 with
            | .ok () => max b'.len (offset + buf.length)
            | .error _ => b'.len) ≤ _
          split
          · exact Nat.max_le.2 ⟨h₂, by omega⟩
          · exact h₂⟩, r.2.2)

end Buffer

/-! ## What the operations have in common -/

/-- No two pages share a frame, except the zero frame. -/
def Distinct (ks : List KernelPage) : Prop := ks.Pairwise fun a b => a.content = b.content → a.content = Heap.zeroFrame

variable {h h₁ h₂ : Heap} {shared : Bool}

lemma Distinct.perm (hp : ks.Perm ks') (h : Distinct ks) : Distinct ks' :=
  (hp.pairwise_iff fun hab hba => hba.trans (hab hba.symm)).1 h

lemma Distinct.append : Distinct (ks ++ ks') ↔ Distinct ks ∧ Distinct ks' ∧
      ∀ a ∈ ks, ∀ b ∈ ks', a.content = b.content → a.content = Heap.zeroFrame := pairwise_append

/-- A page that changes its frame at most for a new one stays distinct. -/
lemma Distinct.head {k : KernelPage} {F R : List KernelPage} (o : Own h (k :: (F ++ R)))
    (hk : k'.content = k.content ∨ h.live k'.content = false) (hd : Distinct (k :: F)) : Distinct (k' :: F) := by
  obtain ⟨cell, o⟩ := o
  obtain ⟨hkF, hF⟩ := pairwise_cons.1 hd
  refine pairwise_cons.2 ⟨fun b hb he => ?_, hF⟩
  rcases hk with hk | hk
  · rw [hk] at he ⊢; exact hkF b hb he
  rw [he, o.live b (mem_cons_of_mem _ (mem_append_left _ hb))] at hk
  cases hk

/-- The frame `f` is one of the pages' `ks`, a new one, or the zero frame. -/
def NotForeign (h : Heap) (ks : List KernelPage) (f : Nat) : Prop :=
  f = Heap.zeroFrame ∨ h.live f = false ∨ ∃ k ∈ ks, k.content = f

/-- From the heap `h` and the pages `ks` to `h'` and `ks'`, with `out` handed out besides. -/
structure BufStep (h : Heap) (ks : List KernelPage) (h' : Heap) (ks' out : List KernelPage) : Prop where
  own : ∀ R, Own h (ks ++ R) → Own h' (out ++ (ks' ++ R))
  bytes : ∀ g, g ≠ Heap.zeroFrame → h.live g = true → (∀ k ∈ ks, k.content ≠ g) →
    h'.live g = true ∧ h'.bytes g = h.bytes g
  frames : ∀ k ∈ out ++ ks', NotForeign h ks k.content
  distinct : ∀ F R, Own h (ks ++ (F ++ R)) → Distinct (ks ++ F) → Distinct (ks' ++ F)

lemma BufStep.refl : BufStep h ks h ks [] :=
  ⟨fun _ o => o, fun _ _ hl _ => ⟨hl, rfl⟩, fun k hk => .inr (.inr ⟨k, hk, rfl⟩), fun _ _ _ hd => hd⟩

variable {h' : Heap}

/-- A frame that belongs to none of the pages before belongs to none of them
afterwards. -/
lemma BufStep.foreign {out : List KernelPage} (s : BufStep h ks h' ks' out) {g : Nat}
    (h0 : g ≠ Heap.zeroFrame) (hl : h.live g) (hks : ∀ k ∈ ks, k.content ≠ g) :
    ∀ k ∈ out ++ ks', k.content ≠ g := fun k hk he => by
  rcases s.frames k hk with hz | hf | ⟨k0, hk0, hc⟩
  · exact h0 (he ▸ hz)
  · rw [he, hl] at hf; cases hf
  · exact hks k0 hk0 (hc.trans he)

lemma BufStep.notForeign (s : BufStep h ks h₁ ks₁ []) {f : Nat} (hf : NotForeign h₁ ks₁ f) : NotForeign h ks f := by
  by_cases h0 : f = Heap.zeroFrame
  · exact .inl h0
  right
  by_cases hl : h.live f
  · right
    by_contra hnone
    have hb : ∀ k ∈ ks, k.content ≠ f := fun k hk he => hnone ⟨k, hk, he⟩
    rcases hf with hz | hf | ⟨k1, hk1, hc⟩
    · exact h0 hz
    · rw [(s.bytes f h0 hl hb).1] at hf; cases hf
    · exact s.foreign h0 hl hb k1 hk1 hc
  · exact .inl (by simpa using hl)

lemma BufStep.trans {ks2 out : List KernelPage} (s1 : BufStep h ks h₁ ks₁ [])
    (s2 : BufStep h₁ ks₁ h₂ ks2 out) : BufStep h ks h₂ ks2 out := by
  refine ⟨fun R o => s2.own R (s1.own R o), fun g h0 hl hb => ?_, fun k hk => s1.notForeign (s2.frames k hk),
    fun F R o hd => s2.distinct F R (s1.own (F ++ R) o) (s1.distinct F R o hd)⟩
  obtain ⟨hl1, hb1⟩ := s1.bytes g h0 hl hb
  obtain ⟨hl2, hb2⟩ := s2.bytes g h0 hl1 (s1.foreign h0 hl hb)
  exact ⟨hl2, hb2.trans hb1⟩

lemma BufStep.out {out out' : List KernelPage} (s : BufStep h ks h₁ ks₁ out)
    (t : BufStep h₁ out h₂ out' []) : BufStep h ks h₂ ks₁ out' := by
  refine ⟨fun R o => t.own _ (s.own R o), fun g h0 hl hb => ?_, fun k hk => ?_, s.distinct⟩
  · obtain ⟨hl1, hb1⟩ := s.bytes g h0 hl hb
    obtain ⟨hl2, hb2⟩ := t.bytes g h0 hl1 fun k hk => s.foreign h0 hl hb k (mem_append_left _ hk)
    exact ⟨hl2, hb2.trans hb1⟩
  rcases mem_append.1 hk with hk | hk
  · rcases t.frames k hk with hz | hf | ⟨k0, hk0, hc⟩
    · exact .inl hz
    · by_cases hin : ∃ k0 ∈ ks, k0.content = k.content
      · exact .inr (.inr hin)
      -- a live frame that is not the pages' stays live
      refine or_iff_not_imp_left.2 fun h0 => .inl ?_
      by_contra hl
      have := (s.bytes _ h0 (by simpa using hl) fun k0 hk0 he => hin ⟨k0, hk0, he⟩).1
      rw [this] at hf; cases hf
    · rw [← hc]; exact s.frames k0 (mem_append_left _ hk0)
  · exact s.frames k (mem_append_right _ hk)

lemma BufStep.of_same (hs : SameHeap h h') : BufStep h ks h' ks [] :=
  ⟨fun _ o => o.same hs, fun g _ hl _ => ⟨by rw [hs.2.1]; exact hl, by rw [hs.1]⟩,
    fun k hk => .inr (.inr ⟨k, hk, rfl⟩), fun _ _ _ hd => hd⟩

lemma BufStep.perm {ks1' out : List KernelPage} (hp : ks.Perm ks₁) (hp' : ks1'.Perm ks')
    (s : BufStep h ks₁ h' ks1' out) : BufStep h ks h' ks' out := by
  refine ⟨fun R o => ?_, fun g h0 hl hb => ?_, fun k hk => ?_, fun F R o hd => ?_⟩
  · exact (s.own R (o.perm (hp.append_right R))).perm ((hp'.append_right R).append_left out)
  · exact s.bytes g h0 hl fun k hk => hb k (hp.mem_iff.2 hk)
  · rcases s.frames k ((hp'.append_left out).mem_iff.2 hk) with hz | hf | ⟨k0, hk0, hc⟩
    · exact .inl hz
    · exact .inr (.inl hf)
    · exact .inr (.inr ⟨k0, hp.mem_iff.2 hk0, hc⟩)
  · exact (s.distinct F R (o.perm (hp.append_right _)) (hd.perm (hp.append_right F))).perm
      (hp'.append_right F)

/-- The pages besides those of the step stay as they are. -/
lemma BufStep.append_right {out : List KernelPage} (s : BufStep h ks h' ks' out)
    (rest : List KernelPage) : BufStep h (ks ++ rest) h' (ks' ++ rest) out := by
  refine ⟨fun R o => ?_, fun g h0 hl hb => ?_, fun k hk => ?_, fun F R o hd => ?_⟩
  · rw [append_assoc] at o ⊢
    exact s.own (rest ++ R) o
  · exact s.bytes g h0 hl fun k hk => hb k (mem_append_left _ hk)
  · rw [← append_assoc] at hk
    rcases mem_append.1 hk with hk | hk
    · rcases s.frames k hk with hz | hf | ⟨k0, hk0, hc⟩
      · exact .inl hz
      · exact .inr (.inl hf)
      · exact .inr (.inr ⟨k0, mem_append_left _ hk0, hc⟩)
    · exact .inr (.inr ⟨k, mem_append_right _ hk, rfl⟩)
  · rw [append_assoc] at o hd ⊢
    exact s.distinct (rest ++ F) R (by rw [append_assoc]; exact o) hd

lemma BufStep.cons {h h' : Heap} {out : List KernelPage} (s : BufStep h ks h' ks' out) (k : KernelPage) :
    BufStep h (k :: ks) h' (k :: ks') out :=
  (s.append_right [k]).perm (perm_append_singleton k ks).symm (perm_append_singleton k ks')

lemma BufStep.set {out : List KernelPage} (hi : i < ks.length)
    (s : BufStep h [ks.get ⟨i, hi⟩] h' [k'] out) : BufStep h ks h' (ks.set i k') out :=
  (s.append_right (ks.eraseIdx i)).perm (getElem_cons_eraseIdx_perm hi).symm
    (set_perm_cons_eraseIdx hi k').symm

def handedOut : Except Errno KernelPage → List KernelPage
  | .ok k => [k]
  | .error _ => []

/-! ## The operations -/

section

variable {A : Allocator} {h h' : Heap} {k k' : KernelPage}

lemma BufStep.makeMut (hm : k.makeMut A h shared = (.ok k', h')) : BufStep h [k] h' [k'] [] := by
  have hmoved := makeMut_moved hm
  refine ⟨fun R o => (o.makeMut hm).1, fun g _ hl hb => ?_, fun k1 hk1 => ?_, fun F R o hd => hd.head o hmoved.frame⟩
  · exact ⟨hmoved.stays g hl (hb k (mem_cons_self ..)).symm, hmoved.others g hl⟩
  rw [nil_append, mem_singleton] at hk1
  subst hk1
  exact .inr (hmoved.frame.symm.imp id fun he => ⟨k, mem_cons_self .., he.symm⟩)

lemma BufStep.write (hm : k.makeMut A h shared = (.ok k', h')) (v : Nat → UInt8) :
    BufStep h [k] (h'.setBytes k'.content v) [k'] [] := by
  have hmut := BufStep.makeMut hm
  refine ⟨fun R o => ?_, fun g h0 hl hb => ?_, hmut.frames, hmut.distinct⟩
  · obtain ⟨hown, hk0, -⟩ := o.makeMut hm
    exact hown.setBytes hk0 v
  have hne := hmut.foreign h0 hl hb k' (mem_cons_self ..)
  obtain ⟨hl', hb'⟩ := hmut.bytes g h0 hl hb
  exact ⟨hl', by simp only [Heap.setBytes, if_neg hne.symm]; exact hb'⟩

lemma BufStep.zeroRange {start stop : Nat} (hz : k.zeroRange A h start stop shared = (.ok k', h')) :
    BufStep h [k] h' [k'] [] := by
  rcases zeroRange_eq_ok hz with ⟨-, rfl, rfl⟩ | ⟨-, h₂, hm, rfl⟩
  · exact .refl
  · exact BufStep.write hm _

lemma BufStep.clone (hc : k.clone A h = (.ok k', h')) : BufStep h [k] h' [k'] [k'] := by
  obtain ⟨hcont, hbytes, hlive⟩ := clone_eq_ok hc
  refine ⟨fun R o => o.clone hc, fun g _ hl _ => ⟨by rw [hlive]; exact hl, by rw [hbytes]⟩,
    fun k1 hk1 => ?_, fun F R o hd => hd.head o (.inl hcont)⟩
  have hk1 : k1 = k' := by simpa using hk1
  exact .inr (.inr ⟨k, mem_cons_self .., by rw [hk1, hcont]⟩)

lemma BufStep.zeroed (n : Nat) : BufStep h ks h (ks ++ List.replicate n KernelPage.zeroed) [] := by
  refine ⟨fun R o => ?_, fun g _ hl _ => ⟨hl, rfl⟩, fun k hk => ?_, fun F R o hd => ?_⟩
  · have hown : Own h (List.replicate n KernelPage.zeroed ++ (ks ++ R)) := by
      induction n with
      | zero => exact o
      | succ n ih => exact ih.zeroed
    rw [nil_append, append_assoc]
    exact hown.perm (perm_append_comm_assoc ..)
  · rw [nil_append] at hk
    rcases mem_append.1 hk with hk | hk
    · exact .inr (.inr ⟨k, hk, rfl⟩)
    · exact .inl (by rw [eq_of_mem_replicate hk]; rfl)
  have hz : ∀ k ∈ List.replicate n KernelPage.zeroed, k.content = Heap.zeroFrame := fun k hk => by
    rw [eq_of_mem_replicate hk]; rfl
  have hrep : Distinct (List.replicate n KernelPage.zeroed) :=
    pairwise_of_forall_mem_list fun a ha b _ _ => hz a ha
  have hd' : Distinct (List.replicate n KernelPage.zeroed ++ (ks ++ F)) :=
    Distinct.append.2 ⟨hrep, hd, fun a ha b _ _ => hz a ha⟩
  rw [append_assoc]
  exact hd'.perm (perm_append_comm_assoc ..)

/-- A page of zeros is at hand for everybody. -/
lemma BufStep.zeroPage : BufStep h ks h ks [KernelPage.zeroed] := by
  refine ⟨fun R o => o.zeroed, fun _ _ hl _ => ⟨hl, rfl⟩, fun k hk => ?_, fun _ _ _ hd => hd⟩
  rcases mem_cons.1 hk with rfl | hk
  · exact .inl rfl
  · exact .inr (.inr ⟨k, hk, rfl⟩)

lemma BufStep.drop : BufStep h (ks ++ ks') (dropAll h ks') ks [] := by
  refine ⟨fun R o => ?_, fun g _ hl hb => ?_, fun k hk =>
    .inr (.inr ⟨k, mem_append_left _ hk, rfl⟩), fun F R o hd => ?_⟩
  · rw [append_assoc] at o
    exact Own.dropAll (o.perm (perm_append_comm_assoc ks ks' R))
  · rw [dropAll_live fun k hk => hb k (mem_append_right _ hk), dropAll_bytes]
    exact ⟨hl, rfl⟩
  · exact hd.sublist ((sublist_append_left ks ks').append_right F)

end

namespace Buffer

variable {A : Allocator} {h h' : Heap} {b b' : Buffer}

lemma reserve_step (hr : b.reserve A h n = (r, b', h')) : BufStep h b.pages h' b'.pages [] := by
  unfold reserve at hr
  split at hr
  · cases hr; exact .refl
  simp only at hr
  split at hr
  · cases hr
    exact (BufStep.of_same (sameHeap_tick h)).trans (.zeroed _)
  · cases hr; exact .of_same (sameHeap_tick h)

lemma zeroTail_step (hr : b.zeroTail A h = (r, b', h')) : BufStep h b.pages h' b'.pages [] := by
  unfold zeroTail at hr
  split at hr
  · cases hr; exact .refl
  rename_i ht
  split at hr
  · rename_i hz
    cases hr
    exact zeroRange_eq_error hz ▸ .of_same (sameHeap_tick h)
  rename_i k h₁ hz
  cases hr
  exact BufStep.set (b.tail_lt ht) (.zeroRange hz)

lemma reserveZeroed_step (hr : b.reserveZeroed A h n = (r, b', h')) : BufStep h b.pages h' b'.pages [] := by
  unfold reserveZeroed at hr
  split at hr
  · cases hr; exact .refl
  split at hr
  · rename_i ht; cases hr; exact zeroTail_step ht
  rename_i b1 h₁ ht
  have hdrop : BufStep h₁ (b1.drainFollowing.1.pages ++ b1.drainFollowing.2)
      (dropAll h₁ b1.drainFollowing.2) b1.drainFollowing.1.pages [] := .drop
  rw [show b1.drainFollowing.1.pages ++ b1.drainFollowing.2 = b1.pages from
    take_append_drop ..] at hdrop
  exact (zeroTail_step ht).trans (hdrop.trans (reserve_step hr))

lemma truncate_step {len : Nat} (hr : b.truncate A h len = (r, b', h')) : BufStep h b.pages h' b'.pages [] := by
  unfold truncate at hr
  split at hr
  · rename_i hz; cases hr; exact reserveZeroed_step hz
  rename_i b1 h₁ hz
  have hstep := reserveZeroed_step hz
  cases hr; exact hstep

lemma writePages_step : BufStep h ks (writePages A offset buf h i ks).2.2 (writePages A offset buf h i ks).2.1 [] := by
  induction ks generalizing h i with
  | nil => exact .refl
  | cons k ks ih =>
    unfold writePages
    split
    · split
      · rename_i hm
        exact makeMut_eq_error hm ▸ .of_same (sameHeap_tick h)
      · rename_i k' h₁ hm
        exact ((BufStep.write hm _).append_right ks).trans (ih.cons k')
    · exact ih.cons k

lemma write_step {r : Except Errno Nat} (hr : b.write A h offset buf = (r, b', h')) :
    BufStep h b.pages h' b'.pages [] := by
  unfold write at hr
  split at hr
  · rename_i hz; cases hr; exact reserveZeroed_step hz
  rename_i hz
  split at hr
  · cases hr; exact reserveZeroed_step hz
  split at hr
  · rename_i hres; cases hr; exact (reserveZeroed_step hz).trans (reserve_step hres)
  rename_i hres
  cases hr
  exact (reserveZeroed_step hz).trans ((reserve_step hres).trans writePages_step)

/-- `get_page` zero-reserves, and then replaces only its own page. -/
lemma getPage_rest {idx : Nat} {r : Except Errno KernelPage} (hlt : idx < b.pages.length)
    (hr : b.getPage A h idx shared = (r, b', h')) :
    ∃ r1 b1 h₁, b.reserveZeroed A h ((idx + 1) * 4096 - b.len) = (r1, b1, h₁) ∧
      BufStep h₁ b1.pages h' b'.pages (handedOut r) ∧
      (b'.pages = b1.pages ∨ ∃ k k1 k' h₂ h3, b1.pages[idx]? = some k ∧ b'.pages = b1.pages.set idx k' ∧
        (if shared then k.makeMut A h₁ true else (.ok k, h₁)) = (.ok k1, h₂) ∧
        (k' = k1 ∨ k1.clone A h₂ = (.ok k', h3))) ∧
      ∀ page, r = .ok page → b'.pages[idx]? = some page ∧ ∃ k k1 h₂, b1.pages[idx]? = some k ∧
        (if shared then k.makeMut A h₁ true else (.ok k, h₁)) = (.ok k1, h₂) ∧ page.content = k1.content := by
  unfold getPage at hr
  rw [if_neg (not_not_intro hlt)] at hr
  split at hr
  · rename_i hz
    cases hr
    exact ⟨_, _, _, hz, .refl, .inl rfl, fun _ he => nomatch he⟩
  rename_i b1 h₁ hz
  have hlt1 : idx < b1.pages.length := getPage_lt hz
  refine ⟨_, b1, h₁, hz, ?_⟩
  simp only at hr
  split at hr
  · rename_i e h₂ hm
    cases hr
    refine ⟨?_, .inl rfl, fun _ he => nomatch he⟩
    split at hm
    · exact makeMut_eq_error hm ▸ .of_same (sameHeap_tick _)
    · cases hm
  rename_i page h₂ hm
  have hmut : BufStep h₁ b1.pages h₂ (b1.setPage idx page).pages [] := by
    refine BufStep.set hlt1 ?_
    split at hm
    · exact BufStep.makeMut hm
    · cases hm; exact .refl
  have hget : b1.pages[idx]? = some (b1.pages.get ⟨idx, hlt1⟩) := List.getElem?_eq_getElem hlt1
  split at hr
  · rename_i hc
    cases hr
    refine ⟨hmut.trans (clone_eq_error hc ▸ .of_same (sameHeap_tick _)), .inr ?_, fun _ he => nomatch he⟩
    exact ⟨_, page, page, h₂, h₂, hget, rfl, hm, .inl rfl⟩
  rename_i page' h3 hc
  cases hr
  refine ⟨hmut.trans ?_, .inr ⟨_, page, page', h₂, _, hget, rfl, hm, .inr hc⟩, fun k he => ?_⟩
  · have hlt2 : idx < (b1.pages.set idx page).length := by rw [length_set]; exact hlt1
    have hclone : BufStep h₂ (b1.pages.set idx page) h' ((b1.pages.set idx page).set idx page')
        [page'] := BufStep.set hlt2 (by simpa using BufStep.clone hc)
    simpa [setPage, handedOut] using hclone
  · cases he
    exact ⟨by simp [setPage, hlt1], _, page, h₂, hget, hm, (clone_eq_ok hc).1⟩

lemma getPage_step {idx : Nat} {r : Except Errno KernelPage} (hr : b.getPage A h idx shared = (r, b', h')) :
    BufStep h b.pages h' b'.pages (handedOut r) := by
  by_cases hlt : idx < b.pages.length
  · obtain ⟨r1, b1, h₁, hz, hstep, -⟩ := getPage_rest hlt hr
    exact (reserveZeroed_step hz).trans hstep
  unfold getPage at hr
  rw [if_pos hlt] at hr
  cases hr
  exact .refl

end Buffer

end Mushroom.L2
