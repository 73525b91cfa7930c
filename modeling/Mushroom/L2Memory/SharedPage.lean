import Mushroom.L2Memory.FileString

/-!
# Pages that a file shares with its mappings

`get_page` with `shared` hands out a pointer to the frame of the file's page, and
a mapping keeps it. `reserve_zeroed` at a length at or below the page drops it
from the file and puts the zero page there, and nobody tells the mapping: from
then on the two never meet again (`shared_page_iff`).
-/
namespace Mushroom.L2
open List KernelPage Buffer

/-! ## The frame of a page -/

def HasFrame (ks : List KernelPage) (i f : Nat) : Prop := ∃ k, ks[i]? = some k ∧ k.content = f

section

variable {ks l : List KernelPage} {i f j : Nat} {A : Allocator} {h h' : Heap} {k k' : KernelPage}

lemma HasFrame.append (h : HasFrame ks i f) : HasFrame (ks ++ l) i f := by
  obtain ⟨k, hk, hf⟩ := h
  obtain ⟨hlt, -⟩ := List.getElem?_eq_some_iff.1 hk
  exact ⟨k, by rw [List.getElem?_append_left hlt, hk], hf⟩

lemma HasFrame.take {n : Nat} (h : HasFrame ks i f) (hi : i < n) : HasFrame (ks.take n) i f := by
  obtain ⟨k, hk, hf⟩ := h
  exact ⟨k, by rw [List.getElem?_take_of_lt hi, hk], hf⟩

lemma HasFrame.take_ne {n : Nat} (h : HasFrame ks i f) (hd : Distinct ks) (hf : f ≠ Heap.zeroFrame) (hi : n ≤ i) :
    ∀ k ∈ ks.take n, k.content ≠ f := by
  obtain ⟨k, hk, rfl⟩ := h
  obtain ⟨hlt, rfl⟩ := List.getElem?_eq_some_iff.1 hk
  intro k' hk' he
  obtain ⟨j, hj, rfl⟩ := getElem_of_mem hk'
  rw [length_take] at hj
  rw [getElem_take] at he
  have hpair := pairwise_iff_getElem.1 hd j i (by omega) hlt (by omega)
  exact hf (he ▸ hpair he)

lemma KernelPage.makeMut_shared (hk : k.content ≠ Heap.zeroFrame) : k.makeMut A h true = (.ok k, h) := by
  have hz : k.isZeroPage = false := by simp [isZeroPage, hk]
  simp [makeMut, hz]

lemma KernelPage.zeroRange_shared {a b : Nat} : (k.zeroRange A h a b true).1 = .ok k := by
  simp only [zeroRange, makeMut]
  split
  · rfl
  split
  · rfl
  · simp

/-- The loop of a write keeps the frames that are not the zero frame. -/
lemma HasFrame.pageLoop (hf : f ≠ Heap.zeroFrame) {lo hi : Nat}
    {upd : Nat → (Nat → UInt8) → (Nat → UInt8) × Bool} (hks : HasFrame ks i f) :
    HasFrame (L2.pageLoop A lo hi upd h j ks).2.1 i f := by
  induction ks generalizing h i j with
  | nil => exact hks
  | cons k ks ih =>
    -- the rest of the pages, behind any page in front
    have hrest : ∀ {k' : KernelPage} {ks' : List KernelPage} {i}, HasFrame ks' i f → HasFrame (k' :: ks') (i + 1) f :=
      fun h => h
    unfold L2.pageLoop
    cases i with
    | zero =>
      obtain ⟨k0, hk0, hc⟩ := hks
      cases hk0
      rw [makeMut_shared (hc ▸ hf)]
      split
      · simp only
        split <;> exact ⟨k, rfl, hc⟩
      · exact ⟨k, rfl, hc⟩
    | succ i =>
      have hks : HasFrame ks i f := hks
      split
      · split
        · exact hrest hks
        simp only
        split
        · exact hrest (ih hks)
        · exact hrest hks
      · exact hrest (ih hks)

end

/-! ## `reserve_zeroed` -/

section

variable {A : Allocator} {h h' : Heap} {b b' : Buffer} {n : Nat} {r : Except Errno Unit}

lemma Buffer.zeroTail_pages (hr : b.zeroTail A h = (r, b', h')) : r = .ok () ∧ b'.pages = b.pages ∧ b'.len = b.len := by
  unfold zeroTail at hr
  split at hr
  · cases hr
    exact ⟨rfl, rfl, rfl⟩
  rename_i ht
  have hz := zeroRange_shared (k := b.pages.get ⟨b.len / 4096, b.tail_lt ht⟩) (A := A) (h := h)
    (a := b.len % 4096) (b := 4096)
  split at hr
  · rename_i he
    rw [he] at hz
    cases hz
  rename_i k h1 he
  rw [he] at hz
  cases hz
  cases hr
  exact ⟨rfl, set_getElem_self (b.tail_lt ht), rfl⟩

lemma Buffer.reserve_pages (hr : b.reserve A h n = (r, b', h')) :
    ∃ m, b'.pages = b.pages ++ List.replicate m .zeroed := by
  unfold reserve at hr
  split at hr
  · cases hr
    exact ⟨0, (append_nil _).symm⟩
  simp only at hr
  split at hr
  · cases hr
    exact ⟨_, rfl⟩
  · cases hr
    exact ⟨0, (append_nil _).symm⟩

/-- `reserve_zeroed` of something: the pages behind the length are new. -/
lemma Buffer.reserveZeroed_pages (hr : b.reserveZeroed A h n = (r, b', h')) (hn : n ≠ 0) :
    ∃ m, b'.pages = b.pages.take ((b.len + 4095) / 4096) ++ List.replicate m .zeroed := by
  unfold reserveZeroed at hr
  rw [if_neg hn] at hr
  split at hr
  · rename_i ht
    cases (zeroTail_pages ht).1
  rename_i b1 h1 ht
  obtain ⟨-, hpages, hlen⟩ := zeroTail_pages ht
  obtain ⟨m, hm⟩ := reserve_pages hr
  refine ⟨m, ?_⟩
  simp only [drainFollowing, hpages, hlen] at hm
  exact hm

lemma Buffer.reserveZeroed_zero : b.reserveZeroed A h 0 = (.ok (), b, h) := if_pos rfl

end

/-! ## The operations -/

def FileOp.zeroReserved (b : Buffer) : FileOp → Nat
  | .write offset _ | .writeFromUser offset _ _ => offset - b.len
  | .truncate len => len - b.len
  | .getPage pageIdx _ => if pageIdx < b.pages.length then (pageIdx + 1) * 4096 - b.len else 0
  | _ => 0

/-- What an operation does after `reserve_zeroed`: it keeps the frames. -/
structure Rest (b₁ : Buffer) (h₁ : Heap) (s s' : FileState) : Prop where
  step : ∃ out, BufStep h₁ b₁.pages s'.heap s'.buffer.pages out ∧ s'.others = out ++ s.others
  keeps : ∀ i f, f ≠ Heap.zeroFrame → HasFrame b₁.pages i f → HasFrame s'.buffer.pages i f

def FileOp.isDrop : FileOp → Bool
  | .drop _ => true
  | _ => false

section

variable {A : Allocator} {h h' : Heap} {b b' : Buffer} {s : FileState}

lemma Rest.refl : Rest s.buffer s.heap s s := ⟨⟨[], .refl, rfl⟩, fun _ _ _ hf => hf⟩

lemma Buffer.writeWith_rest {offset len : Nat} {upd : Nat → (Nat → UInt8) → (Nat → UInt8) × Bool}
    {r : Except Errno Nat} (hr : b.writeWith A h offset len upd = (r, b', h')) (R : List KernelPage) :
    ∃ r1 b1 h1, b.reserveZeroed A h (offset - b.len) = (r1, b1, h1) ∧ Rest b1 h1 ⟨b, h, R⟩ ⟨b', h', R⟩ := by
  unfold writeWith at hr
  split at hr
  · rename_i hz
    cases hr
    exact ⟨_, _, _, hz, ⟨[], .refl, rfl⟩, fun _ _ _ hf => hf⟩
  rename_i b1 h1 hz
  refine ⟨_, b1, h1, hz, ?_⟩
  split at hr
  · cases hr
    exact ⟨⟨[], .refl, rfl⟩, fun _ _ _ hf => hf⟩
  split at hr
  · rename_i hres
    cases hr
    obtain ⟨m, hm⟩ := reserve_pages hres
    exact ⟨⟨[], reserve_step hres, rfl⟩, fun _ _ _ hf => hm ▸ hf.append⟩
  rename_i hres
  cases hr
  obtain ⟨m, hm⟩ := reserve_pages hres
  refine ⟨⟨[], (reserve_step hres).trans pageLoop_step, rfl⟩, fun i f h0 hf => ?_⟩
  exact HasFrame.pageLoop h0 (hm ▸ hf.append)

lemma Buffer.getPage_kept {idx : Nat} {shared : Bool} {r : Except Errno KernelPage} (hlt : idx < b.pages.length)
    (hr : b.getPage A h idx shared = (r, b', h')) (R : List KernelPage) :
    ∃ r1 b1 h1, b.reserveZeroed A h ((idx + 1) * 4096 - b.len) = (r1, b1, h1) ∧
      Rest b1 h1 ⟨b, h, R⟩ ⟨b', h', handedOut r ++ R⟩ := by
  obtain ⟨r1, b1, h1, hz, hstep, hpages, -⟩ := getPage_rest hlt hr
  refine ⟨r1, b1, h1, hz, ⟨_, hstep, rfl⟩, fun i f h0 hf => ?_⟩
  rcases hpages with hsame | ⟨k, k1, k', h2, h3, hk, hset, hmut, hclone⟩
  · simp only [hsame]
    exact hf
  simp only [hset]
  by_cases hi : idx = i
  · subst hi
    obtain ⟨k0, hk0, hc⟩ := hf
    cases hk.symm.trans hk0
    -- the page is not the zero page, so it stays
    have hk1 : k1 = k := by
      rw [makeMut_shared (hc ▸ h0)] at hmut
      split at hmut <;> cases hmut <;> rfl
    refine ⟨k', by rw [List.getElem?_set_self (List.getElem?_eq_some_iff.1 hk).1], ?_⟩
    rcases hclone with rfl | hclone
    · rw [hk1, hc]
    · rw [(clone_eq_ok hclone).1, hk1, hc]
  · obtain ⟨k0, hk0, hc⟩ := hf
    exact ⟨k0, by rw [List.getElem?_set_ne hi, hk0], hc⟩

/-- Every operation zero-reserves first, and keeps the frames then. -/
lemma FileState.exec_rest {s' : FileState} {op : FileOp} {r : FileResult} (hdrop : op.isDrop = false)
    (hst : s.exec A op = (r, s')) :
    ∃ r1 b1 h1, s.buffer.reserveZeroed A s.heap (op.zeroReserved s.buffer) = (r1, b1, h1) ∧ Rest b1 h1 s s' := by
  cases op with
  | write offset buf =>
    have hr : s.buffer.write A s.heap offset buf = (_, _, _) := rfl
    cases hst
    rw [write_eq_writeWith] at hr
    exact writeWith_rest hr s.others
  | writeFromUser offset u len =>
    have hr : s.buffer.writeFromUser A s.heap offset u len = (_, _, _) := rfl
    cases hst
    exact writeWith_rest hr s.others
  | truncate len =>
    cases hst
    simp only [FileOp.zeroReserved, truncate]
    split
    all_goals
      rename_i hz
      exact ⟨_, _, _, hz, ⟨[], .refl, rfl⟩, fun _ _ _ hf => hf⟩
  | getPage idx shared =>
    have hr : s.buffer.getPage A s.heap idx shared = (_, _, _) := rfl
    cases hst
    by_cases hlt : idx < s.buffer.pages.length
    · simp only [FileOp.zeroReserved, if_pos hlt]
      exact getPage_kept hlt hr s.others
    · simp only [FileOp.zeroReserved, if_neg hlt, getPage, if_pos hlt]
      exact ⟨_, _, _, reserveZeroed_zero, Rest.refl⟩
  | read offset buf | readToUser offset u len =>
    cases hst
    exact ⟨_, _, _, reserveZeroed_zero, Rest.refl⟩
  | drop i => cases hdrop

end

/-! ## Whole runs -/

def SameMemory (s : FileState) (i : Nat) (page : KernelPage) : Prop := HasFrame s.buffer.pages i page.content

def NoDrop (_ : FileState) (l : FileOp × FileResult) : Prop := l.1.isDrop = false

/-- The operation does not zero-reserve while the page is behind the length. -/
def KeepsPage (i : Nat) (s : FileState) (l : FileOp × FileResult) : Prop :=
  i * 4096 < s.buffer.len ∨ l.1.zeroReserved s.buffer = 0

structure HeldOutside (s : FileState) (f : Nat) : Prop where
  own : Own s.heap (s.buffer.pages ++ s.others)
  distinct : Distinct s.buffer.pages
  mapped : ∃ k ∈ s.others, k.content = f
  notZero : f ≠ Heap.zeroFrame

section

variable {A : Allocator} {s s' : FileState} {op : FileOp} {r : FileResult} {i f : Nat}

section

variable (hs : HeldOutside s f)

include hs

lemma HeldOutside.live : s.heap.live f := by
  obtain ⟨k, hk, rfl⟩ := hs.mapped
  exact hs.own.live (mem_append_right _ hk)

/-- The pages change and others are handed out, the frame is still in use. -/
lemma HeldOutside.step {b' : Buffer} {h' : Heap} {out : List KernelPage}
    (hstep : BufStep s.heap s.buffer.pages h' b'.pages out) : HeldOutside ⟨b', h', out ++ s.others⟩ f := by
  obtain ⟨k, hk, hf⟩ := hs.mapped
  refine ⟨(hstep.own s.others hs.own).perm (perm_append_comm_assoc ..), ?_, ⟨k, mem_append_right _ hk, hf⟩, hs.notZero⟩
  have := hstep.distinct [] s.others hs.own (by rw [append_nil]; exact hs.distinct)
  rwa [append_nil] at this

lemma HeldOutside.exec (hdrop : op.isDrop = false) (hst : s.exec A op = (r, s')) : HeldOutside s' f := by
  obtain ⟨r1, b1, h1, hz, ⟨out, hstep, hout⟩, -⟩ := FileState.exec_rest hdrop hst
  have := hs.step ((reserveZeroed_step hz).trans hstep)
  rwa [← hout] at this

/-- The page stays while nothing is zero-reserved behind it. -/
lemma HasFrame.exec (hf : HasFrame s.buffer.pages i f) (hdrop : op.isDrop = false)
    (hst : s.exec A op = (r, s')) (hk : KeepsPage i s (op, r)) : HasFrame s'.buffer.pages i f := by
  obtain ⟨r1, b1, h1, hz, hrest⟩ := FileState.exec_rest hdrop hst
  refine hrest.keeps i f hs.notZero ?_
  by_cases hn : op.zeroReserved s.buffer = 0
  · rw [hn, reserveZeroed_zero] at hz
    cases hz
    exact hf
  obtain ⟨m, hm⟩ := reserveZeroed_pages hz hn
  have hlt : i * 4096 < s.buffer.len := hk.resolve_right hn
  rw [hm]
  exact (hf.take (by omega)).append

/-- A page that the file does not have is not taken up by it. -/
lemma HeldOutside.foreign (hno : ∀ k ∈ s.buffer.pages, k.content ≠ f)
    (hdrop : op.isDrop = false) (hst : s.exec A op = (r, s')) : ∀ k ∈ s'.buffer.pages, k.content ≠ f := by
  obtain ⟨r1, b1, h1, hz, ⟨out, hstep, -⟩, -⟩ := FileState.exec_rest hdrop hst
  intro k hk
  exact ((reserveZeroed_step hz).trans hstep).foreign hs.notZero hs.live hno k (mem_append_right _ hk)

/-- A page behind the length goes with the first zero-reservation. -/
lemma HasFrame.lost (hf : HasFrame s.buffer.pages i f) (hdrop : op.isDrop = false)
    (hst : s.exec A op = (r, s')) (hk : ¬KeepsPage i s (op, r)) : ∀ k ∈ s'.buffer.pages, k.content ≠ f := by
  obtain ⟨r1, b1, h1, hz, ⟨out, hstep, -⟩, -⟩ := FileState.exec_rest hdrop hst
  rw [KeepsPage, not_or] at hk
  obtain ⟨m, hm⟩ := reserveZeroed_pages hz hk.2
  have hno : ∀ k ∈ b1.pages, k.content ≠ f := by
    intro k hmem
    rw [hm] at hmem
    rcases mem_append.1 hmem with hmem | hmem
    · exact hf.take_ne hs.distinct hs.notZero (by omega) k hmem
    rw [eq_of_mem_replicate hmem]
    exact hs.notZero.symm
  have hlive : h1.live f := (hs.step (reserveZeroed_step hz)).live
  intro k hmem
  exact hstep.foreign hs.notZero hlive hno k (mem_append_right _ hmem)

/-- The page is the same memory as long as every operation keeps it, and then never again. -/
lemma HasFrame.run (hf : HasFrame s.buffer.pages i f) {ls : List (FileOp × FileResult)}
    (hrun : ((bufferSystem A).only NoDrop).Run s ls s') :
    HasFrame s'.buffer.pages i f ↔ ((bufferSystem A).only fun s l => NoDrop s l ∧ KeepsPage i s l).Run s ls s' := by
  induction hrun with
  | nil s => exact iff_of_true hf (.nil s)
  | @cons s s1 s' l ls hst hrest ih =>
    obtain ⟨hdrop, hst⟩ := hst
    have hs1 := hs.exec hdrop hst
    by_cases hk : KeepsPage i s l
    · rw [ih hs1 (hf.exec hs hdrop hst hk)]
      constructor
      · intro hr
        exact .cons ⟨⟨hdrop, hk⟩, hst⟩ hr
      intro hr
      cases hr with
      | cons hst' hr =>
        have he : s.exec A l.1 = (l.2, _) := hst'.2
        cases he.symm.trans hst
        exact hr
    -- the file has lost the page
    · have hlost : ∀ k ∈ s'.buffer.pages, k.content ≠ f := by
        refine (hrest.keeps (P := fun s => HeldOutside s f ∧ ∀ k ∈ s.buffer.pages, k.content ≠ f) ?_
          ⟨hs1, hf.lost hs hdrop hst hk⟩).2
        rintro s l s' ⟨hs, hno⟩ ⟨hdrop, hst⟩
        exact ⟨hs.exec hdrop hst, hs.foreign hno hdrop hst⟩
      refine iff_of_false ?_ ?_
      · rintro ⟨k, hmem, hc⟩
        exact hlost k (mem_of_getElem? hmem) hc
      intro hr
      cases hr with
      | cons hst' _ => exact hk hst'.1.2

end

end

variable {page : KernelPage}

/-- What `get_page` hands out is the page of the file, and not the zero page. -/
lemma Buffer.getPage_shared {A : Allocator} {h h' : Heap} {b b' : Buffer} {i : Nat}
    {R : List KernelPage} (o : Own h (b.pages ++ R)) (hr : b.getPage A h i true = (.ok page, b', h')) :
    HasFrame b'.pages i page.content ∧ page.content ≠ Heap.zeroFrame := by
  have hlt : i < b.pages.length := by
    by_contra hlt
    rw [getPage, if_pos hlt] at hr
    cases hr
  obtain ⟨r1, b1, h1, hz, -, -, hpage⟩ := getPage_rest hlt hr
  obtain ⟨hget, k, k1, h2, hk, hmut, hc⟩ := hpage page rfl
  refine ⟨⟨page, hget, rfl⟩, ?_⟩
  obtain ⟨hi, rfl⟩ := List.getElem?_eq_some_iff.1 hk
  have o1 : Own h1 (b1.pages[i] :: (b1.pages.eraseIdx i ++ R)) :=
    ((reserveZeroed_step hz).own R o).perm ((getElem_cons_eraseIdx_perm hi).symm.append_right R)
  rw [hc]
  exact (o1.makeMut hmut).2.1

/-- What is stored through the mapping is in the file, and the other way round. -/
lemma SameMemory.byte {s : FileState} {i j : Nat} (h : SameMemory s i page) (hj : j < 4096)
    (hlen : i * 4096 + j < s.buffer.len) : s.buffer.byte s.heap (i * 4096 + j) = s.heap.bytes page.content j := by
  obtain ⟨k, hk, hc⟩ := h
  obtain ⟨hlt, rfl⟩ := List.getElem?_eq_some_iff.1 hk
  have hdiv : (i * 4096 + j) / 4096 = i := by omega
  have hmod : (i * 4096 + j) % 4096 = j := by omega
  rw [Buffer.byte, if_pos hlen, rawByte_of_lt (by omega)]
  simp only [hdiv, hmod, hc]

/-- **A shared mapping and its file.** The page `i` that `get_page` has handed out is the page of the file in a
later state exactly if no operation until then has zero-reserved while the file ended at or before it. -/
theorem shared_page_iff (A : Allocator) {s₀ s : FileState} (hr : (bufferSystem A).Reachable s₀) (i : Nat)
    {page : KernelPage} {b : Buffer} {h : Heap} (hget : s₀.buffer.getPage A s₀.heap i true = (.ok page, b, h))
    {ls : List (FileOp × FileResult)} (hrun : ((bufferSystem A).only NoDrop).Run ⟨b, h, page :: s₀.others⟩ ls s) :
    (SameMemory s i page ↔
      ((bufferSystem A).only fun s l => NoDrop s l ∧ KeepsPage i s l).Run ⟨b, h, page :: s₀.others⟩ ls s) ∧
    (SameMemory s i page → ∀ j < 4096, i * 4096 + j < s.buffer.len →
      s.buffer.byte s.heap (i * 4096 + j) = s.heap.bytes page.content j) := by
  obtain ⟨s1, ls1, h1, hrun1⟩ := hr
  obtain ⟨f1, -, hrel1⟩ := (buffer_sim A).init s1 h1
  obtain ⟨f0, -, hrel⟩ := (buffer_sim A).run hrun1 hrel1
  obtain ⟨hframe, hzero⟩ := getPage_shared hrel.own hget
  have hstep := getPage_step hget
  refine ⟨HasFrame.run ⟨?_, ?_, ⟨page, mem_cons_self .., rfl⟩, hzero⟩ hframe hrun, fun hsame j hj => hsame.byte hj⟩
  · exact (hstep.own s₀.others hrel.own).perm (perm_append_comm_assoc ..)
  have hd := hstep.distinct [] s₀.others hrel.own (by rw [append_nil]; exact hrel.distinct)
  rwa [append_nil] at hd

def oneByte : FileState := (FileState.exec bump ⟨.new, .fresh, []⟩ (.write 0 [7])).2

/-- The file after its page was handed out, which the mapping keeps. -/
def oneByteMapped : FileState := (FileState.exec bump oneByte (.getPage 0 true)).2

def mappedPage : KernelPage := ⟨2, some 4⟩

lemma oneByte_reachable : (bufferSystem bump).Reachable oneByte :=
  ⟨⟨.new, .fresh, []⟩, [(.write 0 [7], _)], ⟨rfl, own_fresh⟩, .cons rfl (.nil _)⟩

/-- Cut off and written again from the start, the file still has the page of the mapping. -/
theorem shared_page_rewritten : ∃ s ls, oneByte.buffer.getPage bump oneByte.heap 0 true =
      (.ok mappedPage, oneByteMapped.buffer, oneByteMapped.heap) ∧
    ((bufferSystem bump).only NoDrop).Run
      ⟨oneByteMapped.buffer, oneByteMapped.heap, mappedPage :: oneByte.others⟩ ls s ∧
    SameMemory s 0 mappedPage ∧ s.heap.bytes mappedPage.content 0 = 8 := by
  have hget : oneByte.buffer.getPage bump oneByte.heap 0 true =
      (.ok mappedPage, oneByteMapped.buffer, oneByteMapped.heap) := rfl
  have hkept : ((bufferSystem bump).only fun s l => NoDrop s l ∧ KeepsPage 0 s l).Run
      ⟨oneByteMapped.buffer, oneByteMapped.heap, mappedPage :: oneByte.others⟩
        [(.truncate 0, _), (.write 0 [8], _)] _ :=
    .cons ⟨⟨rfl, .inl (by decide)⟩, rfl⟩ (.cons ⟨⟨rfl, .inr (by decide)⟩, rfl⟩ (.nil _))
  have hrun : ((bufferSystem bump).only NoDrop).Run
      ⟨oneByteMapped.buffer, oneByteMapped.heap, mappedPage :: oneByte.others⟩
        [(.truncate 0, _), (.write 0 [8], _)] _ :=
    .cons ⟨rfl, rfl⟩ (.cons ⟨rfl, rfl⟩ (.nil _))
  exact ⟨_, _, hget, hrun, (shared_page_iff bump oneByte_reachable 0 hget hrun).1.2 hkept, by decide⟩

/-- Cut off and extended again, the file has another page: the mapping still reads 7. -/
theorem shared_page_lost : ∃ s ls, oneByte.buffer.getPage bump oneByte.heap 0 true =
      (.ok mappedPage, oneByteMapped.buffer, oneByteMapped.heap) ∧
    ((bufferSystem bump).only NoDrop).Run
      ⟨oneByteMapped.buffer, oneByteMapped.heap, mappedPage :: oneByte.others⟩ ls s ∧
    0 * 4096 < s.buffer.len ∧ s.buffer.byte s.heap 0 = 0 ∧ s.heap.bytes mappedPage.content 0 = 7 := by
  have hrun : ((bufferSystem bump).only NoDrop).Run
      ⟨oneByteMapped.buffer, oneByteMapped.heap, mappedPage :: oneByte.others⟩ [(.truncate 0, _), (.truncate 1, _)] _ :=
    .cons ⟨rfl, rfl⟩ (.cons ⟨rfl, rfl⟩ (.nil _))
  exact ⟨_, _, rfl, hrun, by decide, by decide, by decide⟩

end Mushroom.L2
