import Mushroom.L2Memory.Buffer

/-!
# The bytes of a file

`Buffer.byte` is what reading a file at an offset gives: the byte in its page
below the length, zero behind it. The pages may hold anything behind the
length, so this is not what the pages hold (`rawByte`); `reserve_zeroed` makes
the two agree before a file grows. From it follow `truncate_byte`, `write_byte`
and `getPage_bytes`: each operation does to the bytes what its name says.
-/
namespace Mushroom.L2
open List KernelPage Buffer

/-- The byte the pages `ks` hold at offset `i`. -/
def rawByte (h : Heap) (ks : List KernelPage) (i : Nat) : UInt8 :=
  match ks[i / 4096]? with
  | some k => h.bytes k.content (i % 4096)
  | none => 0

/-- kernel/memory/page/buffer.rs:70-110 -/
def Buffer.byte (h : Heap) (b : Buffer) (i : Nat) : UInt8 :=
  if i < b.len then rawByte h b.pages i else 0

variable {ks H ks' : List KernelPage} {i n j : Nat} {h : Heap}

lemma rawByte_of_lt (hi : i / 4096 < ks.length) : rawByte h ks i = h.bytes ks[i / 4096].content (i % 4096) := by
  simp [rawByte, List.getElem?_eq_getElem hi]

lemma rawByte_take (hi : i / 4096 < n) : rawByte h (ks.take n) i = rawByte h ks i := by
  simp only [rawByte, List.getElem?_take, if_pos hi]

lemma rawByte_zeroed (o : Own h H) (n i : Nat) : rawByte h (ks ++ List.replicate n zeroed) i = rawByte h ks i := by
  by_cases hi : i / 4096 < ks.length
  · simp [rawByte, List.getElem?_append_left hi]
  have hks : ks[i / 4096]? = none := List.getElem?_eq_none (Nat.not_lt.1 hi)
  simp only [rawByte, List.getElem?_append_right (Nat.not_lt.1 hi), List.getElem?_replicate, hks]
  by_cases hn : i / 4096 - ks.length < n
  · simp only [if_pos hn]
    exact congrFun o.zero _
  · simp [if_neg hn]

lemma Distinct.ne (hd : Distinct ks) {a b : Nat} (ha : a < ks.length) (hb : b < ks.length) (hab : a ≠ b)
    (hc : ks[a].content = ks[b].content) : ks[a].content = Heap.zeroFrame := by
  rcases Nat.lt_or_gt_of_ne hab with h | h
  · exact pairwise_iff_getElem.1 hd a b ha hb h hc
  · exact hc.trans (pairwise_iff_getElem.1 hd b a hb ha h hc.symm)

section

variable {A : Allocator} {h h' : Heap} {R : List KernelPage} {k' : KernelPage} {b b' : Buffer} {r : Except Errno Unit}
  {d : Nat → Nat} {shared : Bool}

lemma rawByte_set {t : Nat} (ht : t < ks.length) (o : Own h (ks ++ R)) (hd : Distinct ks)
    (hs : BufStep h [ks.get ⟨t, ht⟩] h' [k'] []) (hi : i / 4096 ≠ t) : rawByte h' (ks.set t k') i = rawByte h ks i := by
  have o' : Own h' (ks.set t k' ++ R) := (BufStep.set ht hs).own R o
  simp only [rawByte, List.getElem?_set_ne hi.symm]
  cases hk : ks[i / 4096]? with
  | none => rfl
  | some k =>
    obtain ⟨hlt, rfl⟩ := List.getElem?_eq_some_iff.1 hk
    by_cases h0 : ks[i / 4096].content = Heap.zeroFrame
    · simp [h0, o.zero, o'.zero]
    refine congrFun (hs.bytes _ h0 (o.live (mem_append_left _ (getElem_mem hlt))) ?_).2 _
    intro k hk' hc
    rw [mem_singleton] at hk'
    subst hk'
    exact h0 (hd.ne hlt ht hi hc.symm)

lemma rawByte_set_same {t : Nat} (ht : t < ks.length) (o : Own h (ks ++ R))
    (hd : Distinct ks) (hs : BufStep h [ks.get ⟨t, ht⟩] h' [k'] [])
    (hb : h'.bytes k'.content = h.bytes (ks.get ⟨t, ht⟩).content) (i : Nat) :
    rawByte h' (ks.set t k') i = rawByte h ks i := by
  by_cases hi : i / 4096 = t
  · subst hi
    simp [rawByte, List.getElem?_set_self ht, List.getElem?_eq_getElem ht, hb]
  · exact rawByte_set ht o hd hs hi

lemma Buffer.byte_zeroTail (o : Own h (b.pages ++ R)) (hd : Distinct b.pages)
    (hr : b.zeroTail A h = (.ok (), b', h')) (hi : i / 4096 < (b.len + 4095) / 4096) :
    rawByte h' b'.pages i = b.byte h i := by
  unfold zeroTail at hr
  split at hr
  · rename_i h0
    cases hr
    rw [byte, if_pos (by omega)]
  rename_i ht
  split at hr
  · cases hr
  rename_i k h1 hz
  cases hr
  have hlt := b.tail_lt ht
  by_cases hpage : i / 4096 = b.len / 4096
  · -- the page with the end of the file
    have o1 : Own h (b.pages.get ⟨b.len / 4096, hlt⟩ :: (b.pages.eraseIdx (b.len / 4096) ++ R)) :=
      o.perm ((getElem_cons_eraseIdx_perm hlt).symm.append_right R)
    have hbytes := (o1.zeroRange hz).2
    have hraw : rawByte h b.pages i = h.bytes (b.pages.get ⟨b.len / 4096, hlt⟩).content (i % 4096) := by
      rw [rawByte_of_lt (hpage ▸ hlt)]
      simp [hpage]
    have hraw' : rawByte h' (b.pages.set (b.len / 4096) k) i = h'.bytes k.content (i % 4096) := by
      simp [rawByte, hpage, List.getElem?_set_self hlt]
    show rawByte h' (b.pages.set _ k) i = _
    rw [hraw', hbytes, zeroedBytes, byte, hraw]
    by_cases hlen : i < b.len
    · rw [if_neg (by omega), if_pos hlen]
    · rw [if_pos (by omega), if_neg hlen]
  · rw [byte, if_pos (by omega)]
    exact rawByte_set hlt o hd (.zeroRange hz) hpage

lemma Buffer.byte_drained (o : Own h (b.pages ++ R)) (hd : Distinct b.pages)
    (ht : b.zeroTail A h = (.ok (), b', h')) : Own (dropAll h' b'.drainFollowing.2) (b'.drainFollowing.1.pages ++ R) ∧
      ∀ i, rawByte (dropAll h' b'.drainFollowing.2) b'.drainFollowing.1.pages i = b.byte h i := by
  have hlen := (zeroTail_len ht).1
  have o1 : Own h' (b'.pages ++ R) := (zeroTail_step ht).own R o
  constructor
  · refine Own.dropAll (o1.perm ?_)
    rw [← take_append_drop ((b'.len + 4095) / 4096) b'.pages, append_assoc]
    exact (perm_append_comm_assoc ..).trans (by simp only [drainFollowing]; exact List.Perm.refl _)
  intro i
  by_cases hi : i / 4096 < (b.len + 4095) / 4096
  · have hraw := byte_zeroTail o hd ht hi
    simp only [drainFollowing, hlen]
    rw [rawByte_take hi]
    simpa only [rawByte, dropAll_bytes] using hraw
  · rw [byte, if_neg (by omega), rawByte, List.getElem?_eq_none]
    simp only [drainFollowing, length_take, hlen]
    omega

section

variable (o : Own h (b.pages ++ R))

include o

lemma Buffer.reserve_raw (hr : b.reserve A h n = (r, b', h')) :
    b'.len = b.len ∧ ∀ i, rawByte h' b'.pages i = rawByte h b.pages i := by
  unfold reserve at hr
  split at hr
  · cases hr
    exact ⟨rfl, fun _ => rfl⟩
  simp only at hr
  split at hr
  · cases hr
    exact ⟨rfl, rawByte_zeroed (o.same (sameHeap_tick h)) _⟩
  · cases hr
    exact ⟨rfl, fun _ => rfl⟩

variable (hd : Distinct b.pages)
include hd

/-- After a reservation the pages hold the bytes of the file. -/
lemma Buffer.byte_reserveZeroed (hn : n ≠ 0)
    (hr : b.reserveZeroed A h n = (.ok (), b', h')) (i : Nat) : rawByte h' b'.pages i = b.byte h i := by
  unfold reserveZeroed at hr
  rw [if_neg hn] at hr
  split at hr
  · cases hr
  rename_i b1 h1 ht
  obtain ⟨o1, hraw⟩ := byte_drained o hd ht
  rw [(reserve_raw o1 hr).2, hraw]

lemma Buffer.reserveZeroed_same (hr : b.reserveZeroed A h n = (r, b', h')) :
    b'.len = b.len ∧ ∀ i, b'.byte h' i = b.byte h i := by
  unfold reserveZeroed at hr
  split at hr
  · cases hr
    exact ⟨rfl, fun _ => rfl⟩
  split at hr
  · rename_i e b1 h1 ht
    cases hr
    unfold zeroTail at ht
    split at ht
    · cases ht
    split at ht
    · rename_i hz
      have hh := zeroRange_eq_error hz
      cases ht
      rw [hh]
      exact ⟨rfl, fun _ => rfl⟩
    · cases ht
  · rename_i b1 h1 ht
    obtain ⟨o1, hraw⟩ := byte_drained o hd ht
    obtain ⟨hlen, hres⟩ := reserve_raw o1 hr
    have hlen' : b'.len = b.len := hlen.trans (zeroTail_len ht).1
    refine ⟨hlen', fun i => ?_⟩
    rw [byte, hres, hraw, hlen', byte]
    split <;> rfl

/-- **`truncate`** cuts the file off, or extends it with zeros. -/
lemma Buffer.truncate_byte {len : Nat} (hr : b.truncate A h len = (.ok (), b', h')) :
    b'.len = len ∧ ∀ i, b'.byte h' i = if i < len then b.byte h i else 0 := by
  unfold truncate at hr
  split at hr
  · cases hr
  rename_i b1 h1 hz
  have hraw := fun hn => byte_reserveZeroed (A := A) o hd hn hz
  simp only [Prod.mk.injEq, true_and] at hr
  obtain ⟨rfl, rfl⟩ := hr
  refine ⟨rfl, fun i => ?_⟩
  by_cases hi : i < len
  · simp only [byte, if_pos hi]
    by_cases hn : len - b.len = 0
    · unfold reserveZeroed at hz
      rw [if_pos hn] at hz
      cases hz
      rw [if_pos (by omega)]
    · rw [hraw hn, byte]
  · simp [byte, if_neg hi]

end

def overwritten (offset : Nat) (buf : List UInt8) (i : Nat) (v : UInt8) : UInt8 :=
  if offset ≤ i then (buf[i - offset]?).getD v else v

variable {offset : Nat} {buf : List UInt8}

lemma overwritten_outside (v : UInt8) (hi : i < offset ∨ offset + buf.length ≤ i) : overwritten offset buf i v = v := by
  unfold overwritten
  split
  · rw [List.getElem?_eq_none (by omega)]; rfl
  · rfl

lemma rawByte_cons (k : KernelPage) (ks : List KernelPage) (i : Nat) :
    rawByte h (k :: ks) i = if i < 4096 then h.bytes k.content i else rawByte h ks (i - 4096) := by
  by_cases hi : i < 4096
  · have h0 : i / 4096 = 0 := by omega
    have hm : i % 4096 = i := by omega
    simp [rawByte, h0, hm, if_pos hi]
  · have h0 : i / 4096 = (i - 4096) / 4096 + 1 := by omega
    have hm : i % 4096 = (i - 4096) % 4096 := by omega
    rw [rawByte, h0, List.getElem?_cons_succ, hm, if_neg hi, rawByte]

lemma overwritten_take (offset : Nat) (buf : List UInt8) (m i : Nat) (v : UInt8) :
    overwritten offset (buf.take m) i v = if i < offset + m then overwritten offset buf i v else v := by
  unfold overwritten
  by_cases ho : offset ≤ i
  · rw [if_pos ho, if_pos ho, List.getElem?_take]
    by_cases hm : i < offset + m
    · rw [if_pos (by omega), if_pos hm]
    rw [if_neg (by omega), if_neg hm]
    rfl
  · rw [if_neg ho, if_neg ho]
    split <;> rfl

/-! ## The loops of `write` and `write_from_user` -/

/-- Makes the pages from index `i` on that lie in `lo..hi` mutable and lets `upd` change their bytes, until
that fails. -/
def pageLoop (A : Allocator) (lo hi : Nat) (upd : Nat → (Nat → UInt8) → (Nat → UInt8) × Bool) (h : Heap) :
    Nat → List KernelPage → Except Errno Unit × List KernelPage × Heap
  | _, [] => (.ok (), [], h)
  | i, k :: ks =>
    if lo ≤ i ∧ i < hi then
      match k.makeMut A h true with
      | (.error e, h) => (.error e, k :: ks, h)
      | (.ok k, h) =>
        let r := upd i (h.bytes k.content)
        let h := h.setBytes k.content r.1
        if r.2 then
          let r := pageLoop A lo hi upd h (i + 1) ks
          (r.1, k :: r.2.1, r.2.2)
        else (.error .fault, k :: ks, h)
    else
      let r := pageLoop A lo hi upd h (i + 1) ks
      (r.1, k :: r.2.1, r.2.2)

lemma writePages_eq_pageLoop (A : Allocator) (offset : Nat) (buf : List UInt8) (h : Heap) (i : Nat)
    (ks : List KernelPage) : writePages A offset buf h i ks =
      pageLoop A (offset / 4096) ((offset + buf.length + 4095) / 4096)
        (fun i v => (writtenBytes offset buf i v, true)) h i ks := by
  induction ks generalizing h i with
  | nil => rfl
  | cons k ks ih => rcases hk : k.makeMut A h true with ⟨_ | _, _⟩ <;> simp only [writePages, pageLoop, hk, ih, if_true]

variable {hi lo : Nat} {upd : Nat → (Nat → UInt8) → (Nat → UInt8) × Bool} {k : KernelPage}

lemma pageLoop_length : (pageLoop A lo hi upd h i ks).2.1.length = ks.length := by
  induction ks generalizing h i with
  | nil => rfl
  | cons k ks ih =>
    unfold pageLoop
    split
    · split
      · rfl
      simp only
      split
      · simp [ih]
      · rfl
    · simp [ih]

lemma pageLoop_step : BufStep h ks (pageLoop A lo hi upd h i ks).2.2 (pageLoop A lo hi upd h i ks).2.1 [] := by
  induction ks generalizing h i with
  | nil => exact .refl
  | cons k ks ih =>
    unfold pageLoop
    split
    · split
      · rename_i hm
        exact makeMut_eq_error hm ▸ .of_same (sameHeap_tick h)
      rename_i k' h1 hm
      simp only
      split
      · exact ((BufStep.write hm _).append_right ks).trans (ih.cons k')
      · exact (BufStep.write hm _).append_right ks
    · exact ih.cons k

lemma pageLoop_other (o : Own h (k :: (ks ++ R))) (hd : Distinct (k :: ks)) :
    (pageLoop A lo hi upd h i ks).2.2.bytes k.content = h.bytes k.content := by
  have hs : BufStep h ks (pageLoop A lo hi upd h i ks).2.2 (pageLoop A lo hi upd h i ks).2.1 [] :=
    pageLoop_step
  have o' := hs.own (k :: R) (o.perm perm_middle.symm)
  by_cases h0 : k.content = Heap.zeroFrame
  · rw [h0, o.zero, o'.zero]
  refine (hs.bytes _ h0 (o.live (mem_cons_self ..)) fun k' hk' hc => ?_).2
  exact h0 ((pairwise_cons.1 hd).1 k' hk' hc.symm)

/-- For the loop to put `data` at `offset`, a page's update delivers its bytes of `data`, some of them if it fails. -/
structure Delivers (offset : Nat) (data : List UInt8) (i m : Nat)
    (upd : (Nat → UInt8) → (Nat → UInt8) × Bool) : Prop where
  le : m ≤ data.length
  bytes : ∀ v j, j < 4096 → (upd v).1 j = overwritten offset (data.take m) (i * 4096 + j) (v j)
  all : ∀ v, (upd v).2 = true → (i + 1) * 4096 ≤ offset + m ∨ m = data.length
  some : ∀ v, (upd v).2 = false → i * 4096 ≤ offset + m ∧ offset + m ≤ (i + 1) * 4096

variable {data : List UInt8}

/-- The loop puts the bytes where they belong, all of them or as many as it
gets to. -/
lemma pageLoop_raw
    (hu : ∀ i, offset / 4096 ≤ i → i < (offset + data.length + 4095) / 4096 → Delivers offset data i (d i) (upd i))
    (o : Own h (ks ++ R)) (hd : Distinct ks) : ∃ m ≤ data.length, (n * 4096 ≤ offset + m ∨ m = data.length) ∧
      ((pageLoop A (offset / 4096) ((offset + data.length + 4095) / 4096) upd h n ks).1 = .ok () → m = data.length) ∧
      ∀ i, i / 4096 < ks.length →
        rawByte (pageLoop A (offset / 4096) ((offset + data.length + 4095) / 4096) upd h n ks).2.2
            (pageLoop A (offset / 4096) ((offset + data.length + 4095) / 4096) upd h n ks).2.1 i =
          overwritten offset (data.take m) (n * 4096 + i) (rawByte h ks i) := by
  induction ks generalizing h R n with
  | nil => exact ⟨data.length, Nat.le_refl _, .inr rfl, fun _ => rfl, fun i hi => by simp at hi⟩
  | cons k ks ih =>
    have hnext : ∀ i, (n + 1) * 4096 + (i - 4096) = n * 4096 + (4096 + (i - 4096)) := by
      intro i
      grind
    unfold pageLoop
    split
    · rename_i hrange
      obtain ⟨hle, hbytes, hall, hsome⟩ := hu n hrange.1 hrange.2
      split
      · -- no memory for a copy: nothing from here on
        rename_i e h1 hm
        have hh := makeMut_eq_error hm
        refine ⟨n * 4096 - offset, by omega, by omega, by simp, fun i hi => ?_⟩
        rw [overwritten_outside _ (by rw [length_take]; omega), hh]
        rfl
      rename_i k' h1 hm
      have hmoved := (makeMut_moved hm).bytes
      have hw := BufStep.write hm (upd n (h1.bytes k'.content)).1
      have o' : Own (h1.setBytes k'.content (upd n (h1.bytes k'.content)).1) (k' :: (ks ++ R)) :=
        hw.own (ks ++ R) o
      have hd' : Distinct (k' :: ks) := hw.distinct ks R o hd
      have hset : ∀ i, 4096 ≤ i → rawByte (h1.setBytes k'.content (upd n (h1.bytes k'.content)).1) ks
          (i - 4096) = rawByte h ks (i - 4096) := by
        intro i hi
        have : rawByte _ ((k :: ks).set 0 k') i = rawByte h (k :: ks) i :=
          rawByte_set (t := 0) (by simp) o hd hw (by omega)
        rwa [set_cons_zero, rawByte_cons, rawByte_cons, if_neg (by omega), if_neg (by omega)] at this
      have hhead : ∀ i, i < 4096 → (upd n (h1.bytes k'.content)).1 i =
          overwritten offset (data.take (d n)) (n * 4096 + i) (h.bytes k.content i) := by
        intro i hi
        rw [hbytes _ _ hi, hmoved]
      simp only
      split
      · rename_i hok
        obtain ⟨m, hm1, hm2, hm3, hraw⟩ :=
          ih (n := n + 1) (o'.perm perm_middle.symm) (pairwise_cons.1 hd').2
        refine ⟨m, hm1, hm2.imp_left (by omega), hm3, fun i hi => ?_⟩
        rw [rawByte_cons, rawByte_cons]
        split
        · rename_i hlt
          have hpage := hall _ hok
          rw [pageLoop_other o' hd']
          simp only [Heap.setBytes, if_true]
          rw [hhead i hlt, overwritten_take, overwritten_take]
          by_cases hin : n * 4096 + i < offset + data.length
          · rw [if_pos (by omega), if_pos (by omega)]
          rw [overwritten_outside _ (.inr (by omega))]
          simp
        · rename_i hge
          rw [hraw _ (by simp only [length_cons] at hi; omega), hnext, hset i (by omega),
            Nat.add_sub_cancel' (Nat.not_lt.1 hge)]
      · rename_i hfault
        obtain ⟨hlow, hhigh⟩ := hsome _ (by simpa using hfault)
        refine ⟨d n, hle, .inl hlow, by simp, fun i hi => ?_⟩
        rw [rawByte_cons, rawByte_cons]
        split
        · rename_i hlt
          simp only [Heap.setBytes, if_true]
          exact hhead i hlt
        · rename_i hge
          rw [hset i (by omega), overwritten_outside _ (by rw [length_take]; omega)]
    · rename_i hrange
      obtain ⟨m, hm1, hm2, hm3, hraw⟩ :=
        ih (n := n + 1) (o.perm perm_middle.symm) (pairwise_cons.1 hd).2
      refine ⟨m, hm1, hm2.imp_left (by omega), hm3, fun i hi => ?_⟩
      rw [rawByte_cons, rawByte_cons]
      split
      · rw [pageLoop_other o hd, overwritten_outside]
        rw [length_take]
        omega
      · rename_i hge
        rw [hraw _ (by simp only [length_cons] at hi; omega), hnext, Nat.add_sub_cancel' (Nat.not_lt.1 hge)]

lemma writtenBytes_delivers (offset : Nat) (buf : List UInt8) (i : Nat) :
    Delivers offset buf i buf.length fun v => (writtenBytes offset buf i v, true) := by
  refine ⟨Nat.le_refl _, fun v j _ => ?_, fun _ _ => .inr rfl, nofun⟩
  rw [take_length]
  rfl

lemma BufStep.keeps_distinct (hs : BufStep h ks h' ks' []) (o : Own h (ks ++ R)) (hd : Distinct ks) : Distinct ks' := by
  have := hs.distinct [] R o (by rw [append_nil]; exact hd)
  rwa [append_nil] at this

variable (o : Own h (b.pages ++ R)) (hd : Distinct b.pages)
include o hd

/-- Below the old length, and everywhere if the loop comes to its end, the pages hold the bytes of the file
with the new ones put over them. -/
lemma Buffer.pageLoop_byte {b1 b2 : Buffer} {h1 h2 : Heap}
    (hz : b.reserveZeroed A h (offset - b.len) = (.ok (), b1, h1))
    (hres : b1.reserve A h1 (offset + data.length - b1.len) = (.ok (), b2, h2))
    (hu : ∀ i, offset / 4096 ≤ i → i < (offset + data.length + 4095) / 4096 → Delivers offset data i (d i) (upd i)) {r}
    (hl : pageLoop A (offset / 4096) ((offset + data.length + 4095) / 4096) upd h2 0 b2.pages = r) : ∃ m ≤ data.length,
      (r.1 = .ok () → m = data.length) ∧ ∀ i, i < b.len ∨ m = data.length → i < max b.len (offset + data.length) →
        rawByte r.2.2 r.2.1 i = overwritten offset (data.take m) i (b.byte h i) := by
  subst hl
  have hstep := reserveZeroed_step hz
  have o1 : Own h1 (b1.pages ++ R) := hstep.own R o
  have hd1 : Distinct b1.pages := hstep.keeps_distinct o hd
  have hstep2 := reserve_step hres
  have o2 : Own h2 (b2.pages ++ R) := hstep2.own R o1
  have hd2 : Distinct b2.pages := hstep2.keeps_distinct o1 hd1
  obtain ⟨hlen1, hsame⟩ := reserveZeroed_same o hd hz
  obtain ⟨hlen2, hraw2⟩ := reserve_raw o1 hres
  have hfits := (reserve_fits hres).2
  -- below the length, and in a gap in front of the offset
  have hold : ∀ i, i < b.len ∨ b.len < offset → rawByte h2 b2.pages i = b.byte h i := by
    intro i hi
    rw [hraw2]
    by_cases hgap : b.len < offset
    · exact byte_reserveZeroed o hd (by omega) hz i
    · rw [← hsame i, byte, if_pos (by omega)]
  obtain ⟨m, hm, -, hok, hraw⟩ := pageLoop_raw (A := A) (n := 0) hu o2 hd2
  refine ⟨m, hm, hok, fun i hi hlt => ?_⟩
  rw [hraw i (by omega), Nat.zero_mul, Nat.zero_add]
  by_cases hin : offset ≤ i ∧ i < offset + m
  · -- the bytes written, whatever was there before
    unfold overwritten
    rw [if_pos hin.1, if_pos hin.1, List.getElem?_eq_getElem (by rw [length_take]; omega)]
    rfl
  · rw [overwritten_outside _ (by rw [length_take]; omega), overwritten_outside _ (by rw [length_take]; omega)]
    exact hold i (by omega)

/-- **`write`** puts the bytes at the offset; a gap behind the old end reads as zeros. -/
lemma Buffer.write_byte (hr : b.write A h offset buf = (.ok n, b', h')) :
    n = buf.length ∧ (buf ≠ [] → b'.len = max b.len (offset + buf.length)) ∧
      (buf = [] → b'.len = b.len) ∧ ∀ i, b'.byte h' i = overwritten offset buf i (b.byte h i) := by
  unfold write at hr
  split at hr
  · cases hr
  rename_i b1 h1 hz
  obtain ⟨hlen1, hsame⟩ := reserveZeroed_same o hd hz
  split at hr
  · rename_i hnil
    cases hr
    subst hnil
    refine ⟨rfl, fun h => absurd rfl h, fun _ => hlen1, fun i => ?_⟩
    rw [hsame, overwritten_outside _ (by simp only [length_nil]; omega)]
  rename_i hne
  split at hr
  · cases hr
  rename_i b2 h2 hres
  have hlen2 := (reserve_fits hres).1
  simp only [Prod.mk.injEq] at hr
  obtain ⟨hrok, rfl, rfl⟩ := hr
  obtain ⟨m, -, hm, hraw⟩ :=
    pageLoop_byte o hd hz hres (fun i _ _ => writtenBytes_delivers offset buf i) rfl
  rw [← writePages_eq_pageLoop] at hm hraw
  have hok : (writePages A offset buf h2 0 b2.pages).1 = .ok () := by
    cases hw : (writePages A offset buf h2 0 b2.pages).1 with
    | ok u => rfl
    | error e => rw [hw] at hrok; cases hrok
  rw [hok] at hrok
  refine ⟨by cases hrok; rfl, fun _ => by simp only [hok, hlen2, hlen1], fun h => absurd h hne, fun i => ?_⟩
  simp only [byte, hok, hlen2, hlen1]
  by_cases hi : i < max b.len (offset + buf.length)
  · rw [if_pos hi, hraw i (.inr (hm hok)) hi, hm hok, take_length, byte]
  · rw [if_neg hi, if_neg (by omega), overwritten_outside _ (by omega)]

/-- **`get_page`** hands out a page with the bytes of the file. -/
lemma Buffer.getPage_bytes {idx : Nat} (hr : b.getPage A h idx shared = (.ok k, b', h')) (hj : j < 4096) :
    h'.bytes k.content j = b.byte h (idx * 4096 + j) := by
  unfold getPage at hr
  split at hr
  · cases hr
  rename_i hidx
  split at hr
  · cases hr
  rename_i b1 h1 hz
  have hlt := getPage_lt hz
  have hdiv : (idx * 4096 + j) / 4096 = idx := by omega
  have hmod : (idx * 4096 + j) % 4096 = j := by omega
  have hpage : h1.bytes (b1.pages.get ⟨idx, hlt⟩).content j = b.byte h (idx * 4096 + j) := by
    have hraw : rawByte h1 b1.pages (idx * 4096 + j) = h1.bytes (b1.pages.get ⟨idx, hlt⟩).content j := by
      rw [rawByte, hdiv, hmod, List.getElem?_eq_getElem hlt]
      rfl
    rw [← hraw]
    by_cases hn : (idx + 1) * 4096 - b.len = 0
    · unfold reserveZeroed at hz
      rw [if_pos hn] at hz
      cases hz
      rw [byte, if_pos (by omega)]
    · exact byte_reserveZeroed o hd hn hz _
  simp only at hr
  split at hr
  · cases hr
  rename_i page h2 hm
  have hmut : h2.bytes page.content = h1.bytes (b1.pages.get ⟨idx, hlt⟩).content := by
    split at hm
    · exact (makeMut_moved hm).bytes
    · cases hm; rfl
  split at hr
  · cases hr
  rename_i page' h3 hc
  cases hr
  obtain ⟨hcont, hbytes, -⟩ := clone_eq_ok hc
  rw [hcont, hbytes, hmut, hpage]

lemma Buffer.getPage_same {idx : Nat} {r : Except Errno KernelPage} (hr : b.getPage A h idx shared = (r, b', h')) :
    b'.len = b.len ∧ ∀ i, b'.byte h' i = b.byte h i := by
  unfold getPage at hr
  split at hr
  · cases hr
    exact ⟨rfl, fun _ => rfl⟩
  split at hr
  · rename_i hz
    cases hr
    exact reserveZeroed_same o hd hz
  rename_i b1 h1 hz
  obtain ⟨hlen, hsame⟩ := reserveZeroed_same o hd hz
  have hstep := reserveZeroed_step hz
  have o1 : Own h1 (b1.pages ++ R) := hstep.own R o
  have hd1 := hstep.keeps_distinct o hd
  have hlt := getPage_lt hz
  simp only at hr
  split at hr
  · rename_i hm
    cases hr
    have hh : h' = { h1 with clock := h1.clock + 1 } := by
      split at hm
      · exact makeMut_eq_error hm
      · cases hm
    rw [hh]
    exact ⟨hlen, hsame⟩
  rename_i page h2 hm
  have hraw : ∀ i, rawByte h2 (b1.pages.set idx page) i = rawByte h1 b1.pages i := by
    split at hm
    · exact rawByte_set_same hlt o1 hd1 (.makeMut hm) (makeMut_moved hm).bytes
    cases hm
    exact rawByte_set_same hlt o1 hd1 .refl rfl
  have hbyte : ∀ i, (b1.setPage idx page).byte h2 i = b.byte h i := by
    intro i
    rw [← hsame i]
    simp [byte, setPage, hraw]
  split at hr
  · rename_i hc
    cases hr
    rw [clone_eq_error hc]
    exact ⟨hlen, hbyte⟩
  rename_i page' h3 hc
  cases hr
  obtain ⟨hcont, hbytes, -⟩ := clone_eq_ok hc
  refine ⟨hlen, fun i => ?_⟩
  rw [← hbyte i]
  have hpage : rawByte h' (b1.pages.set idx page') i = rawByte h2 (b1.pages.set idx page) i := by
    simp only [rawByte, hbytes]
    by_cases hi : i / 4096 = idx
    · simp [hi, List.getElem?_set_self hlt, hcont]
    · simp [List.getElem?_set_ne (Ne.symm hi)]
  show (if i < b1.len then rawByte h' (b1.pages.set idx page') i else 0) = _
  rw [hpage]
  rfl

end

end Mushroom.L2
