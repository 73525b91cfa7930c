import Mushroom.L2Memory.FrameLedger

/-!
# Steps of the frame allocator

Each kind of step keeps the invariant: a step that moves a count between the
shared arrays and its CPU moves the same amount on both sides, and leaves what
the other CPUs rely on.
-/
namespace Mushroom.L2.FrameAlloc
open Option Function Ledger Cpu PrivateState Pc FrameAlloc

variable {ι : Type} [Fintype ι] [DecidableEq ι]

section

variable {A A' : Slots} {s : State ι} {i : ι} {guard : Option PrivateState} {pc pc' : Pc} {st st' : PrivateState}
  {m : Memory} {g : GroupIndex} {c : ChunkIndex} {f : Frame} {slot : SlotIndex}

lemma Inv.move (h : Inv A s) {y : Cpu} {live : Frame → Option (GroupIndex × ChunkIndex)}
    (hc : Counts A' m (books (update s.cpus i y))) (hu : Uses A' m live (books (update s.cpus i y)))
    (hp : Plugs A' m (books (update s.cpus i y))) (hr : ∀ j, j ≠ i → Rely A A' s.mem m (s.cpus j)) (hy : y.Ok A' m) :
    Inv A' ⟨m, live, update s.cpus i y⟩ := by
  refine ⟨hc, hu, hp, fun j => ?_⟩
  by_cases hj : j = i
  · subst hj
    simp only [update_self]
    exact hy
  · simp only [update_of_ne hj]
    exact (h.cpus j).rely (hr j hj)

/-- A step that touches nothing shared and moves no count. -/
lemma Inv.quiet (h : Inv A s) {y : Cpu} (hw : ∀ k, y.weigh k = (s.cpus i).weigh k) (hy : y.Ok A s.mem) :
    Inv A { s with cpus := update s.cpus i y } := by
  have hb := books_quiet hw
  exact h.move (hb ▸ h.counts) (hb ▸ h.uses) (hb ▸ h.plugs) (fun j _ => .congr A _ rfl rfl rfl) hy

omit [Fintype ι] [DecidableEq ι] in
lemma owner_pos (hx : s.cpus i = ⟨guard, pc⟩) (hp : pc.private? = some st) :
    0 < (s.cpus i).weigh (.own st.groupIdx) := by rw [hx]; exact Cpu.own_pos (.inr hp)

omit [DecidableEq ι] in
lemma Inv.cpu (h : Inv A s) (hx : s.cpus i = ⟨guard, pc⟩) : Cpu.Ok A s.mem ⟨guard, pc⟩ := hx ▸ h.cpus i

omit [DecidableEq ι] in
lemma pc_weigh_le (hx : s.cpus i = ⟨guard, pc⟩) (k : Key) : pc.weigh k ≤ books s.cpus k := by
  have h := le_books s.cpus i k
  rw [hx] at h
  exact (Nat.le_add_left _ _).trans h

lemma books_pc (hx : s.cpus i = ⟨guard, pc⟩) (pc' : Pc) (k : Key) :
    books (update s.cpus i ⟨guard, pc'⟩) k + pc.weigh k = books s.cpus k + pc'.weigh k := by
  have h := books_update s.cpus i ⟨guard, pc'⟩ k
  rw [hx] at h
  simp only [Cpu.weigh] at h
  omega

lemma Inv.quietPc (h : Inv A s) (hx : s.cpus i = ⟨guard, pc⟩) (hw : ∀ k, pc'.weigh k = pc.weigh k)
    (ht : pc'.allocating → pc.allocating) (hy : pc'.Ok A s.mem) :
    Inv A { s with cpus := update s.cpus i ⟨guard, pc'⟩ } := by
  have hi := h.cpu hx
  refine h.quiet (fun k => ?_) ⟨hi.guard, fun ha => hi.taken (ht ha), hy⟩
  rw [hx]
  simp [Cpu.weigh, hw]

variable {n bits : Nat} {k : After}

section

variable (h : Inv A s) (hx : s.cpus i = ⟨guard, pc⟩)
include h hx

/-- A count moves between `l1` and the CPU. -/
lemma Inv.setL1 (hc : Counts A (s.mem.setL1 g c n) (books (update s.cpus i ⟨guard, pc'⟩)))
    (hpend : ∀ f, pc'.weigh (.pending f) = pc.weigh (.pending f))
    (hheld : ∀ slot, pc'.weigh (.held slot) = pc.weigh (.held slot))
    (ht : pc'.allocating → pc.allocating) (hy : pc'.Ok A (s.mem.setL1 g c n)) :
    Inv A { s with mem := s.mem.setL1 g c n, cpus := update s.cpus i ⟨guard, pc'⟩ } := by
  have hi := h.cpu hx
  have hb := books_pc hx pc'
  refine h.move hc ?_ ?_ (fun j _ => .congr A _ rfl rfl rfl)
    ⟨hi.guard, fun ha => hi.taken (ht ha), hy⟩
  · refine h.uses.congr rfl fun f => ?_
    have := hb (.pending f)
    have := hpend f
    omega
  · refine h.plugs.congr rfl rfl (fun slot => ?_) h.plugs.unowned
    have := hb (.held slot)
    have := hheld slot
    omega

/-- The owner moves a count between its copy and `l1`. -/
lemma Inv.ownerL1 {v : Nat} (hw : ∀ k, pc.weigh k = st.weigh k)
    (hw' : ∀ k, pc'.weigh k = st'.weigh k) (hg : st'.groupIdx = st.groupIdx) (hf : st'.free = st.free)
    (hl : st'.l1Metadata = update st.l1Metadata c v)
    (hn : n + v = s.mem.l1 st.groupIdx c + st.l1Metadata c) (ht : pc'.allocating → pc.allocating)
    (hy : pc'.Ok A (s.mem.setL1 st.groupIdx c n)) :
    Inv A { s with mem := s.mem.setL1 st.groupIdx c n, cpus := update s.cpus i ⟨guard, pc'⟩ } := by
  have hsum := total_update id st.l1Metadata c v
  simp only [id] at hsum
  refine h.setL1 hx (h.counts.setL1 (books_pc hx pc') ?_ ?_ ?_ ?_ ?_) ?_ ?_ ht hy
  · intro g'
    simp [hw, hw', PrivateState.weigh, hg]
  · simp only [hw, hw', PrivateState.weigh, hg, hl, if_true, update_self]
    exact hn
  · intro g' c' hne
    simp only [hw, hw', PrivateState.weigh, hg, hl]
    split
    · rename_i he
      rw [update_of_ne fun hc => hne ⟨he, hc⟩]
    · rfl
  · simp only [hw, hw', PrivateState.weigh, hg, hf, hl, if_true]
    omega
  · intro g' hne
    simp [hw, hw', PrivateState.weigh, hg, hne]
  · intro f
    simp [hw, hw', PrivateState.weigh]
  · intro slot
    simp [hw, hw', PrivateState.weigh]

/-- A count or the ownership moves between the word of the group and the CPU. -/
lemma Inv.setL2 (hc : Counts A (s.mem.setL2 g bits) (books (update s.cpus i ⟨guard, pc'⟩)))
    (hpend : ∀ f, pc'.weigh (.pending f) = pc.weigh (.pending f))
    (hheld : ∀ slot, pc'.weigh (.held slot) = pc.weigh (.held slot))
    (hfree : ∀ j, j ≠ i → 0 < (s.cpus j).weigh (.own g) → freeBits (s.mem.l2 g) ≤ freeBits bits)
    (hun : ownedBit bits = false → A g = slotsOf (l1AllocatedBits bits) (s.mem.physicalAddresses g))
    (ht : pc'.allocating → pc.allocating) (hy : pc'.Ok A (s.mem.setL2 g bits)) :
    Inv A { s with mem := s.mem.setL2 g bits, cpus := update s.cpus i ⟨guard, pc'⟩ } := by
  have hi := h.cpu hx
  have hb := books_pc hx pc'
  refine h.move hc ?_ ?_ (fun j hj => ⟨fun _ _ => ⟨rfl, rfl⟩, fun g' hown => ?_, fun _ _ _ _ hf => hf,
    fun _ _ _ _ hf => hf⟩) ⟨hi.guard, fun ha => hi.taken (ht ha), hy⟩
  · refine h.uses.congr rfl fun f => ?_
    have := hb (.pending f)
    have := hpend f
    omega
  · refine h.plugs.congr rfl rfl (fun slot => ?_) fun g' => ?_
    · have := hb (.held slot)
      have := hheld slot
      omega
    by_cases he : g' = g
    · subst he
      simp only [Memory.setL2, update_self]
      exact hun
    · simp only [Memory.setL2, update_of_ne he]
      exact h.plugs.unowned g'
  · by_cases he : g' = g
    · subst he
      simp only [Memory.setL2, update_self]
      exact hfree j hj hown
    · simp only [Memory.setL2, update_of_ne he]
      exact le_rfl

end

omit [DecidableEq ι] in
lemma Inv.slot_of_count (h : Inv A s) (hok : st.Ok A) (hc : 1 ≤ books s.cpus (.count st.groupIdx c)) :
    A st.groupIdx c = some (st.physicalAddresses c) := by
  have hcount := h.counts.count st.groupIdx c
  have hsome : (A st.groupIdx c).isSome := by
    by_contra hno
    rw [if_neg hno] at hcount
    omega
  have hslot := congrFun hok c
  rw [slotsOf] at hslot
  split at hslot
  · exact hslot
  rw [hslot] at hsome
  cases hsome

/-- `find_free` marks a frame that nobody uses. -/
lemma Inv.findOr (h : Inv A s) {w : Fin 8} {t : Fin 64} (hx : s.cpus i = ⟨guard, .findOr st c w t⟩)
    (hf : f = ⟨st.physicalAddresses c, ⟨w * 64 + t, bit_lt w t⟩⟩) : s.live f = none ∧ A st.groupIdx c = some f.slot ∧
    Inv A ⟨s.mem.setWord st.groupIdx c w (s.mem.l0 st.groupIdx c w ||| BitVec.twoPow 64 t),
      update s.live f (some (st.groupIdx, c)), update s.cpus i ⟨some (st.take c), .idle⟩⟩ := by
  have hi := h.cpu hx
  obtain ⟨hok, hfree, hl1, hbit⟩ := hi.pc
  have hguard : guard = none := hi.taken rfl
  subst hguard
  have hA : A st.groupIdx c = some (st.physicalAddresses c) := by
    refine h.slot_of_count hok (le_trans ?_ (pc_weigh_le hx _))
    simpa [Pc.weigh, PrivateState.weigh] using hl1
  have hnone := h.uses.used _ _ _ hA ⟨w * 64 + t, bit_lt w t⟩
  rw [hbit, ← hf, Bool.toNat_false] at hnone
  have hlive : s.live f = none := by
    cases hl : s.live f with
    | none => rfl
    | some p =>
      rw [hl] at hnone
      simp at hnone
  refine ⟨hlive, by rw [hf]; exact hA, ?_⟩
  have hb : ∀ k, books (update s.cpus i ⟨some (st.take c), .idle⟩) k + frameWeigh st.groupIdx c k =
      books s.cpus k + 0 := by
    intro k
    have hk := books_update s.cpus i ⟨some (st.take c), .idle⟩ k
    have hg := (st.take c).weigh_give c k
    rw [PrivateState.give_take hfree hl1] at hg
    rw [hx] at hk
    simp only [Cpu.weigh, guardWeigh, Pc.weigh, Option.elim] at hk
    have hgroup : (st.take c).groupIdx = st.groupIdx := rfl
    rw [hgroup] at hg
    omega
  have hm := bits_or s.mem st.groupIdx c w t
  have hpos := owner_pos hx rfl
  refine h.move (h.counts.setBit hb hm rfl rfl (by rw [hA]; rfl) (fun _ => rfl) ?_ ?_ (by simp [frameWeigh]))
    (h.uses.setBit h.plugs hA hm ?_ ?_ ?_ ?_) ?_ (fun j hj => ?_) ?_
  · simp [hbit, frameWeigh]
  · intro g' c' hne
    simp [frameWeigh, if_neg hne]
  · intro f' hf'
    rw [← hf] at hf'
    exact update_of_ne hf' _ _
  · intro f' _
    exact hb (.pending f')
  · have hp : books _ (.pending f) = books s.cpus (.pending f) := hb (.pending f)
    rw [← hf, update_self, hp]
    simp only [isSome_some, Bool.toNat_true]
    omega
  · intro p hp
    rw [← hf, update_self] at hp
    exact (Option.some.inj hp).symm
  · exact h.plugs.congr rfl rfl (fun slot => hb (.held slot)) h.plugs.unowned
  · refine ⟨fun _ _ => ⟨rfl, rfl⟩, fun _ _ => le_rfl, fun g' c' k hown hf => ?_, fun _ _ _ _ hf => hf⟩
    rw [hm, put_ne _ _ fun he => h.counts.sole hj hpos hown he.1]
    exact hf
  · refine ⟨fun st' hst' => ?_, by simp [Pc.allocating], trivial⟩
    cases hst'
    exact hok

/-- A cleared bit is counted by the owner at once and by others later. -/
lemma Cpu.deallocated_weigh (guard : Option PrivateState) (pc : Pc) (g : GroupIndex) (c : ChunkIndex) :
    ∃ v : Key → Nat, (∀ k, ((⟨guard, pc⟩ : Cpu).deallocated g c).weigh k = guardWeigh guard k + v k) ∧
      (∀ g', v (.own g') = 0) ∧ (∀ g' c', v (.count g' c') = if g' = g ∧ c' = c then 1 else 0) ∧
      (∀ g', v (.free g') = v (.sum g')) ∧ (∀ f, v (.pending f) = 0) ∧ ∀ slot, v (.held slot) = 0 := by
  have hremote : (∀ g', one (.count g c) (.own g') = 0) ∧
      (∀ g' c', one (.count g c) (.count g' c') = if g' = g ∧ c' = c then 1 else 0) ∧
      (∀ g', one (.count g c) (.free g') = one (.count g c) (.sum g')) ∧
      (∀ f, one (.count g c) (.pending f) = 0) ∧ ∀ slot, one (.count g c) (.held slot) = 0 := by
    simp [one]
  cases guard with
  | none => exact ⟨one (.count g c), fun k => rfl, hremote⟩
  | some st =>
    by_cases hg : g = st.groupIdx
    · subst hg
      refine ⟨frameWeigh st.groupIdx c, fun k => ?_, fun _ => rfl, fun _ _ => rfl, fun _ => rfl, fun _ => rfl,
        fun _ => rfl⟩
      simp only [Cpu.deallocated, if_true, Cpu.weigh, guardWeigh, Pc.weigh, Option.elim, st.weigh_give]
      rfl
    · refine ⟨one (.count g c), fun k => ?_, hremote⟩
      simp [Cpu.deallocated, if_neg hg, Cpu.weigh, guardWeigh, Pc.weigh]

lemma Inv.clear (h : Inv A s) (hx : s.cpus i = ⟨guard, .clear f g c⟩) : Inv A ⟨s.mem.deallocate g c f.idx, s.live,
      update s.cpus i ((⟨guard, .clear f g c⟩ : Cpu).deallocated g c)⟩ := by
  have hi := h.cpu hx
  have hA : A g c = some f.slot := hi.pc
  obtain ⟨v, hv, hown, hcount, hfree, hpend, hheld⟩ := Cpu.deallocated_weigh guard (.clear f g c) g c
  set x := (⟨guard, .clear f g c⟩ : Cpu).deallocated g c
  have hb : ∀ k, books (update s.cpus i x) k + one (.pending f) k = books s.cpus k + v k := by
    intro k
    have hk := books_update s.cpus i x k
    rw [hv, hx] at hk
    simp only [Cpu.weigh, Pc.weigh] at hk
    omega
  have hused : (s.live f).isSome.toNat + books s.cpus (.pending f) = (s.mem.bits g c f.idx).toNat :=
    h.uses.used _ _ _ hA f.idx
  have hone : 1 ≤ books s.cpus (.pending f) := by
    refine le_trans ?_ (pc_weigh_le hx _)
    simp [Pc.weigh, one]
  have hbit : s.mem.bits g c f.idx := by
    by_contra hbit
    rw [Bool.eq_false_of_not_eq_true hbit, Bool.toNat_false] at hused
    omega
  have hm := bits_deallocate s.mem g c f.idx
  refine h.move (h.counts.setBit hb hm rfl rfl (by rw [hA]; rfl) ?_ ?_ ?_ ?_)
    (h.uses.setBit h.plugs hA hm (fun _ _ => rfl) ?_ ?_ ?_) ?_ (fun j _ => ?_) ?_
  · simp [hown, one]
  · simp [hcount, hbit, one]
  · intro g' c' hne
    simp [hcount, hne, one]
  · simp [hfree, one]
  · intro f' hne
    simpa [hpend, one, hne] using hb (.pending f')
  · have hk := hb (.pending f)
    simp only [hpend, one, if_true] at hk
    rw [hbit, Bool.toNat_true] at hused
    show (s.live f).isSome.toNat + books _ (.pending f) = 0
    omega
  · intro p hp
    have hA' := h.uses.origin f p.1 p.2 hp
    obtain ⟨h1, h2⟩ := h.plugs.inj hA hA'
    exact Prod.ext h1 h2
  · refine h.plugs.congr rfl rfl (fun slot => ?_) h.plugs.unowned
    simpa [hheld, one] using hb (.held slot)
  · refine ⟨fun _ _ => ⟨rfl, rfl⟩, fun _ _ => le_rfl, fun g' c' k _ hf => ?_, fun _ _ _ _ hf => hf⟩
    simp only [hm, put_apply]
    grind
  cases guard with
  | none => exact ⟨by simp [x, Cpu.deallocated], by simp [x, Cpu.deallocated, Pc.allocating], trivial⟩
  | some st =>
    have hst : st.Ok A := hi.guard st rfl
    simp only [x, Cpu.deallocated]
    split
    · refine ⟨fun st' hst' => ?_, by simp [Pc.allocating], trivial⟩
      cases hst'
      exact hst
    · exact ⟨fun st' hst' => hi.guard st' hst', by simp [Pc.allocating], trivial⟩

omit [DecidableEq ι] in
lemma Inv.owned (h : Inv A s) (hpos : 0 < (s.cpus i).weigh (.own g)) : ownedBit (s.mem.l2 g) := by
  have hle := le_books s.cpus i (.own g)
  have hone := h.counts.owned g
  cases hbit : ownedBit (s.mem.l2 g) with
  | true => rfl
  | false =>
    rw [hbit, Bool.toNat_false] at hone
    omega

lemma Inv.storeSlot (h : Inv A s) (hx : s.cpus i = ⟨guard, .storeSlot k st c⟩) : Inv A { s with
      mem := s.mem.setSlot st.groupIdx c (st.physicalAddresses c)
      cpus := update s.cpus i ⟨guard, .addFree k st c⟩ } := by
  have hi := h.cpu hx
  have hpos := owner_pos hx rfl
  have hb : books (update s.cpus i ⟨guard, .addFree k st c⟩) = books s.cpus :=
    books_quiet fun k => by rw [hx]; rfl
  have howned := h.owned hpos
  have hother : ∀ g, g ≠ st.groupIdx →
      (s.mem.setSlot st.groupIdx c (st.physicalAddresses c)).physicalAddresses g = s.mem.physicalAddresses g :=
    fun g hg => update_of_ne hg _ _
  refine h.move (hb ▸ h.counts.congr rfl rfl rfl) (hb ▸ h.uses.congr rfl fun _ => rfl)
    (hb ▸ h.plugs.congr rfl rfl (fun _ => rfl) fun g hun => ?_) (fun j hj => ?_) ?_
  · have hg : g ≠ st.groupIdx := by
      rintro rfl
      exact absurd (howned.symm.trans hun) (by simp)
    rw [hother g hg]
    exact h.plugs.unowned g hun
  · exact ⟨fun g hown => ⟨rfl, hother g (h.counts.sole hj hpos hown)⟩, fun _ _ => le_rfl, fun _ _ _ _ hf => hf,
      fun _ _ _ _ hf => hf⟩
  · refine ⟨hi.guard, hi.taken, hi.pc.1, fun c' hc' => ?_⟩
    by_cases he : c' = c
    · subst he
      exact put_self ..
    · exact (put_ne _ _ fun h => he h.2).trans (hi.pc.2 c' (lt_of_le_of_ne hc' fun h => he (Fin.ext h)))

/-- The supervisor hands out a slot that is in no chunk. -/
lemma Inv.plug (h : Inv A s) (hx : s.cpus i = ⟨guard, .plug st c⟩) (hfresh : s.mem.plugged slot = false) :
    Inv A { s with
      mem := s.mem.setPlugged slot true
      cpus := update s.cpus i ⟨guard, .reverseSet st c slot⟩ } := by
  have hi := h.cpu hx
  have hb : ∀ k, books (update s.cpus i ⟨guard, .reverseSet st c slot⟩) k = books s.cpus k + one (.held slot) k := by
    intro k
    have hk := books_pc hx (.reverseSet st c slot) k
    simp only [Pc.weigh] at hk
    omega
  have hsame : ∀ k, k ≠ .held slot → books (update s.cpus i ⟨guard, .reverseSet st c slot⟩) k = books s.cpus k := by
    intro k hk
    rw [hb, one, if_neg hk, Nat.add_zero]
  have hself : books (update s.cpus i ⟨guard, .reverseSet st c slot⟩) (.held slot) = books s.cpus (.held slot) + 1 := by
    rw [hb, one, if_pos rfl]
  obtain ⟨hreverse, hheld, hun⟩ := h.plugs
  refine h.move ?_ (h.uses.congr rfl fun f => hsame _ (by simp)) ⟨?_, ?_, hun⟩
    (fun j _ => .congr A _ rfl rfl rfl) ⟨hi.guard, hi.taken, hi.pc⟩
  · obtain ⟨howned, hcount, hfree⟩ := h.counts
    constructor <;> simpa [hsame]
  · simp only [Memory.setPlugged, update_apply]
    grind
  intro slot'
  simp only [Memory.setPlugged, update_apply]
  rcases eq_or_ne slot' slot with rfl | hne
  · grind
  rw [hsame _ (by simpa using hne)]
  grind

lemma slotsOf_setMask (mask : BitVec 8) (addresses : ChunkIndex → SlotIndex) (c : ChunkIndex) (slot : SlotIndex) :
    slotsOf (setMask mask c true) (update addresses c slot) = update (slotsOf mask addresses) c (some slot) := by
  funext c'
  simp only [slotsOf, getLsbD_setMask, update_apply]
  grind

lemma slotsOf_clearMask (mask : BitVec 8) (addresses : ChunkIndex → SlotIndex) (c : ChunkIndex) :
    slotsOf (setMask mask c false) addresses = update (slotsOf mask addresses) c none := by
  funext c'
  simp only [slotsOf, getLsbD_setMask, update_apply]
  grind

omit [DecidableEq ι] in
lemma Inv.guard_ne (h : Inv A s) (hx : s.cpus i = ⟨guard, pc⟩) (hpc : pc.private? = some st)
    (hg : guard = some st') : st'.groupIdx ≠ st.groupIdx := by
  intro he
  have hle := le_books s.cpus i (.own st.groupIdx)
  have hone : books s.cpus (.own st.groupIdx) ≤ 1 := (h.counts.owned _).ge.trans (Bool.toNat_le _)
  have hpos : 0 < (⟨none, pc⟩ : Cpu).weigh (.own st.groupIdx) := Cpu.own_pos (.inr hpc)
  rw [hx] at hle
  simp only [Cpu.weigh, guardWeigh, hg, Option.elim] at hle hpos
  rw [← he, st'.weigh_own] at hle
  rw [he] at hle
  omega

lemma PrivateState.weigh_plugIn (slot : SlotIndex) (hzero : st.l1Metadata c = 0) (k : Key) :
    (st.plugIn c slot).weigh k = st.weigh k + 512 * frameWeigh st.groupIdx c k := by
  cases k with
  | own g | pending f | held slot => rfl
  | count g c' =>
    simp only [weigh, plugIn, setSlot, setL1, frameWeigh, update_apply]
    grind
  | free g =>
    simp only [weigh, plugIn, setSlot, setL1, frameWeigh]
    grind
  | sum g =>
    have hsum := total_update id st.l1Metadata c 512
    simp only [id] at hsum
    simp only [weigh, plugIn, setSlot, setL1, frameWeigh]
    by_cases hg : g = st.groupIdx
    · simp only [hg, if_true]
      omega
    · simp [hg]

/-- The chunk is out; the other account of it stands. -/
lemma PrivateState.weigh_plugOut (hfull : st.l1Metadata c = 512) (k : Key) :
    (Pc.panicked (st.plugOut c)).weigh k + 512 * one (.count st.groupIdx c) k = st.weigh k := by
  cases k with
  | own g | pending f | held slot | free g => rfl
  | count g c' =>
    simp only [Pc.weigh, weigh, plugOut, setL1, one, update_apply]
    grind
  | sum g =>
    have hsum := total_update id st.l1Metadata c 0
    simp only [id] at hsum
    simp only [Pc.weigh, weigh, plugOut, setL1, one]
    by_cases hg : g = st.groupIdx
    · simp [hg]
      omega
    · simp [hg]

lemma clearBits_of_clear (h : ∀ i, m.bits g c i = false) : m.clearBits g c = 512 := by
  have hall : total (fun b : Bool => (!b).toNat) (m.bits g c) =
      total (fun b : Bool => b.toNat) fun _ : FrameIndex => true :=
    total_congr _ _ fun i => by rw [h i]; rfl
  rw [Memory.clearBits, hall, total]
  simp

lemma clear_of_clearBits (h : 512 ≤ m.clearBits g c) (i : FrameIndex) : m.bits g c i = false := by
  by_contra hne
  have hset : m.bits g c i := by simpa using hne
  have hrow := total_update (fun b : Bool => (!b).toNat) (m.bits g c) i false
  have hle : total (fun b : Bool => (!b).toNat) (update (m.bits g c) i false) ≤ 512 :=
    (total_le_card _ _ fun _ => Bool.toNat_le _).trans (Fintype.card_fin 512).le
  rw [hset] at hrow
  simp only [Memory.clearBits] at h
  simp only [Bool.not_true, Bool.not_false, Bool.toNat_true, Bool.toNat_false] at hrow
  omega

lemma Inv.reverseSet (h : Inv A s) (hx : s.cpus i = ⟨guard, .reverseSet st c slot⟩) :
    Inv (put A st.groupIdx c (some slot)) { s with
      mem := s.mem.setReverse slot (ReverseMap.encode st.groupIdx c)
      cpus := update s.cpus i ⟨guard, .search (st.plugIn c slot)⟩ } := by
  have hi := h.cpu hx
  obtain ⟨hok, hmask⟩ := hi.pc
  have hguard : guard = none := hi.taken rfl
  subst hguard
  have hpos := owner_pos hx rfl
  have hnone : A st.groupIdx c = none := by rw [congrFun hok c, slotsOf, if_neg (by rw [hmask]; simp)]
  have hcount := h.counts.count st.groupIdx c
  rw [hnone, isSome_none, if_neg (by simp)] at hcount
  have hzero : st.l1Metadata c = 0 := by
    have hle := pc_weigh_le hx (.count st.groupIdx c)
    simp only [Pc.weigh, PrivateState.weigh, if_true] at hle
    omega
  have hheld : 1 ≤ books s.cpus (.held slot) := by
    refine le_trans ?_ (pc_weigh_le hx _)
    simp [Pc.weigh, one]
  obtain ⟨hle, hslot⟩ := h.plugs.held slot
  obtain ⟨hplugged, hno⟩ := hslot hheld
  have hpc := books_pc hx (.search (st.plugIn c slot))
  set cpus := update s.cpus i ⟨none, .search (st.plugIn c slot)⟩
  have hb : ∀ k, books cpus k + one (.held slot) k = books s.cpus k + 512 * frameWeigh st.groupIdx c k := by
    intro k
    have hk := hpc k
    simp only [Pc.weigh, st.weigh_plugIn slot hzero] at hk
    omega
  set mem := s.mem.setReverse slot (ReverseMap.encode st.groupIdx c)
  have hcounts : Counts (put A st.groupIdx c (some slot)) mem (books cpus) := by
    refine h.counts.setPlace mem hb rfl rfl rfl
      (by simp [one, frameWeigh]) ?_ ?_ (by simp [one, frameWeigh])
    · have hk := hb (.count st.groupIdx c)
      simp only [one, frameWeigh, reduceCtorEq, and_self, if_true, if_false] at hk
      rw [isSome_some, if_pos rfl, clearBits_of_clear (h.uses.spare _ _ hnone)]
      omega
    · intro g' c' hne
      simp [one, frameWeigh, hne]
  have hself : books cpus (.held slot) = 0 := by
    have hk := hb (.held slot)
    simp only [one, frameWeigh, if_true] at hk
    omega
  have hothers : ∀ slot', slot' ≠ slot → books cpus (.held slot') = books s.cpus (.held slot') := by
    intro slot' he
    simpa [one, frameWeigh, he] using hb (.held slot')
  have hpend : ∀ f, books cpus (.pending f) = books s.cpus (.pending f) := fun f => hb (.pending f)
  have huses := h.uses.plugIn mem rfl hpend hnone hno
  refine h.move hcounts huses
    (h.plugs.plugIn hplugged hno (h.owned hpos) hself hothers) (fun j hj => ?_) ?_
  · refine ⟨fun g' hown => ⟨?_, rfl⟩, fun _ _ => le_rfl, fun _ _ _ _ hf => hf, fun f g' c' _ hA' => ?_⟩
    · exact update_of_ne (h.counts.sole hj hpos hown) _ _
    rw [put_ne _ _ (place_ne hnone (by rw [hA']; simp))]
    exact hA'
  · refine ⟨by simp, fun _ => rfl, ?_⟩
    change put A st.groupIdx c (some slot) st.groupIdx = _
    rw [put_row, hok]
    exact (slotsOf_setMask _ _ _ _).symm

section

variable (h : Inv A s) (hx : s.cpus i = ⟨guard, .unplug k st n⟩) (hfull : st.l1Metadata c = 512)
include h hx hfull

omit [DecidableEq ι] in
/-- A chunk that the owner counts as completely free is plugged in, and no bit of it is set. -/
lemma Inv.full_chunk :
    A st.groupIdx c = some (st.physicalAddresses c) ∧ (∀ j, s.mem.bits st.groupIdx c j = false) ∧
      s.mem.l1 st.groupIdx c + books s.cpus (.count st.groupIdx c) = 512 := by
  have hi := h.cpu hx
  have hle := pc_weigh_le hx (.count st.groupIdx c)
  simp only [Pc.weigh, PrivateState.weigh, if_true, hfull] at hle
  have hA := h.slot_of_count hi.pc (le_trans (by decide) hle)
  have hcount := h.counts.count st.groupIdx c
  rw [hA, isSome_some, if_pos rfl] at hcount
  have hbound := s.mem.clearBits_le st.groupIdx c
  exact ⟨hA, clear_of_clearBits (by omega), by omega⟩

/-- `drop` takes a chunk out and then stops at the subtraction. -/
lemma Inv.plugOut :
    Inv (put A st.groupIdx c none) { s with
      mem := s.mem.setPlugged (st.physicalAddresses c) false
      cpus := update s.cpus i ⟨guard, .panicked (st.plugOut c)⟩ } := by
  have hi := h.cpu hx
  have hok : st.Ok A := hi.pc
  have hpos := owner_pos hx rfl
  obtain ⟨hA, hclear, hcount⟩ := h.full_chunk hx hfull
  have hle := pc_weigh_le hx (.count st.groupIdx c)
  simp only [Pc.weigh, PrivateState.weigh, if_true, hfull] at hle
  have hpc := books_pc hx (.panicked (st.plugOut c))
  set cpus := update s.cpus i ⟨guard, .panicked (st.plugOut c)⟩
  have hb : ∀ k', books cpus k' + 512 * one (.count st.groupIdx c) k' = books s.cpus k' + 0 := by
    intro k'
    have hk := hpc k'
    have hw := st.weigh_plugOut hfull k'
    simp only [Pc.weigh] at hk hw
    omega
  set mem := s.mem.setPlugged (st.physicalAddresses c) false
  have hcounts : Counts (put A st.groupIdx c none) mem (books cpus) := by
    refine h.counts.setPlace mem hb rfl rfl rfl (by simp [one]) ?_ ?_ (by simp [one])
    · have hk := hb (.count st.groupIdx c)
      simp only [one, if_true] at hk
      simp only [isSome_none, Bool.false_eq_true, if_false]
      omega
    · intro g' c' hne
      simp [one, hne]
  have hpend : ∀ f, books cpus (.pending f) = books s.cpus (.pending f) := fun f => hb (.pending f)
  have huses := h.uses.plugOut mem rfl hpend hA hclear
  refine h.move hcounts huses
    (h.plugs.plugOut hA (h.owned hpos) fun slot => hb (.held slot)) (fun j hj => ?_) ?_
  · refine ⟨fun g' hown => ⟨?_, rfl⟩, fun _ _ => le_rfl, fun _ _ _ _ hf => hf, fun f g' c' hp hA' => ?_⟩
    · exact update_of_ne (h.counts.sole hj hpos hown) _ _
    -- a frame that is being deallocated has its bit set
    have hne : ¬(g' = st.groupIdx ∧ c' = c) := by
      intro he
      have hused := h.uses.used g' c' f.slot hA' f.idx
      rw [he.1, he.2, hclear, Bool.toNat_false] at hused
      have hone : _ ≤ books s.cpus (.pending ⟨f.slot, f.idx⟩) := le_books s.cpus j (.pending f)
      omega
    rw [put_ne _ _ hne]
    exact hA'
  · refine ⟨fun st' hst' => ?_, by simp [Pc.allocating], ?_⟩
    · have hne := h.guard_ne hx rfl hst'
      have hrow : put A st.groupIdx c none st'.groupIdx = A st'.groupIdx := update_of_ne hne _ _
      rw [PrivateState.Ok, hrow]
      exact hi.guard st' hst'
    · change put A st.groupIdx c none st.groupIdx = _
      rw [put_row, hok]
      exact (slotsOf_clearMask _ _ _).symm

end

/-! ## The local parts -/

lemma claimNext_spec (check : Check) (g : GroupIndex) :
    (∀ k, (claimNext check g).weigh k = 0) ∧ ((claimNext check g).allocating → decide (check ≠ .always)) ∧
      ∀ m, (claimNext check g).Ok A m := by
  unfold claimNext
  split
  · exact ⟨fun _ => rfl, nofun, fun _ => trivial⟩
  rename_i hne
  split
  · exact ⟨fun _ => rfl, fun _ => decide_eq_true hne, fun _ => trivial⟩
  · cases check <;> exact ⟨fun _ => rfl, fun _ => decide_eq_true hne, fun _ => trivial⟩

lemma claimSeen_spec (check : Check) (g : GroupIndex) (bits : Nat) :
    (∀ k, (claimSeen check g bits).weigh k = 0) ∧ ((claimSeen check g bits).allocating → decide (check ≠ .always)) ∧
      ∀ m, (claimSeen check g bits).Ok A m := by
  unfold claimSeen
  split
  · rename_i hc
    refine ⟨fun _ => rfl, id, fun _ => ?_⟩
    simp only [claimable, Bool.and_eq_true, Bool.not_eq_true'] at hc
    exact hc.1
  · exact claimNext_spec check g

lemma created_spec (k : After) (hok : st.Ok A) :
    (∀ key, (created k st).weigh key = st.weigh key) ∧ ((created k st).allocating → decide (k = .allocate)) ∧
      ∀ m, (created k st).Ok A m := by
  cases k with
  | allocate => exact ⟨fun _ => rfl, fun _ => rfl, fun _ => hok⟩
  | done => exact ⟨fun _ => rfl, fun ha => by simp [created, allocating] at ha, fun _ => hok⟩

lemma dropped_spec (k : After) :
    (∀ key, (dropped k).weigh key = 0) ∧ ((dropped k).allocating → decide (k = .allocate)) ∧
      ∀ m, (dropped k).Ok A m := by
  cases k with
  | allocate => exact ⟨fun _ => rfl, fun _ => rfl, fun _ => trivial⟩
  | done => exact ⟨fun _ => rfl, nofun, fun _ => trivial⟩

lemma exists_clear (h : 1 ≤ m.clearBits g c) : ∃ i, m.bits g c i = false := by
  by_contra hno
  have hzero : m.clearBits g c = 0 := by
    refine (total_eq_zero_iff _ _).2 fun i => ?_
    have hi : m.bits g c i := by
      by_contra hne
      exact hno ⟨i, by simpa using hne⟩
    rw [hi]
    rfl
  omega

omit [DecidableEq ι] in
/-- A chunk with a private count has a clear bit. -/
lemma searched_spec (h : Inv A s) (hx : s.cpus i = ⟨guard, .search st⟩) :
    (∀ k, (searched st).weigh k = st.weigh k) ∧ (searched st).Ok A s.mem := by
  have hi := h.cpu hx
  have hok : st.Ok A := hi.pc
  unfold searched
  split
  · rename_i hfree
    split
    · rename_i c hc
      have hl1 : 1 ≤ st.l1Metadata c := by simpa using List.find?_some hc
      have hle := pc_weigh_le hx (.count st.groupIdx c)
      simp only [Pc.weigh, PrivateState.weigh, if_true] at hle
      have hcount := h.counts.count st.groupIdx c
      have hclear : 1 ≤ s.mem.clearBits st.groupIdx c := by split at hcount <;> omega
      obtain ⟨j, hj⟩ := exists_clear hclear
      exact ⟨fun _ => rfl, hok, hfree, hl1, j, by omega, hj⟩
    · exact ⟨fun _ => rfl, hok⟩
  · exact ⟨fun _ => rfl, hok⟩

lemma refreshed_spec (k : Refresh) (any : Bool) (hok : st.Ok A) :
    (∀ key, (refreshed k st any).weigh key = st.weigh key) ∧
      ((refreshed k st any).allocating = true → k = .again ∨ k = .drop .allocate) ∧
      ∀ m, (refreshed k st any).Ok A m := by
  cases k with
  | again =>
    cases any with
    | true => exact ⟨fun _ => rfl, fun _ => .inl rfl, fun _ => hok⟩
    | false =>
      cases hc : findZero st.allocatedBitmask with
      | some c =>
        have hr : refreshed .again st false = .plug st c := by simp only [refreshed, hc]
        rw [hr]
        exact ⟨fun _ => rfl, fun _ => .inl rfl, fun _ => ⟨hok, findZero_eq_some hc⟩⟩
      | none =>
        have hr : refreshed .again st false = .refreshSwap (.drop .allocate) st 0 false := by simp only [refreshed, hc]
        rw [hr]
        exact ⟨fun _ => rfl, fun _ => .inl rfl, fun _ => hok⟩
  | drop k =>
    refine ⟨fun _ => rfl, fun ha => ?_, fun _ => hok⟩
    have hk : k = .allocate := by simpa [refreshed, allocating] using ha
    exact .inr (by rw [hk])

lemma bits_word (m : Memory) (g : GroupIndex) (c : ChunkIndex) (w : Fin 8) (t : Fin 64) :
    m.bits g c ⟨w * 64 + t, bit_lt w t⟩ = (m.l0 g c w).getLsbD t := by
  have hw : (⟨(w.val * 64 + t.val) / 64, by omega⟩ : Fin 8) = w := Fin.ext (by simp only; omega)
  have ht : (w.val * 64 + t.val) % 64 = t := by omega
  simp [Memory.bits, hw, ht]

/-- One round of `find_free`: the clear bit is in a later word if it is not in
this one. -/
lemma findLoad_spec {w : Nat} {j : FrameIndex} (hj : w * 64 ≤ j) (hbit : m.bits g c j = false) :
    ∃ hw : w < 8, ¬trailingOnes (m.l0 g c ⟨w, hw⟩) < 64 → (w + 1) * 64 ≤ j := by
  refine ⟨by omega, fun hfull => ?_⟩
  by_contra hlt
  have hword := bits_word m g c ⟨w, by omega⟩ ⟨j - w * 64, by omega⟩
  have hindex : (⟨w * 64 + (j - w * 64), by omega⟩ : FrameIndex) = j := Fin.ext (by simp only; omega)
  simp only [hindex] at hword
  rw [hbit, trailingOnes_full hfull (by omega)] at hword
  cases hword

lemma PrivateState.rest_zero (st : PrivateState) : st.rest 0 = st := by simp [rest]

lemma PrivateState.rest_of_ge (st : PrivateState) (h : 8 ≤ n) : st.rest n = st.rest 8 := by
  have hl : ∀ n, 8 ≤ n → (fun c : ChunkIndex => if n ≤ c.val then st.l1Metadata c else 0) = fun _ => 0 := by
    intro n hn
    funext c
    exact if_neg (by omega)
  simp [rest, hl n h, hl 8 le_rfl]

lemma PrivateState.rest_succ (st : PrivateState) (c : ChunkIndex) :
    (st.rest (c + 1)).l1Metadata = update (st.rest c).l1Metadata c 0 := by
  funext c'
  simp only [rest, update_apply, Fin.ext_iff]
  grind

/-! ## Steps on the word of a group -/

/-- Nobody owns a group whose owner bit is clear. -/
lemma Inv.claim (h : Inv A s) {check : Check} (hx : s.cpus i = ⟨guard, .claimExchange check g bits⟩)
    (hbits : s.mem.l2 g = bits) : Inv A { s with
      mem := s.mem.setL2 g (claimed bits)
      cpus := update s.cpus i
        ⟨guard, .newSwap check.after (.new g (freeBits bits) (l1AllocatedBits bits)) 0⟩ } := by
  have hi := h.cpu hx
  have hfree : ownedBit (s.mem.l2 g) = false := by rw [hbits]; exact hi.pc
  have hnobody := h.counts.owned g
  rw [hfree, Bool.toNat_false] at hnobody
  refine h.setL2 hx (h.counts.setL2 (books_pc hx _) ?_ ?_ ?_ ?_) (fun _ => rfl) (fun _ => rfl) (fun j hj hown => ?_)
    (fun hun => ?_) (fun ha => ?_) ⟨?_, fun _ _ => rfl⟩
  · rw [hfree, ownedBit_claimed]
    simp [Pc.weigh, PrivateState.weigh, PrivateState.new]
  · rw [freeBits_claimed, hbits]
    simp [Pc.weigh, PrivateState.weigh, PrivateState.new, total]
  · intro g' c'
    exact ite_self 0
  · intro g' hne
    simp [Pc.weigh, PrivateState.weigh, PrivateState.new, hne]
  · have hle := le_books s.cpus j (.own g)
    omega
  · rw [ownedBit_claimed] at hun
    cases hun
  · cases check <;> first | rfl | cases ha
  · exact hbits ▸ h.plugs.unowned g hfree

/-- `refresh` takes what others have counted for the owner. -/
lemma Inv.refreshAnd (h : Inv A s) {k : Refresh} {any : Bool} (hx : s.cpus i = ⟨guard, .refreshAnd k st any⟩) :
    Inv A { s with
      mem := s.mem.setL2 st.groupIdx (setFreeBits (s.mem.l2 st.groupIdx) 0)
      cpus := update s.cpus i ⟨guard, refreshed k { st with free := st.free + freeBits (s.mem.l2 st.groupIdx) }
        (any || freeBits (s.mem.l2 st.groupIdx) != 0)⟩ } := by
  have hi := h.cpu hx
  have hst : PrivateState.Ok A { st with free := st.free + freeBits (s.mem.l2 st.groupIdx) } := hi.pc
  have hpos := owner_pos hx rfl
  obtain ⟨hw, ha, hpc⟩ := refreshed_spec k (any || freeBits (s.mem.l2 st.groupIdx) != 0) hst
  refine h.setL2 hx (h.counts.setL2 (books_pc hx _) ?_ ?_ ?_ ?_) (fun f => hw _) (fun slot => hw _)
    (fun j hj hown => ?_) (fun hun => ?_) (fun hc => decide_eq_true (ha hc)) (hpc _)
  · rw [ownedBit_setFreeBits (by decide), hw]
    rfl
  · rw [freeBits_setFreeBits (by decide), hw, hw]
    simp only [Pc.weigh, PrivateState.weigh, if_true]
    omega
  · intro g' c'
    rw [hw]
    rfl
  · intro g' hne
    rw [hw, hw, hw]
    simp [Pc.weigh, PrivateState.weigh, if_neg hne]
  · exact absurd rfl (h.counts.sole hj hpos hown)
  · rw [ownedBit_setFreeBits (by decide), h.owned hpos] at hun
    cases hun

section

variable (h : Inv A s) (hx : s.cpus i = ⟨guard, .dropExchange k st bits⟩)
include h hx

omit [DecidableEq ι] in
/-- The value that `drop` writes back fits into the field. -/
lemma Inv.dropExchange_fits :
    freeBits bits + st.free < 2 ^ 13 := by
  have hi := h.cpu hx
  have hle := pc_weigh_le hx (.free st.groupIdx)
  have hst : (dropExchange k st bits).weigh (.free st.groupIdx) = st.free := if_pos rfl
  have hbound := h.counts.free_le st.groupIdx
  have hseen : freeBits bits ≤ freeBits (s.mem.l2 st.groupIdx) := hi.pc.2.2
  omega

lemma Inv.release (hbits : s.mem.l2 st.groupIdx = bits) : Inv A { s with
      mem := s.mem.setL2 st.groupIdx (released bits st.free st.allocatedBitmask)
      cpus := update s.cpus i ⟨guard, dropped k⟩ } := by
  have hi := h.cpu hx
  obtain ⟨hst, hslots, -⟩ := hi.pc
  have hfits := h.dropExchange_fits hx
  have hpos := owner_pos hx rfl
  have hown := h.owned hpos
  have hrest : total id (st.rest 8).l1Metadata = 0 := (total_eq_zero_iff _ _).2 fun c => if_neg (by omega)
  obtain ⟨hw, ha, hpc⟩ := dropped_spec (A := A) k
  refine h.setL2 hx (h.counts.setL2 (books_pc hx _) ?_ ?_ ?_ ?_) (fun f => hw _) (fun slot => hw _)
    (fun j hj hown => ?_) (fun hun => ?_) ha (hpc _)
  · rw [ownedBit_released, hown, hw]
    simp [Pc.weigh, PrivateState.weigh, PrivateState.rest]
  · rw [freeBits_released _ hfits, hw, hw, hbits]
    simp only [Pc.weigh, PrivateState.weigh, hrest]
    simp [PrivateState.rest]
  · intro g' c'
    have hlt : ¬8 ≤ c'.val := by omega
    rw [hw]
    simp [Pc.weigh, PrivateState.weigh, PrivateState.rest, hlt]
  · intro g' hne
    rw [hw, hw, hw]
    simp [Pc.weigh, PrivateState.weigh, PrivateState.rest, hne]
  · exact absurd rfl (h.counts.sole hj hpos hown)
  · rw [l1AllocatedBits_released, hslots]
    exact hst

end

omit [DecidableEq ι] in
/-- `REVERSE_MAP` leads to the chunk of a frame that is in use. -/
lemma Inv.reverseGet (h : Inv A s) (hx : s.cpus i = ⟨guard, .reverseGet f⟩) :
    A (ReverseMap.decode (s.mem.reverseMap f.slot)).1 (ReverseMap.decode (s.mem.reverseMap f.slot)).2 =
      some f.slot := by
  have hone : 1 ≤ books s.cpus (.pending f) := by
    refine le_trans ?_ (pc_weigh_le hx _)
    simp [Pc.weigh, one]
  by_contra hno
  have hnone : ∀ g c, A g c ≠ some f.slot := by
    intro g c hA
    rw [(h.plugs.reverse g c f.slot hA).1] at hno
    exact hno hA
  have hzero : books s.cpus (.pending f) = 0 := (h.uses.unused f.slot hnone f.idx).2
  omega

variable {full : Bool}

/-- A remote free is counted for the chunk and owed to the group. -/
lemma Inv.addL1 (h : Inv A s) (hx : s.cpus i = ⟨guard, .addL1 g c⟩) : Inv A { s with
      mem := s.mem.setL1 g c (s.mem.l1 g c + 1)
      cpus := update s.cpus i ⟨guard, .addL2 g full⟩ } := by
  refine h.setL1 hx (h.counts.setL1 (books_pc hx _) ?_ ?_ ?_ ?_ ?_) (fun _ => rfl) (fun _ => rfl) nofun
    trivial
  · simp [Pc.weigh, one]
  · simp [Pc.weigh, one]
  · intro g' c' hne
    simp [Pc.weigh, one, hne]
  · simp only [Pc.weigh, one]
    simp
    omega
  · intro g' hne
    simp [Pc.weigh, one, hne]

/-- The debt to the group is paid, without a carry into the owner bit. -/
lemma Inv.addL2 (h : Inv A s) (hx : s.cpus i = ⟨guard, .addL2 g full⟩) : Inv A { s with
      mem := s.mem.setL2 g (s.mem.l2 g + 1)
      cpus := update s.cpus i ⟨guard, if full then .claimLoad .always g else .idle⟩ } := by
  have hbound := h.counts.free_le g
  have hfits : freeBits (s.mem.l2 g) + 1 < 2 ^ 13 := by omega
  obtain ⟨hfree, howned, hmask⟩ := fetch_add_word hfits
  have hpc : (∀ k, (if full then .claimLoad .always g else .idle : Pc).weigh k = 0) ∧
      (if full then .claimLoad .always g else .idle : Pc).allocating = false ∧
      ∀ m, (if full then .claimLoad .always g else .idle : Pc).Ok A m := by
    cases full <;> exact ⟨fun _ => rfl, rfl, fun _ => trivial⟩
  refine h.setL2 hx (h.counts.setL2 (books_pc hx _) ?_ ?_ ?_ ?_) (fun f => hpc.1 _) (fun slot => hpc.1 _)
    (fun j hj hown => ?_) (fun hun => ?_) (fun ha => ?_) (hpc.2.2 _)
  · rw [howned, hpc.1]
    simp [Pc.weigh, one]
  · rw [hfree, hpc.1, hpc.1]
    simp [Pc.weigh, one]
  · intro g' c'
    rw [hpc.1]
    simp [Pc.weigh, one]
  · intro g' hne
    rw [hpc.1, hpc.1, hpc.1]
    simp [Pc.weigh, one, hne]
  · omega
  · rw [hmask]
    exact h.plugs.unowned g (howned ▸ hun)
  · rw [hpc.2.1] at ha
    cases ha

/-! ## A step of a CPU -/

/-- The frame that a step returns was not live and is in a plugged chunk. -/
def Out.Fresh (A : Slots) (s : State ι) (o : Out) : Prop :=
  ∀ f g c, o.returned = some (f, g, c) → s.live f = none ∧ A g c = some f.slot

def Kept (A : Slots) (s : State ι) (i : ι) (o : Out) : Prop := o.Fresh A s ∧ ∃ A', Inv A' (o.into s i)

lemma Kept.at {g : Option PrivateState} {o : Out} (ho : Out.at m g pc' = some o)
    (h : Inv A' { s with mem := m, cpus := update s.cpus i ⟨g, pc'⟩ }) : Kept A s i o := by
  cases ho
  exact ⟨nofun, A', h⟩

lemma Inv.exec (h : Inv A s) {o : Out} (ho : exec s.mem (s.cpus i) slot = some o) : Kept A s i o := by
  rcases hx : s.cpus i with ⟨guard, pc⟩
  have hi := h.cpus i
  rw [hx] at hi ho
  have hok := hi.pc
  cases pc with
  | idle | unreachable st | panicked st => cases ho
  | claimLoad check g =>
    obtain ⟨hw, ha, hpc⟩ := claimSeen_spec (A := A) check g (s.mem.l2 g)
    exact .at ho (h.quietPc hx hw ha (hpc _))
  | claimExchange check g bits =>
    simp only [FrameAlloc.exec] at ho
    split at ho
    · rename_i hbits
      exact .at ho (h.claim hx hbits)
    · obtain ⟨hw, ha, hpc⟩ := claimSeen_spec (A := A) check g (s.mem.l2 g)
      exact .at ho (h.quietPc hx hw ha (hpc _))
  | newSwap k st c =>
    obtain ⟨hslots, hzero⟩ := hok
    simp only [FrameAlloc.exec] at ho
    split at ho
    · rename_i hc
      refine .at ho (h.ownerL1 hx (fun _ => rfl) (fun _ => rfl) rfl rfl rfl ?_ id ⟨hslots, fun c' hc' => ?_⟩)
      · rw [hzero ⟨c, hc⟩ le_rfl, Nat.zero_add, Nat.add_zero]
      have hne : c' ≠ ⟨c, hc⟩ := fun he => by rw [he] at hc'; exact absurd hc' (by simp)
      simp only [PrivateState.setL1, update_of_ne hne]
      exact hzero c' (by omega)
    · exact .at ho (h.quietPc hx (fun _ => rfl) id ⟨hslots, fun c' hc' => absurd hc' (by omega)⟩)
  | newLoad k st c =>
    obtain ⟨hslots, hread⟩ := hok
    simp only [FrameAlloc.exec] at ho
    split at ho
    · rename_i hc
      refine .at ho (h.quietPc hx (fun _ => rfl) id ⟨hslots, fun c' hc' => ?_⟩)
      by_cases he : c' = ⟨c, hc⟩
      · subst he
        exact update_self ..
      have hlt : c'.val < c := by
        have : c'.val ≠ c := fun hv => he (Fin.ext hv)
        omega
      simp only [setSlot, update_of_ne he]
      exact hread c' hlt
    · rename_i hc
      have hst : st.Ok A := by
        have hall : st.physicalAddresses = s.mem.physicalAddresses st.groupIdx :=
          funext fun c' => hread c' (by omega)
        rw [PrivateState.Ok, hall]
        exact hslots
      obtain ⟨hw, ha, hpc⟩ := created_spec k hst
      exact .at ho (h.quietPc hx hw ha (hpc _))
  | search st =>
    obtain ⟨hw, hpc⟩ := searched_spec h hx
    exact .at ho (h.quietPc hx hw (fun _ => rfl) hpc)
  | findLoad st c w =>
    obtain ⟨hst, hfree, hl1, j, hj, hbit⟩ := hok
    obtain ⟨hw, hnext⟩ := findLoad_spec hj hbit
    simp only [FrameAlloc.exec, dif_pos hw] at ho
    split at ho
    · rename_i ht
      refine .at ho (h.quietPc hx (fun _ => rfl) id ⟨hst, hfree, hl1, ?_⟩)
      rw [bits_word]
      exact trailingOnes_lt ht
    · rename_i ht
      exact .at ho (h.quietPc hx (fun _ => rfl) id ⟨hst, hfree, hl1, j, hnext ht, hbit⟩)
  | findOr st c w t =>
    cases ho
    obtain ⟨hlive, hA, hinv⟩ := h.findOr hx rfl
    refine ⟨fun f g c' hf => ?_, A, hinv⟩
    cases hf
    exact ⟨hlive, hA⟩
  | plug st c =>
    simp only [FrameAlloc.exec] at ho
    split at ho
    · cases ho
    rename_i hfresh
    exact .at ho (h.plug hx (by simpa using hfresh))
  | reverseSet st c slot => exact .at ho (h.reverseSet hx)
  | refreshSwap k st c any =>
    simp only [FrameAlloc.exec] at ho
    split at ho
    · rename_i hc
      refine .at ho (h.ownerL1 hx (fun _ => rfl) (fun _ => rfl) rfl rfl rfl ?_ id hok)
      omega
    · exact .at ho (h.quietPc hx (fun _ => rfl) id hok)
  | refreshAnd k st any => exact .at ho (h.refreshAnd hx)
  | unplug k st c =>
    simp only [FrameAlloc.exec] at ho
    split at ho
    · rename_i hc
      split at ho
      · rename_i hfull
        rw [if_neg (by omega)] at ho
        exact .at ho (h.plugOut hx hfull.2)
      · exact .at ho (h.quietPc hx (fun _ => rfl) id hok)
    · refine .at ho (h.quietPc hx (fun key => ?_) id ⟨hok, fun c' hc' => absurd hc' (by omega)⟩)
      simp [Pc.weigh, rest_zero]
  | storeSlot k st c =>
    simp only [FrameAlloc.exec] at ho
    split at ho
    · rename_i hc
      exact .at ho (h.storeSlot (c := ⟨c, hc⟩) hx)
    rename_i hc
    refine .at ho (h.quietPc hx (fun key => ?_) id ⟨hok.1, funext fun c' => hok.2 c' (by omega)⟩)
    simp [Pc.weigh, st.rest_of_ge (Nat.le_of_not_lt hc)]
  | addFree k st c =>
    have hrest : (st.rest c).l1Metadata c = st.l1Metadata c := if_pos le_rfl
    have hw : ∀ key, (Pc.addFree k st c).weigh key = (st.rest c).weigh key := fun _ => rfl
    have hw' : ∀ key, (Pc.storeSlot k st (c + 1)).weigh key = (st.rest (c + 1)).weigh key := fun _ => rfl
    have hn : s.mem.l1 st.groupIdx c + st.l1Metadata c + 0 =
        s.mem.l1 (st.rest c).groupIdx c + (st.rest c).l1Metadata c := by
      rw [hrest]
      rfl
    have hinv := h.ownerL1 hx hw hw' rfl rfl (st.rest_succ c) hn id
      ⟨hok.1, fun c' hc' => hok.2 c' (Fin.mk_le_mk.2 (Nat.lt_succ_iff.1 hc'))⟩
    exact .at ho hinv
  | dropLoad k st => exact .at ho (h.quietPc hx (fun _ => rfl) id ⟨hok.1, hok.2, le_rfl⟩)
  | dropExchange k st bits =>
    have hfits := h.dropExchange_fits hx
    simp only [FrameAlloc.exec] at ho
    rw [if_neg (by omega)] at ho
    split at ho
    · rename_i hbits
      exact .at ho (h.release hx hbits)
    · exact .at ho (h.quietPc hx (fun _ => rfl) id ⟨hok.1, hok.2.1, le_rfl⟩)
  | reverseGet f =>
    refine .at ho (h.quietPc hx (fun _ => rfl) id ?_)
    exact h.reverseGet hx
  | clear f g c =>
    cases ho
    exact ⟨fun _ _ _ he => (by cases he), A, h.clear hx⟩
  | addL1 g c => exact .at ho (h.addL1 hx)
  | addL2 g full => exact .at ho (h.addL2 hx)

end

end Mushroom.L2.FrameAlloc
