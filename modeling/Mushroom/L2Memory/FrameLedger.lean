import Mushroom.L2Memory.FrameAlloc

/-!
# The books of the frame allocator

Every count that is in transit belongs to a CPU: the copies in its
`PrivateState`, a bit that it has cleared and not yet counted in `l1` or `l2`,
a frame that it is about to deallocate, a slot that it is about to plug in.
`weigh` says what one CPU has of each `Key`, and `books` sums over all CPUs;
the invariant balances the shared arrays against the books.
-/
namespace Mushroom.L2.FrameAlloc

open Function Ledger PrivateState Memory

/-! ## What a CPU has -/

inductive Key where
  /-- private states of the group -/
  | own (g : GroupIndex)
  /-- free frames of the chunk that `l1` does not count -/
  | count (g : GroupIndex) (c : ChunkIndex)
  /-- free frames of the group that `l2` does not count -/
  | free (g : GroupIndex)
  /-- what the private `l1` counters of the group add up to -/
  | sum (g : GroupIndex)
  /-- deallocations of the frame that have not reached its bit -/
  | pending (f : Frame)
  /-- plugged slots that are in no chunk yet -/
  | held (slot : SlotIndex)
  deriving DecidableEq

def one (k k' : Key) : Nat := if k' = k then 1 else 0

def PrivateState.weigh (st : PrivateState) : Key → Nat
  | .own g => if g = st.groupIdx then 1 else 0
  | .count g c => if g = st.groupIdx then st.l1Metadata c else 0
  | .free g => if g = st.groupIdx then st.free else 0
  | .sum g => if g = st.groupIdx then total id st.l1Metadata else 0
  | .pending _ | .held _ => 0

/-- The counters that `drop` has not written back before chunk `n`. -/
def PrivateState.rest (st : PrivateState) (n : Nat) : PrivateState :=
  { st with l1Metadata := fun c => if n ≤ c then st.l1Metadata c else 0 }

def Pc.weigh : Pc → Key → Nat
  | newSwap _ st _, k | newLoad _ st _, k | search st, k | findLoad st _ _, k | findOr st _ _ _, k
  | plug st _, k | refreshSwap _ st _ _, k | refreshAnd _ st _, k | unplug _ st _, k | unreachable st, k => st.weigh k
  | reverseSet st _ slot, k => st.weigh k + one (.held slot) k
  | storeSlot _ st c, k => (st.rest c).weigh k
  | addFree _ st c, k => (st.rest c).weigh k
  | dropLoad _ st, k | dropExchange _ st _, k => (st.rest 8).weigh k
  | reverseGet f, k | clear f _ _, k => one (.pending f) k
  | addL1 g c, k => one (.count g c) k
  | addL2 g _, k => one (.free g) k
  -- the chunk is out but `free` still counts it
  | panicked st, k => st.weigh k + if k = .sum st.groupIdx then 512 else 0
  | idle, _ | claimLoad _ _, _ | claimExchange _ _ _, _ => 0

def guardWeigh (guard : Option PrivateState) (k : Key) : Nat := guard.elim 0 fun st => st.weigh k

def Cpu.weigh (x : Cpu) (k : Key) : Nat := guardWeigh x.guard k + x.pc.weigh k

variable {ι : Type} [Fintype ι]

def books (cpus : ι → Cpu) (k : Key) : Nat := total (fun x : Cpu => x.weigh k) cpus

def Memory.clearBits (m : Memory) (g : GroupIndex) (c : ChunkIndex) : Nat :=
  total (fun b : Bool => (!b).toNat) (m.bits g c)

lemma Memory.clearBits_le (m : Memory) (g : GroupIndex) (c : ChunkIndex) : m.clearBits g c ≤ 512 :=
  (total_le_card _ _ fun _ => Bool.toNat_le _).trans (Fintype.card_fin 512).le

/-! ## The invariant -/

abbrev Slots := GroupIndex → ChunkIndex → Option SlotIndex

def slotsOf (mask : BitVec 8) (addresses : ChunkIndex → SlotIndex) (c : ChunkIndex) : Option SlotIndex :=
  if mask.getLsbD c then some (addresses c) else none

/-- The owner's copies say what is plugged in. -/
def PrivateState.Ok (A : Slots) (st : PrivateState) : Prop :=
  A st.groupIdx = slotsOf st.allocatedBitmask st.physicalAddresses

/-- An operation of `allocate_frame`, which has taken the private state out of
`guard`. -/
def Pc.allocating : Pc → Bool
  | claimLoad check _ | claimExchange check _ _ => check ≠ .always
  | newSwap k _ _ | newLoad k _ _ | unplug k _ _ | storeSlot k _ _ | addFree k _ _ | dropLoad k _
  | dropExchange k _ _ => k = .allocate
  | search _ | findLoad _ _ _ | findOr _ _ _ _ | plug _ _ | reverseSet _ _ _ => true
  | refreshSwap k _ _ _ | refreshAnd k _ _ => k = .again ∨ k = .drop .allocate
  | _ => false

def Pc.Ok (A : Slots) (m : Memory) : Pc → Prop
  | claimExchange _ _ bits => ownedBit bits = false
  | newSwap _ st n => A st.groupIdx = slotsOf st.allocatedBitmask (m.physicalAddresses st.groupIdx) ∧
      ∀ c : ChunkIndex, n ≤ c → st.l1Metadata c = 0
  | newLoad _ st n => A st.groupIdx = slotsOf st.allocatedBitmask (m.physicalAddresses st.groupIdx) ∧
      ∀ c : ChunkIndex, c < n → st.physicalAddresses c = m.physicalAddresses st.groupIdx c
  | search st | refreshSwap _ st _ _ | refreshAnd _ st _ | unplug _ st _ | panicked st => st.Ok A
  | findLoad st c w => st.Ok A ∧ 1 ≤ st.free ∧ 1 ≤ st.l1Metadata c ∧
      ∃ i : FrameIndex, w * 64 ≤ i ∧ m.bits st.groupIdx c i = false
  | findOr st c w t => st.Ok A ∧ 1 ≤ st.free ∧ 1 ≤ st.l1Metadata c ∧
      m.bits st.groupIdx c ⟨w * 64 + t, bit_lt w t⟩ = false
  | plug st c | reverseSet st c _ => st.Ok A ∧ st.allocatedBitmask.getLsbD c = false
  | storeSlot _ st n => st.Ok A ∧
      ∀ c : ChunkIndex, c < n → m.physicalAddresses st.groupIdx c = st.physicalAddresses c
  | addFree _ st n => st.Ok A ∧
      ∀ c : ChunkIndex, c ≤ n → m.physicalAddresses st.groupIdx c = st.physicalAddresses c
  | dropLoad _ st => st.Ok A ∧ m.physicalAddresses st.groupIdx = st.physicalAddresses
  | dropExchange _ st bits => st.Ok A ∧ m.physicalAddresses st.groupIdx = st.physicalAddresses ∧
      freeBits bits ≤ freeBits (m.l2 st.groupIdx)
  | clear f g c => A g c = some f.slot
  | unreachable _ => False
  | idle | claimLoad _ _ | reverseGet _ | addL1 _ _ | addL2 _ _ => True

structure Cpu.Ok (A : Slots) (m : Memory) (x : Cpu) : Prop where
  guard : ∀ st, x.guard = some st → st.Ok A
  taken : x.pc.allocating = true → x.guard = none
  pc : x.pc.Ok A m

structure Counts (A : Slots) (m : Memory) (b : Key → Nat) : Prop where
  owned : ∀ g, (ownedBit (m.l2 g)).toNat = b (.own g)
  count : ∀ g c, m.l1 g c + b (.count g c) = if (A g c).isSome then m.clearBits g c else 0
  free : ∀ g, freeBits (m.l2 g) + b (.free g) = total id (m.l1 g) + b (.sum g)

/-- A bit is set while a caller or a deallocation has the frame, and only then. -/
structure Uses (A : Slots) (m : Memory) (live : Frame → Option (GroupIndex × ChunkIndex)) (b : Key → Nat) : Prop where
  spare : ∀ g c, A g c = none → ∀ i, m.bits g c i = false
  used : ∀ g c slot, A g c = some slot → ∀ i,
    (live ⟨slot, i⟩).isSome.toNat + b (.pending ⟨slot, i⟩) = (m.bits g c i).toNat
  unused : ∀ slot, (∀ g c, A g c ≠ some slot) → ∀ i, live ⟨slot, i⟩ = none ∧ b (.pending ⟨slot, i⟩) = 0
  origin : ∀ f g c, live f = some (g, c) → A g c = some f.slot

structure Plugs (A : Slots) (m : Memory) (b : Key → Nat) : Prop where
  reverse : ∀ g c slot, A g c = some slot → ReverseMap.decode (m.reverseMap slot) = (g, c) ∧ m.plugged slot = true
  held : ∀ slot, b (.held slot) ≤ 1 ∧ (0 < b (.held slot) → m.plugged slot = true ∧ ∀ g c, A g c ≠ some slot)
  unowned : ∀ g, ownedBit (m.l2 g) = false → A g = slotsOf (l1AllocatedBits (m.l2 g)) (m.physicalAddresses g)

structure Inv (A : Slots) (s : State ι) : Prop where
  counts : Counts A s.mem (books s.cpus)
  uses : Uses A s.mem s.live (books s.cpus)
  plugs : Plugs A s.mem (books s.cpus)
  cpus : ∀ i, (s.cpus i).Ok A s.mem

/-! ## Bounds -/

lemma PrivateState.weigh_sum (st : PrivateState) (g : GroupIndex) : st.weigh (.sum g) = ∑ c, st.weigh (.count g c) := by
  by_cases h : g = st.groupIdx
  · simp [weigh, h, total]
  · simp [weigh, h]

lemma Pc.weigh_sum_le (pc : Pc) (g : GroupIndex) :
    pc.weigh (.sum g) ≤ (∑ c, pc.weigh (.count g c)) + 512 * pc.weigh (.own g) := by
  cases pc with
  | panicked st =>
    have hs := st.weigh_sum g
    by_cases h : g = st.groupIdx
    · have hown : st.weigh (.own g) = 1 := by simp [PrivateState.weigh, h]
      simp only [Pc.weigh, hs, hown]
      simp [h]
    · simp [Pc.weigh, hs, h]
  | _ => simp [Pc.weigh, PrivateState.weigh_sum, one]

lemma Cpu.weigh_sum_le (x : Cpu) (g : GroupIndex) :
    x.weigh (.sum g) ≤ (∑ c, x.weigh (.count g c)) + 512 * x.weigh (.own g) := by
  have hpc := x.pc.weigh_sum_le g
  have hguard : guardWeigh x.guard (.sum g) = ∑ c, guardWeigh x.guard (.count g c) := by
    cases hx : x.guard with
    | none => simp [guardWeigh]
    | some st => exact st.weigh_sum g
  simp only [Cpu.weigh, Finset.sum_add_distrib, hguard]
  omega

lemma books_sum_le (cpus : ι → Cpu) (g : GroupIndex) :
    books cpus (.sum g) ≤ (∑ c, books cpus (.count g c)) + 512 * books cpus (.own g) := by
  calc books cpus (.sum g)
      ≤ total (fun x : Cpu => (∑ c, x.weigh (.count g c)) + 512 * x.weigh (.own g)) cpus :=
        total_mono _ _ fun i => (cpus i).weigh_sum_le g
    _ = (∑ c, books cpus (.count g c)) + 512 * books cpus (.own g) := by
      rw [total_add, total_sum, total_mul]
      rfl

lemma le_books (cpus : ι → Cpu) (i : ι) (k : Key) : (cpus i).weigh k ≤ books cpus k :=
  le_total (fun x : Cpu => x.weigh k) cpus i

variable {m : Memory} {A : Slots} {cpus : ι → Cpu} {g g' : GroupIndex} {st : PrivateState}

/-- The free frames of a group, counted or not, are those of its chunks. -/
lemma Counts.free_le (h : Counts A m (books cpus)) (g : GroupIndex) :
    freeBits (m.l2 g) + books cpus (.free g) ≤ 4608 := by
  have hchunk : ∀ c, m.l1 g c + books cpus (.count g c) ≤ 512 := by
    intro c
    rw [h.count g c]
    split
    · exact m.clearBits_le g c
    · exact Nat.zero_le _
  have hall : total id (m.l1 g) + ∑ c, books cpus (.count g c) ≤ 4096 := by
    rw [total, ← Finset.sum_add_distrib]
    exact (Finset.sum_le_sum fun c _ => hchunk c).trans (by simp)
  have hown : books cpus (.own g) ≤ 1 := (h.owned g).ge.trans (Bool.toNat_le _)
  have hsum := books_sum_le cpus g
  rw [h.free g]
  omega

variable [DecidableEq ι]

lemma books_update (cpus : ι → Cpu) (i : ι) (y : Cpu) (k : Key) :
    books (update cpus i y) k + (cpus i).weigh k = books cpus k + y.weigh k :=
  total_update _ _ i y

lemma books_quiet {i : ι} {y : Cpu} (h : ∀ k, y.weigh k = (cpus i).weigh k) : books (update cpus i y) = books cpus := by
  funext k
  have := books_update cpus i y k
  rw [h k] at this
  omega

lemma Counts.sole (h : Counts A m (books cpus)) {i j : ι}
    (hij : j ≠ i) (hi : 0 < (cpus i).weigh (.own g)) (hj : 0 < (cpus j).weigh (.own g')) : g' ≠ g := by
  rintro rfl
  have htwo : (cpus j).weigh (.own g') + (cpus i).weigh (.own g') ≤ books cpus (.own g') :=
    add_le_total (fun x : Cpu => x.weigh (.own g')) cpus hij
  have hone : books cpus (.own g') ≤ 1 := (h.owned g').ge.trans (Bool.toNat_le _)
  omega

def frameWeigh (g : GroupIndex) (c : ChunkIndex) : Key → Nat
  | .count g' c' => if g' = g ∧ c' = c then 1 else 0
  | .free g' | .sum g' => if g' = g then 1 else 0
  | _ => 0

lemma PrivateState.weigh_give (st : PrivateState) (c : ChunkIndex) (k : Key) :
    (st.give c).weigh k = st.weigh k + frameWeigh st.groupIdx c k := by
  cases k with
  | own g | pending f | held slot => rfl
  | count g c' =>
    simp only [weigh, give, setL1, frameWeigh]
    by_cases hg : g = st.groupIdx
    · by_cases hc : c' = c
      · simp [hg, hc]
      · simp [hg, hc]
    · simp [hg]
  | free g =>
    simp only [weigh, give, setL1, frameWeigh]
    by_cases hg : g = st.groupIdx
    · simp [hg]
    · simp [hg]
  | sum g =>
    have hsum := total_update id st.l1Metadata c (st.l1Metadata c + 1)
    simp only [id] at hsum
    simp only [weigh, give, setL1, frameWeigh]
    by_cases hg : g = st.groupIdx
    · simp only [hg, if_true]
      omega
    · simp [hg]

variable {c : ChunkIndex}

lemma PrivateState.give_take (hf : 1 ≤ st.free) (hc : 1 ≤ st.l1Metadata c) : (st.take c).give c = st := by
  simp [give, take, setL1, Nat.sub_add_cancel hf, Nat.sub_add_cancel hc]

/-! ## What a CPU relies on -/

/-- What a step of another CPU leaves as it is. -/
structure Rely (A A' : Slots) (m m' : Memory) (x : Cpu) : Prop where
  slots : ∀ g, 0 < x.weigh (.own g) → A' g = A g ∧ m'.physicalAddresses g = m.physicalAddresses g
  free : ∀ g, 0 < x.weigh (.own g) → freeBits (m.l2 g) ≤ freeBits (m'.l2 g)
  bits : ∀ g c i, 0 < x.weigh (.own g) → m.bits g c i = false → m'.bits g c i = false
  pending : ∀ f g c, 0 < x.weigh (.pending f) → A g c = some f.slot → A' g c = some f.slot

lemma PrivateState.weigh_own (st : PrivateState) : st.weigh (.own st.groupIdx) = 1 := by simp [weigh]

def Pc.private? : Pc → Option PrivateState
  | newSwap _ st _ | newLoad _ st _ | search st | findLoad st _ _ | findOr st _ _ _ | plug st _
  | reverseSet st _ _ | refreshSwap _ st _ _ | refreshAnd _ st _ | unplug _ st _ | storeSlot _ st _
  | addFree _ st _ | dropLoad _ st | dropExchange _ st _ | unreachable st | panicked st => some st
  | _ => none

lemma Cpu.own_pos {x : Cpu} (h : x.guard = some st ∨ x.pc.private? = some st) : 0 < x.weigh (.own st.groupIdx) := by
  rcases h with h | h
  · simp [Cpu.weigh, guardWeigh, h, st.weigh_own]
  refine Nat.lt_of_lt_of_le ?_ (Nat.le_add_left _ _)
  cases hpc : x.pc <;> rw [hpc] at h <;> cases h <;>
    simp [Pc.weigh, PrivateState.weigh, PrivateState.rest]

variable {m' : Memory}

lemma Cpu.Ok.rely {A' : Slots} {x : Cpu} (h : x.Ok A m) (r : Rely A A' m m' x) : x.Ok A' m' := by
  have hst : ∀ st, x.guard = some st ∨ x.pc.private? = some st → st.Ok A → st.Ok A' := by
    intro st hx hok
    rw [PrivateState.Ok, (r.slots _ (Cpu.own_pos hx)).1]
    exact hok
  refine ⟨fun st hg => hst st (.inl hg) (h.guard st hg), h.taken, ?_⟩
  have hslots : ∀ st, x.pc.private? = some st → A' st.groupIdx = A st.groupIdx ∧
      m'.physicalAddresses st.groupIdx = m.physicalAddresses st.groupIdx :=
    fun st hp => r.slots _ (Cpu.own_pos (.inr hp))
  have hpc := h.pc
  obtain ⟨guard, pc⟩ := x
  cases pc with
  | idle | claimLoad check g | reverseGet f | addL1 g c | addL2 g full => trivial
  | claimExchange check g bits => exact hpc
  | unreachable st => exact hpc
  | search st | refreshSwap k st n any | refreshAnd k st any | unplug k st n | panicked st =>
    exact hst st (.inr rfl) hpc
  | plug st c | reverseSet st c slot => exact ⟨hst st (.inr rfl) hpc.1, hpc.2⟩
  | newSwap k st n =>
    obtain ⟨hA, hm⟩ := hslots st rfl
    exact ⟨by rw [hA, hm]; exact hpc.1, hpc.2⟩
  | newLoad k st n =>
    obtain ⟨hA, hm⟩ := hslots st rfl
    exact ⟨by rw [hA, hm]; exact hpc.1, by rw [hm]; exact hpc.2⟩
  | findLoad st c w =>
    obtain ⟨hok, hf, hl, i, hi, hb⟩ := hpc
    exact ⟨hst st (.inr rfl) hok, hf, hl, i, hi, r.bits _ _ _ (Cpu.own_pos (.inr rfl)) hb⟩
  | findOr st c w t =>
    obtain ⟨hok, hf, hl, hb⟩ := hpc
    exact ⟨hst st (.inr rfl) hok, hf, hl, r.bits _ _ _ (Cpu.own_pos (.inr rfl)) hb⟩
  | storeSlot k st n | addFree k st n | dropLoad k st =>
    exact ⟨hst st (.inr rfl) hpc.1, by rw [(hslots st rfl).2]; exact hpc.2⟩
  | dropExchange k st bits =>
    exact ⟨hst st (.inr rfl) hpc.1, by rw [(hslots st rfl).2]; exact hpc.2.1,
      hpc.2.2.trans (r.free _ (Cpu.own_pos (.inr rfl)))⟩
  | clear f g c => exact r.pending f g c (by simp [Cpu.weigh, Pc.weigh, one]) hpc

lemma Rely.congr (A : Slots) (x : Cpu) (hs : m'.physicalAddresses = m.physicalAddresses)
    (hl2 : m'.l2 = m.l2) (hbits : m'.bits = m.bits) : Rely A A m m' x :=
  ⟨fun _ _ => ⟨rfl, congrFun hs _⟩, fun _ _ => by rw [hl2], fun _ _ _ _ h => by rw [hbits]; exact h, fun _ _ _ _ h => h⟩

/-! ## Steps -/

section

variable {A A' : Slots} {m m' : Memory} {b b' w w' : Key → Nat}
  {live live' : Frame → Option (GroupIndex × ChunkIndex)} {o : Option SlotIndex} {slot : SlotIndex} {g' : GroupIndex}
  {c' : ChunkIndex} {i : FrameIndex}

lemma put_apply {α β γ : Type} [DecidableEq α] [DecidableEq β] (f : α → β → γ) (a a' : α) (b b' : β) (v : γ) :
    put f a b v a' b' = if a' = a ∧ b' = b then v else f a' b' := by
  simp only [put, update_apply]
  grind

lemma Counts.setL1 (h : Counts A m b) (hb : ∀ k, b' k + w k = b k + w' k) {n : Nat}
    (hown : ∀ g', w' (.own g') = w (.own g')) (hcount : n + w' (.count g c) = m.l1 g c + w (.count g c))
    (hother : ∀ g' c', ¬(g' = g ∧ c' = c) → w' (.count g' c') = w (.count g' c'))
    (hfree : w' (.free g) + m.l1 g c + w (.sum g) = w (.free g) + n + w' (.sum g))
    (hgroups : ∀ g', g' ≠ g → w' (.free g') = w (.free g') ∧ w' (.sum g') = w (.sum g')) :
    Counts A (m.setL1 g c n) b' := by
  have hrow := total_update id (m.l1 g) c n
  have hput : ∀ g', (m.setL1 g c n).l1 g' = if g' = g then update (m.l1 g) c n else m.l1 g' := fun _ => update_apply ..
  obtain ⟨hown', hcount', hfree'⟩ := h
  refine ⟨fun g' => ?_, fun g' c' => ?_, fun g' => ?_⟩
  · show (ownedBit (m.l2 g')).toNat = _
    grind
  · show (m.setL1 g c n).l1 g' c' + _ = if (A g' c').isSome then m.clearBits g' c' else 0
    rw [hput, ← hcount']
    grind [update_apply]
  · show freeBits (m.l2 g') + _ = _
    rw [hput]
    grind

lemma Counts.setL2 (h : Counts A m b) (hb : ∀ k, b' k + w k = b k + w' k) {bits : Nat}
    (hown : (ownedBit bits).toNat + w (.own g) = (ownedBit (m.l2 g)).toNat + w' (.own g))
    (hfree : freeBits bits + w' (.free g) + w (.sum g) = freeBits (m.l2 g) + w (.free g) + w' (.sum g))
    (hcount : ∀ g' c', w' (.count g' c') = w (.count g' c'))
    (hgroups : ∀ g', g' ≠ g → w' (.own g') = w (.own g') ∧ w' (.free g') = w (.free g') ∧ w' (.sum g') = w (.sum g')) :
    Counts A (m.setL2 g bits) b' := by
  have hl2 : ∀ g', (m.setL2 g bits).l2 g' = if g' = g then bits else m.l2 g' := fun _ => update_apply ..
  obtain ⟨hown', hcount', hfree'⟩ := h
  refine ⟨fun g' => ?_, fun g' c' => ?_, fun g' => ?_⟩
  · rw [hl2]
    grind
  · show m.l1 g' c' + _ = if (A g' c').isSome then m.clearBits g' c' else 0
    grind
  show _ = total id (m.l1 g') + _
  rw [hl2]
  grind

lemma Counts.setPlace (m' : Memory) (h : Counts A m b) (hb : ∀ k, b' k + w k = b k + w' k)
    (hl1 : m'.l1 = m.l1) (hl2 : m'.l2 = m.l2) (hbits : m'.bits = m.bits) (hown : ∀ g', w' (.own g') = w (.own g'))
    (hcount : m.l1 g c + b' (.count g c) = if o.isSome then m.clearBits g c else 0)
    (hother : ∀ g' c', ¬(g' = g ∧ c' = c) → w' (.count g' c') = w (.count g' c'))
    (hfree : ∀ g', w' (.free g') + w (.sum g') = w (.free g') + w' (.sum g')) : Counts (put A g c o) m' b' := by
  have hclear : ∀ g c, m'.clearBits g c = m.clearBits g c := fun g c => by rw [clearBits, hbits, clearBits]
  obtain ⟨hown', hcount', hfree'⟩ := h
  constructor <;> simp only [hl1, hl2, hclear, put_apply] <;> grind

lemma Plugs.inj (h : Plugs A m b) (hA : A g c = some slot) (hA' : A g' c' = some slot) : g' = g ∧ c' = c := by
  have he := (h.reverse _ _ _ hA').1.symm.trans (h.reverse _ _ _ hA).1
  exact ⟨congrArg Prod.fst he, congrArg Prod.snd he⟩

lemma place_ne (hA : A g c = o) (hA' : A g' c' ≠ o) : ¬(g' = g ∧ c' = c) := by
  intro he
  rw [he.1, he.2] at hA'
  exact hA' hA

/-- A slot that nobody uses is plugged into an empty chunk. -/
lemma Uses.plugIn (m' : Memory) (h : Uses A m live b) (hbits : m'.bits = m.bits)
    (hb : ∀ f, b' (.pending f) = b (.pending f)) (hnone : A g c = none) (hno : ∀ g c, A g c ≠ some slot) :
    Uses (put A g c (some slot)) m' live b' := by
  have hun := h.unused slot hno
  obtain ⟨hspare, hused, hunused, horigin⟩ := h
  refine ⟨?_, ?_, fun slot' hno' j => ?_, ?_⟩
  · simp only [hbits, put_apply]
    grind
  · simp only [hb, hbits, put_apply]
    grind
  · rw [hb]
    exact hunused slot' (fun g' c' hA' => hno' g' c' (by rw [put_apply]; grind)) j
  · simp only [put_apply]
    grind

lemma Plugs.plugIn (h : Plugs A m b) (hplugged : m.plugged slot) (hno : ∀ g c, A g c ≠ some slot)
    (howned : ownedBit (m.l2 g)) (hself : b' (.held slot) = 0)
    (hother : ∀ slot', slot' ≠ slot → b' (.held slot') = b (.held slot')) :
    Plugs (put A g c (some slot)) (m.setReverse slot (ReverseMap.encode g c)) b' := by
  obtain ⟨hreverse, hheld, hun⟩ := h
  have hcode := decode_encode g c
  refine ⟨?_, ?_, fun g' hg' => ?_⟩
  · simp only [setReverse, put_apply, update_apply]
    grind
  · simp only [setReverse, put_apply]
    grind
  · rw [put, update_of_ne (by rintro rfl; cases howned.symm.trans hg')]
    exact hun g' hg'

/-- A chunk whose frames are all free is unplugged. -/
lemma Uses.plugOut (m' : Memory) (h : Uses A m live b) (hbits : m'.bits = m.bits)
    (hb : ∀ f, b' (.pending f) = b (.pending f)) (hA : A g c = some slot) (hclear : ∀ i, m.bits g c i = false) :
    Uses (put A g c none) m' live b' := by
  have hun : ∀ i, live ⟨slot, i⟩ = none ∧ b (.pending ⟨slot, i⟩) = 0 := by
    intro i
    have hused := h.used g c slot hA i
    rw [hclear, Bool.toNat_false] at hused
    exact ⟨by simpa using (Nat.add_eq_zero_iff.1 hused).1, (Nat.add_eq_zero_iff.1 hused).2⟩
  obtain ⟨hspare, hused, hunused, horigin⟩ := h
  refine ⟨?_, ?_, fun slot' hno j => ?_, ?_⟩
  · simp only [hbits, put_apply]
    grind
  · simp only [hb, hbits, put_apply]
    grind
  · rw [hb]
    rcases eq_or_ne slot' slot with rfl | hne
    · exact hun j
    · exact hunused slot' (fun g' c' hA' => hno g' c' (by rw [put_apply]; grind)) j
  · rintro ⟨slot', i⟩ g' c' hf
    have hplace := horigin _ _ _ hf
    rw [put_apply, if_neg (by rintro ⟨rfl, rfl⟩; grind)]
    exact hplace

lemma Plugs.plugOut (h : Plugs A m b) (hA : A g c = some slot) (howned : ownedBit (m.l2 g))
    (hb : ∀ slot, b' (.held slot) = b (.held slot)) : Plugs (put A g c none) (m.setPlugged slot false) b' := by
  obtain ⟨hreverse, hheld, hun⟩ := h
  refine ⟨?_, ?_, fun g' hg' => ?_⟩
  iterate 2
    simp only [setPlugged, put_apply, update_apply]
    grind
  · rw [put, update_of_ne (by rintro rfl; cases howned.symm.trans hg')]
    exact hun g' hg'

lemma Counts.congr (h : Counts A m b) (hl1 : m'.l1 = m.l1) (hl2 : m'.l2 = m.l2) (hbits : m'.bits = m.bits) :
    Counts A m' b where
  owned := by rw [hl2]; exact h.owned
  count := by simp only [clearBits, hbits, hl1]; exact h.count
  free := by rw [hl1, hl2]; exact h.free

lemma Uses.congr (h : Uses A m live b) (hbits : m'.bits = m.bits)
    (hb : ∀ f, b' (.pending f) = b (.pending f)) : Uses A m' live b' where
  spare g c := by rw [hbits]; exact h.spare g c
  used g c slot := by simp only [hbits, hb]; exact h.used g c slot
  unused slot := by simp only [hb]; exact h.unused slot
  origin := h.origin

lemma Plugs.congr (h : Plugs A m b) (hrev : m'.reverseMap = m.reverseMap) (hplug : m'.plugged = m.plugged)
    (hb : ∀ slot, b' (.held slot) = b (.held slot))
    (hun : ∀ g, ownedBit (m'.l2 g) = false → A g = slotsOf (l1AllocatedBits (m'.l2 g)) (m'.physicalAddresses g)) :
    Plugs A m' b' where
  reverse := by rw [hrev, hplug]; exact h.reverse
  held := by simp only [hplug, hb]; exact h.held
  unowned := hun

lemma Counts.setBit (h : Counts A m b) (hb : ∀ k, b' k + w k = b k + w' k) {v : Bool}
    (hm : m'.bits = put m.bits g c (update (m.bits g c) i v)) (hl1 : m'.l1 = m.l1) (hl2 : m'.l2 = m.l2)
    (hA : (A g c).isSome) (hown : ∀ g', w' (.own g') = w (.own g'))
    (hcount : w' (.count g c) + (!m.bits g c i).toNat = w (.count g c) + (!v).toNat)
    (hother : ∀ g' c', ¬(g' = g ∧ c' = c) → w' (.count g' c') = w (.count g' c'))
    (hfree : ∀ g', w' (.free g') + w (.sum g') = w (.free g') + w' (.sum g')) : Counts A m' b' := by
  have hrow := total_update (fun b : Bool => (!b).toNat) (m.bits g c) i v
  obtain ⟨hown', hcount', hfree'⟩ := h
  refine ⟨?_, fun g' c' => ?_, ?_⟩
  · simp only [hl2]
    grind
  · have hc := hcount' g' c'
    simp only [hl1, clearBits, hm] at hc ⊢
    by_cases he : g' = g ∧ c' = c
    · obtain ⟨rfl, rfl⟩ := he
      rw [put_self]
      grind
    · rw [put_ne _ _ he]
      grind
  · simp only [hl1, hl2]
    grind

lemma Uses.setBit (h : Uses A m live b) (hp : Plugs A m b) {v : Bool} (hA : A g c = some slot)
    (hm : m'.bits = put m.bits g c (update (m.bits g c) i v)) (hlive : ∀ f, f ≠ ⟨slot, i⟩ → live' f = live f)
    (hpend : ∀ f, f ≠ ⟨slot, i⟩ → b' (.pending f) = b (.pending f))
    (hi : (live' ⟨slot, i⟩).isSome.toNat + b' (.pending ⟨slot, i⟩) = v.toNat)
    (horigin : ∀ p, live' ⟨slot, i⟩ = some p → p = (g, c)) : Uses A m' live' b' := by
  obtain ⟨hspare, hused, hunused, horig⟩ := h
  have hinj : ∀ g' c', A g' c' = some slot → g' = g ∧ c' = c := fun g' c' hA' => hp.inj hA hA'
  have hframe : ∀ slot' j, (⟨slot', j⟩ : Frame) = ⟨slot, i⟩ ↔ slot' = slot ∧ j = i := by simp
  refine ⟨?_, ?_, fun slot' hno j => ?_, ?_⟩
  · simp only [hm, put_apply]
    grind
  · simp only [hm, put_apply]
    grind [update_apply]
  · have hf : (⟨slot', j⟩ : Frame) ≠ ⟨slot, i⟩ := fun hs => hno g c (((hframe _ _).1 hs).1 ▸ hA)
    rw [hlive _ hf, hpend _ hf]
    exact hunused slot' hno j
  · grind

end

end Mushroom.L2.FrameAlloc
