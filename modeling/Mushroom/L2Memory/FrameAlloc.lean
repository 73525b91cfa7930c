import Mushroom.Core.LTS
import Mushroom.Core.Ledger

/-!
# The physical frame allocator

A slot of 2 MiB that the supervisor has plugged in is a chunk of 512 frames;
eight chunks are a group, and the CPU that owns a group alone allocates from it.
`l0` has a bit for each frame, `l1` a counter for each chunk and `l2` a word for
each group (free frames, owner bit, plugged chunks); the owner works on copies of
the counters in its `PrivateState`.

Every access to the shared arrays is a step; a program counter holds the locals.
Counters are natural numbers (`counters_le`: they stay below their widths), the
`l2` word is packed as in the source, and a subtraction below zero stops the CPU.
-/
namespace Mushroom.L2.FrameAlloc

open Function
open BitVec (ofNat twoPow)

/-- `LimitedIndex<CHUNK_SIZE>` -/
abbrev FrameIndex := Fin 512
/-- `LimitedIndex<GROUP_SIZE>` -/
abbrev ChunkIndex := Fin 8
/-- `LimitedIndex<SUPER_GROUP_SIZE>` -/
abbrev GroupIndex := Fin 4096

scoped instance groups_neZero : NeZero 4096 := ⟨by decide⟩
/-- `LimitedIndex<SLOTS>` -/
abbrev SlotIndex := Fin 32768

scoped instance slots_neZero : NeZero 32768 := ⟨by decide⟩

/-- `PhysFrame` number `idx` of the slot. -/
structure Frame where
  slot : SlotIndex
  idx : FrameIndex
  deriving DecidableEq

/-! ## Words -/

/-- `u64::trailing_ones`, 64 if all bits are set. -/
def trailingOnes (value : BitVec 64) : Nat := ((List.range 64).find? fun t => !value.getLsbD t).getD 64

/-- kernel/memory/frame.rs:271-278; `bit_field` ranges 0..13, 13 and
14..22 of the word -/
def freeBits (bits : Nat) : Nat := bits % 2 ^ 13
def ownedBit (bits : Nat) : Bool := bits / 2 ^ 13 % 2 = 1
def l1AllocatedBits (bits : Nat) : BitVec 8 := ofNat 8 (bits / 2 ^ 14)

def setFreeBits (bits v : Nat) : Nat := bits / 2 ^ 13 * 2 ^ 13 + v
def setOwnedBit (bits : Nat) (b : Bool) : Nat := bits / 2 ^ 14 * 2 ^ 14 + b.toNat * 2 ^ 13 + bits % 2 ^ 13
def setL1AllocatedBits (bits : Nat) (mask : BitVec 8) : Nat :=
  bits / 2 ^ 22 * 2 ^ 22 + mask.toNat * 2 ^ 14 + bits % 2 ^ 14

/-- frame.rs:408-410 -/
def countZeros (mask : BitVec 8) : Nat := (List.finRange 8).countP fun c => !mask.getLsbD c

/-- frame.rs:412-414 -/
def findZero (mask : BitVec 8) : Option ChunkIndex := (List.finRange 8).find? fun c => !mask.getLsbD c

/-- frame.rs:416-418 -/
def setMask (mask : BitVec 8) (c : ChunkIndex) (value : Bool) : BitVec 8 :=
  if value then mask ||| twoPow 8 c else mask &&& ~~~twoPow 8 c

/-- The `check` functions of `claim`.
frame.rs:286-305 -/
inductive Check where
  | isPartial | isFree | isNotCompletlyUsed | always
  deriving DecidableEq

def Check.eval : Check → Nat → Bool
  | isPartial, available => !decide (3584 < available) && !decide (available < 512)
  | isFree, available => decide (3584 < available)
  | isNotCompletlyUsed, available => decide (available ≠ 0)
  | always, _ => true

def available (bits : Nat) : Nat := freeBits bits + countZeros (l1AllocatedBits bits) * 512

/-- `claim` goes on to the exchange. frame.rs:312-327 -/
def claimable (check : Check) (bits : Nat) : Bool := !ownedBit bits && check.eval (available bits)

def claimed (bits : Nat) : Nat := setOwnedBit (setFreeBits bits 0) true

/-- What `drop` writes back. frame.rs:539-548 -/
def released (bits free : Nat) (mask : BitVec 8) : Nat :=
  setL1AllocatedBits (setOwnedBit (setFreeBits bits (freeBits bits + free)) false) mask

/-- frame.rs:609-616 -/
def ReverseMap.decode (bits : Nat) : GroupIndex × ChunkIndex :=
  (⟨bits / 2 ^ 3 % 2 ^ 12, Nat.mod_lt _ (by decide)⟩, ⟨bits % 2 ^ 3, Nat.mod_lt _ (by decide)⟩)

/-- frame.rs:618-625 -/
def ReverseMap.encode (g : GroupIndex) (c : ChunkIndex) : Nat := c.val + g.val * 2 ^ 3

variable {v : Nat}

lemma freeBits_setFreeBits {bits : Nat} (h : v < 2 ^ 13) : freeBits (setFreeBits bits v) = v := by
  simp only [freeBits, setFreeBits]
  omega

lemma div_setFreeBits {bits : Nat} (h : v < 2 ^ 13) : setFreeBits bits v / 2 ^ 13 = bits / 2 ^ 13 := by
  simp only [setFreeBits]
  omega

lemma ownedBit_setFreeBits {bits : Nat} (h : v < 2 ^ 13) : ownedBit (setFreeBits bits v) = ownedBit bits := by
  simp only [ownedBit, div_setFreeBits h]

lemma ownedBit_claimed (bits : Nat) : ownedBit (claimed bits) := by
  refine decide_eq_true ?_
  simp only [claimed, setOwnedBit, setFreeBits, Bool.toNat_true]
  omega

lemma freeBits_claimed (bits : Nat) : freeBits (claimed bits) = 0 := by
  simp only [freeBits, claimed, setOwnedBit, setFreeBits, Bool.toNat_true]
  omega

lemma freeBits_released {bits free : Nat} (mask : BitVec 8) (h : freeBits bits + free < 2 ^ 13) :
    freeBits (released bits free mask) = freeBits bits + free := by
  simp only [freeBits, released, setOwnedBit, setFreeBits, setL1AllocatedBits, Bool.toNat_false] at h ⊢
  omega

lemma ownedBit_released (bits free : Nat) (mask : BitVec 8) : ownedBit (released bits free mask) = false := by
  refine decide_eq_false ?_
  simp only [released, setOwnedBit, setFreeBits, setL1AllocatedBits, Bool.toNat_false]
  omega

lemma l1AllocatedBits_released (bits free : Nat) (mask : BitVec 8) :
    l1AllocatedBits (released bits free mask) = mask := by
  apply BitVec.eq_of_toNat_eq
  have hm := mask.isLt
  simp only [l1AllocatedBits, released, setL1AllocatedBits, BitVec.toNat_ofNat]
  omega

lemma decode_encode (g : GroupIndex) (c : ChunkIndex) : ReverseMap.decode (ReverseMap.encode g c) = (g, c) := by
  have hg := g.isLt
  have hc := c.isLt
  ext <;> simp only [ReverseMap.decode, ReverseMap.encode] <;> omega

/-- `fetch_add` on the word counts one frame more and touches no other field. -/
lemma fetch_add_word {bits : Nat} (h : freeBits bits + 1 < 2 ^ 13) :
    freeBits (bits + 1) = freeBits bits + 1 ∧ ownedBit (bits + 1) = ownedBit bits ∧
      l1AllocatedBits (bits + 1) = l1AllocatedBits bits := by
  simp only [freeBits] at h ⊢
  have h13 : (bits + 1) / 2 ^ 13 = bits / 2 ^ 13 := by omega
  have h14 : (bits + 1) / 2 ^ 14 = bits / 2 ^ 14 := by omega
  refine ⟨by omega, ?_, ?_⟩
  · rw [ownedBit, ownedBit, h13]
  · rw [l1AllocatedBits, l1AllocatedBits, h14]

lemma getLsbD_setMask (mask : BitVec 8) (c c' : ChunkIndex) (b : Bool) :
    (setMask mask c b).getLsbD c' = if c' = c then b else mask.getLsbD c' := by
  have hlt : c'.val < 8 := c'.isLt
  by_cases he : c' = c
  · subst he
    cases b <;> simp [setMask, hlt]
  · have hne : ¬c'.val = c.val := fun h => he (Fin.ext h)
    cases b <;> simp [setMask, he, hne]

lemma findZero_eq_some {mask : BitVec 8} {c : ChunkIndex} (h : findZero mask = some c) : mask.getLsbD c = false := by
  simpa using List.find?_some h

lemma trailingOnes_lt {v : BitVec 64} (h : trailingOnes v < 64) : v.getLsbD (trailingOnes v) = false := by
  simp only [trailingOnes] at h ⊢
  cases hf : (List.range 64).find? fun t => !v.getLsbD t with
  | none => simp [hf] at h
  | some t => simpa using List.find?_some hf

lemma trailingOnes_full {v : BitVec 64} (h : ¬trailingOnes v < 64) {t : Nat} (ht : t < 64) : v.getLsbD t := by
  simp only [trailingOnes] at h
  cases hf : (List.range 64).find? fun t => !v.getLsbD t with
  | none => simpa using List.find?_eq_none.1 hf t (List.mem_range.2 ht)
  | some t =>
    rw [hf] at h
    exact absurd (List.mem_range.1 (List.mem_of_find?_eq_some hf)) h

/-! ## State -/

/-- frame.rs:436-446 -/
structure PrivateState where
  groupIdx : GroupIndex
  allocatedBitmask : BitVec 8
  free : Nat
  l1Metadata : ChunkIndex → Nat
  physicalAddresses : ChunkIndex → SlotIndex

/-- The shared arrays; `plugged` has the slots that the supervisor has handed
out. frame.rs:41-54 -/
structure Memory where
  l0 : GroupIndex → ChunkIndex → Fin 8 → BitVec 64
  l1 : GroupIndex → ChunkIndex → Nat
  l2 : GroupIndex → Nat
  physicalAddresses : GroupIndex → ChunkIndex → SlotIndex
  reverseMap : SlotIndex → Nat
  plugged : SlotIndex → Bool

inductive After where
  | allocate | done
  deriving DecidableEq

inductive Refresh where
  | again | drop (k : After)
  deriving DecidableEq

/-- The next access to the shared arrays, with the locals. A `PrivateState` that is worked on is in the program
counter; `guard` has it otherwise. -/
inductive Pc where
  | idle
  -- `L2GroupMetadata::claim`
  | claimLoad (check : Check) (g : GroupIndex)
  | claimExchange (check : Check) (g : GroupIndex) (bits : Nat)
  -- `PrivateState::new`
  | newSwap (k : After) (st : PrivateState) (c : Nat)
  | newLoad (k : After) (st : PrivateState) (c : Nat)
  -- `allocate_frame`
  | search (st : PrivateState)
  | findLoad (st : PrivateState) (c : ChunkIndex) (w : Nat)
  | findOr (st : PrivateState) (c : ChunkIndex) (w : Fin 8) (t : Fin 64)
  | plug (st : PrivateState) (c : ChunkIndex)
  | reverseSet (st : PrivateState) (c : ChunkIndex) (slot : SlotIndex)
  -- `PrivateState::refresh`
  | refreshSwap (k : Refresh) (st : PrivateState) (c : Nat) (claimedAny : Bool)
  | refreshAnd (k : Refresh) (st : PrivateState) (claimedAny : Bool)
  -- `PrivateState::drop`
  | unplug (k : After) (st : PrivateState) (c : Nat)
  | storeSlot (k : After) (st : PrivateState) (c : Nat)
  | addFree (k : After) (st : PrivateState) (c : ChunkIndex)
  | dropLoad (k : After) (st : PrivateState)
  | dropExchange (k : After) (st : PrivateState) (bits : Nat)
  -- `deallocate_frame`
  | reverseGet (f : Frame)
  | clear (f : Frame) (g : GroupIndex) (c : ChunkIndex)
  | addL1 (g : GroupIndex) (c : ChunkIndex)
  | addL2 (g : GroupIndex) (full : Bool)
  -- `unreachable_unchecked` and a subtraction below zero
  | unreachable (st : PrivateState)
  | panicked (st : PrivateState)

structure Cpu where
  guard : Option PrivateState
  pc : Pc

/-- `live` has the frames returned and not deallocated since, with their group and chunk. -/
structure State (ι : Type) where
  mem : Memory
  live : Frame → Option (GroupIndex × ChunkIndex)
  cpus : ι → Cpu

/-! ## Accesses -/

/-- `f` with another value at `a` and `b`. -/
def put {α β γ : Type} [DecidableEq α] [DecidableEq β] (f : α → β → γ) (a : α) (b : β) (v : γ) : α → β → γ :=
  update f a (update (f a) b v)

variable {α β γ : Type}

lemma put_self [DecidableEq α] [DecidableEq β] (f : α → β → γ) (a : α) (b : β) (v : γ) :
    put f a b v a b = v := by simp [put]

lemma put_row [DecidableEq α] [DecidableEq β] (f : α → β → γ) (a : α) (b : β) (v : γ) :
    put f a b v a = update (f a) b v := by simp [put]

lemma put_ne [DecidableEq α] [DecidableEq β] (f : α → β → γ) {a a' : α} {b b' : β} (v : γ)
    (h : ¬(a' = a ∧ b' = b)) : put f a b v a' b' = f a' b' := by
  by_cases ha : a' = a
  · subst ha
    rw [put_row, update_of_ne fun hb => h ⟨rfl, hb⟩]
  · simp [put, ha]

namespace Memory

def bits (m : Memory) (g : GroupIndex) (c : ChunkIndex) (i : FrameIndex) : Bool :=
  (m.l0 g c ⟨i / 64, by omega⟩).getLsbD (i % 64)

def setWord (m : Memory) (g : GroupIndex) (c : ChunkIndex) (w : Fin 8) (v : BitVec 64) : Memory :=
  { m with l0 := put m.l0 g c (update (m.l0 g c) w v) }

/-- frame.rs:193-196 -/
def deallocate (m : Memory) (g : GroupIndex) (c : ChunkIndex) (i : FrameIndex) : Memory :=
  m.setWord g c ⟨i / 64, by omega⟩ (m.l0 g c ⟨i / 64, by omega⟩ &&& ~~~twoPow 64 (i % 64))

def setL1 (m : Memory) (g : GroupIndex) (c : ChunkIndex) (n : Nat) : Memory := { m with l1 := put m.l1 g c n }

def setL2 (m : Memory) (g : GroupIndex) (bits : Nat) : Memory := { m with l2 := update m.l2 g bits }

def setSlot (m : Memory) (g : GroupIndex) (c : ChunkIndex) (slot : SlotIndex) : Memory :=
  { m with physicalAddresses := put m.physicalAddresses g c slot }

def setReverse (m : Memory) (slot : SlotIndex) (bits : Nat) : Memory :=
  { m with reverseMap := update m.reverseMap slot bits }

def setPlugged (m : Memory) (slot : SlotIndex) (b : Bool) : Memory := { m with plugged := update m.plugged slot b }

end Memory

lemma bits_setWord (m : Memory) (g : GroupIndex) (c : ChunkIndex) (i : FrameIndex) (w : Fin 8) (v : BitVec 64)
    (b : Bool) (hw : w.val = i / 64)
    (hv : ∀ t, t < 64 → v.getLsbD t = if t = i % 64 then b else (m.l0 g c w).getLsbD t) :
    (m.setWord g c w v).bits = put m.bits g c (update (m.bits g c) i b) := by
  funext g' c' j
  by_cases hgc : g' = g ∧ c' = c
  · obtain ⟨rfl, rfl⟩ := hgc
    rw [put_self]
    simp only [Memory.bits, Memory.setWord, put_self]
    by_cases hj : j.val / 64 = w
    · have hjw : (⟨j.val / 64, by omega⟩ : Fin 8) = w := Fin.ext hj
      rw [hjw, update_self, hv _ (Nat.mod_lt _ (by decide))]
      by_cases hji : j = i
      · subst hji
        rw [if_pos rfl, update_self]
      · have hmod : ¬j.val % 64 = i % 64 := fun h => hji (Fin.ext (by omega))
        rw [if_neg hmod, update_of_ne hji, Memory.bits, hjw]
    · have hjw : (⟨j.val / 64, by omega⟩ : Fin 8) ≠ w := fun h => hj (congrArg Fin.val h)
      have hji : j ≠ i := fun h => hj (by rw [h, hw])
      rw [update_of_ne hjw, update_of_ne hji, Memory.bits]
  · rw [put_ne _ _ hgc]
    simp only [Memory.bits, Memory.setWord, put_ne _ _ hgc]

lemma bit_lt (w : Fin 8) (t : Fin 64) : w.val * 64 + t.val < 512 := by omega

lemma bits_or (m : Memory) (g : GroupIndex) (c : ChunkIndex) (w : Fin 8) (t : Fin 64) :
    (m.setWord g c w (m.l0 g c w ||| twoPow 64 t)).bits =
      put m.bits g c (update (m.bits g c) ⟨w * 64 + t, bit_lt w t⟩ true) := by
  refine bits_setWord m g c _ w _ true (by simp only; omega) fun u hu => ?_
  have hmod : (w.val * 64 + t.val) % 64 = t.val := by omega
  rw [BitVec.getLsbD_or, BitVec.getLsbD_twoPow]
  simp only [hmod]
  by_cases h : u = t.val
  · simp [h]
  have h' : ¬t.val = u := fun he => h he.symm
  simp [h, h']

lemma bits_deallocate (m : Memory) (g : GroupIndex) (c : ChunkIndex) (i : FrameIndex) :
    (m.deallocate g c i).bits = put m.bits g c (update (m.bits g c) i false) := by
  refine bits_setWord m g c i _ _ false rfl fun u hu => ?_
  rw [BitVec.getLsbD_and, BitVec.getLsbD_not, BitVec.getLsbD_twoPow]
  by_cases h : u = i.val % 64
  · simp [h]
  have h' : ¬i.val % 64 = u := fun he => h he.symm
  simp [h, h', hu]

namespace PrivateState

/-- frame.rs:453-479; the counters and slots are
read in the steps after it -/
def new (g : GroupIndex) (free : Nat) (mask : BitVec 8) : PrivateState := ⟨g, mask, free, fun _ => 0, fun _ => 0⟩

def setL1 (st : PrivateState) (c : ChunkIndex) (n : Nat) : PrivateState :=
  { st with l1Metadata := update st.l1Metadata c n }

def setSlot (st : PrivateState) (c : ChunkIndex) (slot : SlotIndex) : PrivateState :=
  { st with physicalAddresses := update st.physicalAddresses c slot }

def firstFree (st : PrivateState) : Option ChunkIndex := (List.finRange 8).find? fun c => decide (1 ≤ st.l1Metadata c)

/-- A frame of the chunk is taken. frame.rs:71-77 -/
def take (st : PrivateState) (c : ChunkIndex) : PrivateState :=
  { st.setL1 c (st.l1Metadata c - 1) with free := st.free - 1 }

/-- A frame of the chunk is given back. frame.rs:128-129 -/
def give (st : PrivateState) (c : ChunkIndex) : PrivateState :=
  { st.setL1 c (st.l1Metadata c + 1) with free := st.free + 1 }

/-- frame.rs:90-95 -/
def plugIn (st : PrivateState) (c : ChunkIndex) (slot : SlotIndex) : PrivateState :=
  { (st.setSlot c slot).setL1 c 512 with
    allocatedBitmask := setMask st.allocatedBitmask c true
    free := st.free + 512 }

/-- The chunk is taken out; `free` is not lowered yet.
frame.rs:514-520 -/
def plugOut (st : PrivateState) (c : ChunkIndex) : PrivateState :=
  { st.setL1 c 0 with allocatedBitmask := setMask st.allocatedBitmask c false }

end PrivateState

/-! ## Steps -/

/-- The next group that `claim` inspects; `deallocate_frame` only tries one. frame.rs:357-382 -/
def claimNext (check : Check) (g : GroupIndex) : Pc :=
  if check = .always then .idle
  else if h : g.val + 1 < 4096 then .claimLoad check ⟨g + 1, h⟩
  else match check with
    | .isPartial => .claimLoad .isFree 0
    | _ => .claimLoad .isNotCompletlyUsed 0

/-- What `claim` does with the bits that it has seen. -/
def claimSeen (check : Check) (g : GroupIndex) (bits : Nat) : Pc :=
  if claimable check bits then .claimExchange check g bits else claimNext check g

def Check.after : Check → After
  | always => .done
  | _ => .allocate

/-- A new `PrivateState` is used by `allocate_frame` and dropped by
`deallocate_frame`. -/
def created : After → PrivateState → Pc
  | .allocate, st => .search st
  | .done, st => .refreshSwap (.drop .done) st 0 false

def dropped : After → Pc
  | .allocate => .claimLoad .isPartial 0
  | .done => .idle

/-- One round of the inner loop of `allocate_frame` up to `find_free`.
frame.rs:63-70 -/
def searched (st : PrivateState) : Pc :=
  if 1 ≤ st.free then
    match st.firstFree with
    | some c => .findLoad st c 0
    | none => .refreshSwap .again st 0 false
  else .refreshSwap .again st 0 false

/-- frame.rs:81-101, 507-510 -/
def refreshed : Refresh → PrivateState → Bool → Pc
  | .again, st, true => .search st
  | .again, st, false =>
    match findZero st.allocatedBitmask with
    | some c => .plug st c
    | none => .refreshSwap (.drop .allocate) st 0 false
  | .drop k, st, _ => .unplug k st 0

/-- The memory, the CPU, and the frame that `allocate_frame` returns with where it is from. -/
structure Out where
  mem : Memory
  cpu : Cpu
  returned : Option (Frame × GroupIndex × ChunkIndex)

def Out.at (m : Memory) (guard : Option PrivateState) (pc : Pc) : Option Out := some ⟨m, ⟨guard, pc⟩, none⟩

/-- The owner's copies take a frame that it deallocates itself.
frame.rs:127-130 -/
def Cpu.deallocated (x : Cpu) (g : GroupIndex) (c : ChunkIndex) : Cpu :=
  match x.guard with
  | some st =>
    if g = st.groupIdx then ⟨some (st.give c), .idle⟩
    else ⟨some st, .addL1 g c⟩
  | none => ⟨none, .addL1 g c⟩

/-- One access and what is done locally after it; `slot` is what the supervisor would hand out.
frame.rs:57-146, 173-197, 309-382, 453-558 -/
def exec (m : Memory) (x : Cpu) (slot : SlotIndex) : Option Out :=
  match x.pc with
  | .claimLoad check g => Out.at m x.guard (claimSeen check g (m.l2 g))
  | .claimExchange check g bits =>
    if m.l2 g = bits then
      Out.at (m.setL2 g (claimed bits)) x.guard
        (.newSwap check.after (.new g (freeBits bits) (l1AllocatedBits bits)) 0)
    else Out.at m x.guard (claimSeen check g (m.l2 g))
  | .newSwap k st c =>
    if h : c < 8 then
      Out.at (m.setL1 st.groupIdx ⟨c, h⟩ 0) x.guard (.newSwap k (st.setL1 ⟨c, h⟩ (m.l1 st.groupIdx ⟨c, h⟩)) (c + 1))
    else Out.at m x.guard (.newLoad k st 0)
  | .newLoad k st c =>
    if h : c < 8 then
      Out.at m x.guard (.newLoad k (st.setSlot ⟨c, h⟩ (m.physicalAddresses st.groupIdx ⟨c, h⟩)) (c + 1))
    else Out.at m x.guard (created k st)
  | .search st => Out.at m x.guard (searched st)
  | .findLoad st c w =>
    if h : w < 8 then
      if ht : trailingOnes (m.l0 st.groupIdx c ⟨w, h⟩) < 64 then
        Out.at m x.guard (.findOr st c ⟨w, h⟩ ⟨trailingOnes (m.l0 st.groupIdx c ⟨w, h⟩), ht⟩)
      else Out.at m x.guard (.findLoad st c (w + 1))
    else Out.at m x.guard (.unreachable st)
  | .findOr st c w t =>
    some ⟨m.setWord st.groupIdx c w (m.l0 st.groupIdx c w ||| twoPow 64 t), ⟨some (st.take c), .idle⟩,
      some (⟨st.physicalAddresses c, ⟨w * 64 + t, bit_lt w t⟩⟩, st.groupIdx, c)⟩
  | .plug st c => if m.plugged slot then none else Out.at (m.setPlugged slot true) x.guard (.reverseSet st c slot)
  | .reverseSet st c slot =>
    Out.at (m.setReverse slot (ReverseMap.encode st.groupIdx c)) x.guard (.search (st.plugIn c slot))
  | .refreshSwap k st c any =>
    if h : c < 8 then
      Out.at (m.setL1 st.groupIdx ⟨c, h⟩ 0) x.guard
        (.refreshSwap k (st.setL1 ⟨c, h⟩ (st.l1Metadata ⟨c, h⟩ + m.l1 st.groupIdx ⟨c, h⟩)) (c + 1)
          (any || m.l1 st.groupIdx ⟨c, h⟩ != 0))
    else Out.at m x.guard (.refreshAnd k st any)
  | .refreshAnd k st any =>
    Out.at (m.setL2 st.groupIdx (setFreeBits (m.l2 st.groupIdx) 0)) x.guard
      (refreshed k { st with free := st.free + freeBits (m.l2 st.groupIdx) }
        (any || freeBits (m.l2 st.groupIdx) != 0))
  | .unplug k st c =>
    if h : c < 8 then
      if st.free < 512 ∧ st.l1Metadata ⟨c, h⟩ = 512 then
        -- `self.free -= CHUNK_SIZE` comes after the slot is given back
        Out.at (m.setPlugged (st.physicalAddresses ⟨c, h⟩) false) x.guard
          (if 512 ≤ st.free then .unplug k { st.plugOut ⟨c, h⟩ with free := st.free - 512 } (c + 1)
            else .panicked (st.plugOut ⟨c, h⟩))
      else Out.at m x.guard (.unplug k st (c + 1))
    else Out.at m x.guard (.storeSlot k st 0)
  | .storeSlot k st c =>
    if h : c < 8 then
      Out.at (m.setSlot st.groupIdx ⟨c, h⟩ (st.physicalAddresses ⟨c, h⟩)) x.guard (.addFree k st ⟨c, h⟩)
    else Out.at m x.guard (.dropLoad k st)
  | .addFree k st c =>
    Out.at (m.setL1 st.groupIdx c (m.l1 st.groupIdx c + st.l1Metadata c)) x.guard (.storeSlot k st (c + 1))
  | .dropLoad k st => Out.at m x.guard (.dropExchange k st (m.l2 st.groupIdx))
  | .dropExchange k st bits =>
    -- `set_bits` asserts that the value fits
    if 2 ^ 13 ≤ freeBits bits + st.free then Out.at m x.guard (.panicked st)
    else if m.l2 st.groupIdx = bits then
      Out.at (m.setL2 st.groupIdx (released bits st.free st.allocatedBitmask)) x.guard (dropped k)
    else Out.at m x.guard (.dropExchange k st (m.l2 st.groupIdx))
  | .reverseGet f =>
    Out.at m x.guard (.clear f (ReverseMap.decode (m.reverseMap f.slot)).1 (ReverseMap.decode (m.reverseMap f.slot)).2)
  | .clear f g c => some ⟨m.deallocate g c f.idx, x.deallocated g c, none⟩
  | .addL1 g c => Out.at (m.setL1 g c (m.l1 g c + 1)) x.guard (.addL2 g (m.l1 g c + 1 == 512))
  | .addL2 g full => Out.at (m.setL2 g (m.l2 g + 1)) x.guard (if full then .claimLoad .always g else .idle)
  | .idle | .unreachable _ | .panicked _ => none

inductive Act where
  | allocateFrame
  | deallocateFrame (f : Frame)
  | releasePrivate
  | run (slot : SlotIndex)

variable {ι : Type} [DecidableEq ι]

def Out.into (o : Out) (s : State ι) (i : ι) : State ι where
  mem := o.mem
  live := match o.returned with
    | some (f, place) => update s.live f (some place)
    | none => s.live
  cpus := update s.cpus i o.cpu

/-- A CPU outside an operation can call one; only a live frame may be deallocated. -/
def next (s : State ι) (l : ι × Act) : Option (State ι) :=
  let x := s.cpus l.1
  match l.2, x.pc with
  | .allocateFrame, .idle =>
    some { s with cpus := update s.cpus l.1 ⟨none, x.guard.elim (.claimLoad .isPartial 0) .search⟩ }
  | .deallocateFrame f, .idle =>
    if (s.live f).isSome then
      some { s with
        live := update s.live f none
        cpus := update s.cpus l.1 ⟨x.guard, .reverseGet f⟩ }
    else none
  | .releasePrivate, .idle =>
    some { s with
      cpus := update s.cpus l.1
        ⟨none, x.guard.elim .idle fun st => .refreshSwap (.drop .done) st 0 false⟩ }
  | .run slot, _ => (exec s.mem x slot).map fun o => o.into s l.1
  | _, _ => none

/-- frame.rs:163-167 and the other `new` functions -/
def Memory.new : Memory := ⟨fun _ _ _ => 0, fun _ _ => 0, fun _ => 0, fun _ _ => 0, fun _ => 0, fun _ => false⟩

def State.new : State ι := ⟨.new, fun _ => none, fun _ => ⟨none, .idle⟩⟩

def frames (ι : Type) [DecidableEq ι] : LTS (State ι) (ι × Act) := LTS.ofFn (· = .new) next

end Mushroom.L2.FrameAlloc
