import Mushroom.Core.LTS

/-!
# The supervisor's slots

`HostAllocator` keeps one bit for each 2 MiB slot and looks for a clear one from
the byte of the last allocation on. Both supervisors have the same code
(supervisor-tdx/dynamic.rs:14-63).

There are 2^15 slots, but `SlotIndex::new` only takes indices below
`u16::MAX / 2 = 32767`: the call panics exactly when every slot from the hint on
is in use but the last one (`allocate_exact_iff`).
-/
namespace Mushroom.L4
open List Option
open List (finRange)
open BitVec (twoPow ofNat)

open Function

/-! ## Slot indices -/

/-- supervisor-services/allocation_buffer.rs:59-61 -/
structure SlotIndex where
  val : BitVec 16
  deriving DecidableEq

namespace SlotIndex

def empty : SlotIndex := ⟨0xffff⟩

/-- `none` is the failed assertion.
allocation_buffer.rs:66-69 -/
def new (value : BitVec 16) : Option SlotIndex := if value.toNat < 65535 / 2 then some ⟨value⟩ else none

/-- allocation_buffer.rs:71-74 -/
def get (s : SlotIndex) : Option (BitVec 16) := if s.val.toNat < 65535 / 2 then some s.val else none

/-- What `update_slot_status` writes to the port; `set_bits` asserts that it fits.
supervisor-snp/dynamic.rs:128-133 -/
def request (s : SlotIndex) (enabled : Bool) : Option (BitVec 32) :=
  s.get.bind fun idx =>
    if idx.toNat < 2 ^ 15 then some (idx.setWidth 32 ||| if enabled then twoPow 32 15 else 0#32) else none

/-- `slot_id` and `enabled` as the host reads them.
mushroom/snp.rs:288-289 -/
def ofRequest (value : BitVec 32) : BitVec 16 × Bool := ((value.extractLsb' 0 15).setWidth 16, value.getLsbD 15)

/-- The slot goes through `new`, `get` and the request as `n`, and is not the marker. -/
structure Encodes (s : SlotIndex) (n : Nat) : Prop where
  new : new (ofNat 16 n) = some s
  get : s.get = some (ofNat 16 n)
  ne_empty : s ≠ empty
  request : ∀ enabled, ∃ value, s.request enabled = some value ∧ ofRequest value = (ofNat 16 n, enabled)

lemma ofRequest_request {idx : BitVec 16} (h : idx.toNat < 2 ^ 15) (enabled : Bool) :
    ofRequest (idx.setWidth 32 ||| if enabled then twoPow 32 15 else 0#32) = (idx, enabled) := by
  have htop : idx.getLsbD 15 = false := Nat.testBit_lt_two_pow h
  refine Prod.ext (BitVec.eq_of_getLsbD_eq fun i hi => ?_) ?_
  · by_cases hlt : i < 15
    · have hne : ¬i = 15 := by omega
      have hwide : i < 32 := by omega
      cases enabled <;> simp [ofRequest, hlt, hi, hne, hwide]
    · obtain rfl : i = 15 := by omega
      rw [htop]
      simp [ofRequest]
  · rw [BitVec.getLsbD_eq_getElem (by omega)] at htop
    cases enabled <;> simp [ofRequest, htop]

lemma new_encodes {n : Nat} (hn : n < 32767) : ∃ s, new (ofNat 16 n) = some s ∧ Encodes s n := by
  have hval : (ofNat 16 n).toNat = n := by
    rw [BitVec.toNat_ofNat]
    exact Nat.mod_eq_of_lt (by omega)
  have hnew : new (ofNat 16 n) = some ⟨ofNat 16 n⟩ := if_pos (by omega)
  have hget : get ⟨ofNat 16 n⟩ = some (ofNat 16 n) := if_pos (by simp only [hval]; omega)
  refine ⟨_, hnew, hnew, hget, ?_, fun enabled => ?_⟩
  · intro he
    have hmax : n = 65535 := hval.symm.trans (congrArg (fun s => s.val.toNat) he)
    omega
  · refine ⟨_, ?_, ofRequest_request (by omega) enabled⟩
    rw [SlotIndex.request, hget, bind_some, if_pos (by omega)]

end SlotIndex

/-! ## The allocator -/

/-- The bytes of the bitmap by their bits; the hint is a byte of it.
supervisor-snp/dynamic.rs:15-37 -/
structure HostAllocator where
  bitmap : Fin 4096 → Fin 8 → Bool
  startOffset : Fin 4096

namespace HostAllocator

lemma zero_lt_bytes : 0 < 4096 := by decide

def new : HostAllocator := ⟨fun _ _ => false, ⟨0, zero_lt_bytes⟩⟩

def findUnset (byte : Fin 8 → Bool) : Option (Fin 8) := (finRange 8).find? fun i => !byte i

/-- `second` and then `first`. -/
def searchOrder (start : Fin 4096) : List (Fin 4096) := (finRange 4096).drop start ++ (finRange 4096).take start

def find (a : HostAllocator) : Option (Fin 4096 × Fin 8) :=
  (searchOrder a.startOffset).findSome? fun i => (findUnset (a.bitmap i)).map (i, ·)

/-- The bit is set before the index is built; `none` is a panic.
supervisor-snp/dynamic.rs:39-58 -/
def allocateSlotIdx (a : HostAllocator) : Option (Option SlotIndex × HostAllocator) :=
  match a.find with
  | none => some (none, a)
  | some (i, bit) =>
    (SlotIndex.new (ofNat 16 (i * 8 + bit))).map fun slot =>
      (some slot, ⟨update a.bitmap i (update (a.bitmap i) bit true), i⟩)

/-- supervisor-snp/dynamic.rs:60-66 -/
def deallocateSlotId (a : HostAllocator) (slot : SlotIndex) : Option HostAllocator :=
  slot.get.bind fun idx =>
    if h : idx.toNat / 8 < 4096 then
      let byte : Fin 4096 := ⟨idx.toNat / 8, h⟩
      let bit : Fin 8 := ⟨idx.toNat % 8, by omega⟩
      if a.bitmap byte bit then
        some { a with bitmap := update a.bitmap byte (update (a.bitmap byte) bit false) }
      else none
    else none

inductive Call where
  | allocate
  | deallocate (slot : SlotIndex)

def next (a : HostAllocator) : Call → Option HostAllocator
  | .allocate => a.allocateSlotIdx.map Prod.snd
  | .deallocate slot => a.deallocateSlotId slot

def system : LTS HostAllocator Call := LTS.ofFn (· = new) next

def allocated (a : HostAllocator) (n : Fin 32768) : Bool := a.bitmap ⟨n / 8, by omega⟩ ⟨n % 8, by omega⟩

variable {a a' : HostAllocator} {i : Fin 4096} {bit : Fin 8}

lemma allocated_mk (h : i.val * 8 + bit.val < 32768) : a.allocated ⟨i * 8 + bit, h⟩ = a.bitmap i bit := by
  have hi : (i.val * 8 + bit.val) / 8 = i := by omega
  have hbit : (i.val * 8 + bit.val) % 8 = bit := by omega
  simp only [allocated, hi, hbit, Fin.eta]

lemma forall_byte_iff : (∀ j, a.bitmap i j) ↔ findUnset (a.bitmap i) = none := by simp [findUnset, List.find?_eq_none]

lemma find_clear (h : a.find = some (i, bit)) : a.bitmap i bit = false := by
  obtain ⟨j, -, hj⟩ := exists_of_findSome?_eq_some h
  obtain ⟨b, hb, he⟩ := map_eq_some_iff.1 hj
  cases he
  simpa using List.find?_some hb

/-- The search goes over the bytes from the hint on, the last one, and those before the hint. -/
lemma find_eq (a : HostAllocator) : a.find = ((((finRange 4095).map Fin.castSucc).drop a.startOffset).findSome? fun i =>
          (findUnset (a.bitmap i)).map (i, ·)).or (((findUnset (a.bitmap (Fin.last 4095))).map (Fin.last 4095, ·)).or
          (((finRange 4096).take a.startOffset).findSome? fun i => (findUnset (a.bitmap i)).map (i, ·))) := by
  have hdrop : (finRange 4096).drop a.startOffset =
      ((finRange 4095).map Fin.castSucc).drop a.startOffset ++ [Fin.last 4095] := by
    rw [finRange_succ_last, drop_append_of_le_length]
    simp only [length_map, length_finRange]
    omega
  rw [find, searchOrder, hdrop]
  simp only [List.findSome?_append, List.findSome?_singleton, Option.or_assoc]

lemma find_eq_none_iff : a.find = none ↔ ∀ n, a.allocated n := by
  have hmem : ∀ i, i ∈ searchOrder a.startOffset := by
    intro i
    rw [searchOrder, mem_append, or_comm, ← mem_append, take_append_drop]
    exact mem_finRange i
  simp only [find, List.findSome?_eq_none_iff, map_eq_none_iff, ← forall_byte_iff]
  constructor
  · intro h n
    exact h _ (hmem _) _
  intro h i _ j
  rw [← @allocated_mk a i j (by omega)]
  exact h _

/-- Every slot from the hint's byte on is in use but the last one. -/
def LastOnly (a : HostAllocator) : Prop :=
  a.allocated (Fin.last 32767) = false ∧
    ∀ n : Fin 32768, a.startOffset.val * 8 ≤ n → n.val < 32767 → a.allocated n = true

lemma findUnset_last_iff {byte : Fin 8 → Bool} :
    findUnset byte = some (Fin.last 7) ↔ byte (Fin.last 7) = false ∧ ∀ j < Fin.last 7, byte j := by
  have hall : ∀ byte : Fin 8 → Bool, findUnset byte = some (Fin.last 7) ↔
      byte (Fin.last 7) = false ∧ ∀ j < Fin.last 7, byte j := by decide +kernel
  exact hall byte

lemma mem_from_hint {k : Fin 4096} :
    k ∈ ((finRange 4095).map Fin.castSucc).drop a.startOffset ↔ a.startOffset.val ≤ k ∧ k.val < 4095 := by
  rw [mem_drop_iff_getElem]
  constructor
  · intro ⟨j, hj, he⟩
    simp only [length_map, length_finRange] at hj
    simp only [getElem_map, getElem_finRange] at he
    rw [← he]
    exact ⟨Nat.le_add_right .., by simp; omega⟩
  intro ⟨hle, hlt⟩
  refine ⟨k - a.startOffset, ?_, ?_⟩
  · simp only [length_map, length_finRange]
    omega
  · simp only [getElem_map, getElem_finRange]
    exact Fin.ext (by simp; omega)

lemma before_last_iff : (((finRange 4095).map Fin.castSucc).drop a.startOffset).findSome?
        (fun i => (findUnset (a.bitmap i)).map (i, ·)) = none ↔
      ∀ n : Fin 32768, a.startOffset.val * 8 ≤ n → n.val < 32760 → a.allocated n := by
  simp only [List.findSome?_eq_none_iff, map_eq_none_iff, ← forall_byte_iff, mem_from_hint]
  constructor
  · intro h n hstart hn
    exact h _ ⟨by simp; omega, by simp; omega⟩ _
  intro h i hi j
  rw [← allocated_mk (by omega)]
  exact h _ (by simp; omega) (by simp; omega)

lemma last_byte_iff : findUnset (a.bitmap (Fin.last 4095)) = some (Fin.last 7) ↔
    a.allocated (Fin.last 32767) = false ∧ ∀ n : Fin 32768, 32760 ≤ n.val → n.val < 32767 → a.allocated n := by
  rw [findUnset_last_iff]
  refine and_congr_right fun _ => ⟨fun h n hn hlt => ?_, fun h j hj => ?_⟩
  · have hbyte : (⟨n / 8, by omega⟩ : Fin 4096) = Fin.last 4095 := Fin.ext (by simp; omega)
    rw [allocated, hbyte]
    exact h _ (Fin.mk_lt_mk.2 (by omega))
  · have hj' : j.val < 7 := hj
    rw [← allocated_mk (by simp; omega)]
    exact h _ (by simp) (by simp; omega)

lemma find_last_iff : a.find = some (Fin.last 4095, Fin.last 7) ↔ LastOnly a := by
  constructor
  · intro h
    have hclear := find_clear h
    rw [find_eq, or_eq_some_iff] at h
    rcases h with h | ⟨hbefore, h⟩
    · obtain ⟨j, hj, he⟩ := exists_of_findSome?_eq_some h
      obtain ⟨b, -, hb⟩ := map_eq_some_iff.1 he
      cases hb
      exact absurd (mem_from_hint.1 hj).2 (lt_irrefl _)
    have hlast : findUnset (a.bitmap (Fin.last 4095)) = some (Fin.last 7) := by
      cases hbyte : findUnset (a.bitmap (Fin.last 4095)) with
      | none =>
        rw [forall_byte_iff.2 hbyte] at hclear
        cases hclear
      | some b =>
        rw [hbyte, map_some, some_or] at h
        cases h
        rfl
    rw [before_last_iff] at hbefore
    rw [last_byte_iff] at hlast
    refine ⟨hlast.1, fun n hstart hn => ?_⟩
    by_cases hbyte : n.val < 32760
    · exact hbefore n hstart hbyte
    · exact hlast.2 n (by omega) hn
  · intro h
    have hbefore := before_last_iff.2 fun n hstart hn => h.2 n hstart (by omega)
    have hlast := last_byte_iff.2 ⟨h.1, fun n hn => h.2 n (by omega)⟩
    rw [find_eq, hbefore, hlast]
    rfl

/-! ## What a call does -/

/-- A slot that was free is marked and returned, or `None` if there is none. -/
structure AllocatesExactly (a : HostAllocator) (r : Option SlotIndex) (a' : HostAllocator) : Prop where
  none_iff : r = none ↔ ∀ n, a.allocated n = true
  full : r = none → a' = a
  slot : ∀ s, r = some s → ∃ n : Fin 32768, a.allocated n = false ∧ a'.allocated = update a.allocated n true ∧
    s.Encodes n

lemma allocated_update (i : Fin 4096) (bit : Fin 8) (start : Fin 4096) (h : i.val * 8 + bit.val < 32768) :
    allocated ⟨update a.bitmap i (update (a.bitmap i) bit true), start⟩ = update a.allocated ⟨i * 8 + bit, h⟩ true := by
  funext n
  by_cases hn : n = ⟨i * 8 + bit, h⟩
  · rw [hn, update_self, allocated_mk]
    simp
  rw [update_of_ne hn]
  unfold allocated
  by_cases hi : (⟨n / 8, by omega⟩ : Fin 4096) = i
  · have hbit : (⟨n % 8, by omega⟩ : Fin 8) ≠ bit := by
      intro hb
      refine hn (Fin.ext ?_)
      simp only [← hi, ← hb]
      omega
    simp only [hi, update_self, update_of_ne hbit]
  · simp only [update_of_ne hi]

lemma allocateSlotIdx_of_find (h : a.find = some (i, bit)) (hn : i.val * 8 + bit.val < 32767) :
    ∃ r a', a.allocateSlotIdx = some (r, a') ∧ AllocatesExactly a r a' := by
  obtain ⟨s, hs, henc⟩ := SlotIndex.new_encodes hn
  have hclear : a.allocated ⟨i * 8 + bit, by omega⟩ = false := by rw [allocated_mk, find_clear h]
  refine ⟨some s, _, by rw [allocateSlotIdx, h]; simp only [hs, map_some]; rfl, ?_, nofun, ?_⟩
  · refine ⟨nofun, fun hall => ?_⟩
    rw [hall] at hclear
    cases hclear
  · intro _ he
    cases he
    exact ⟨_, hclear, allocated_update .., henc⟩

lemma allocateSlotIdx_of_lastOnly (h : LastOnly a) : a.allocateSlotIdx = none := by
  rw [allocateSlotIdx, find_last_iff.2 h]
  rfl

lemma allocates (h : ¬LastOnly a) : ∃ r a', a.allocateSlotIdx = some (r, a') ∧ AllocatesExactly a r a' := by
  cases hfind : a.find with
  | none =>
    refine ⟨none, a, by rw [allocateSlotIdx, hfind], ?_, fun _ => rfl, nofun⟩
    simpa using find_eq_none_iff.1 hfind
  | some x =>
    obtain ⟨i, bit⟩ := x
    refine allocateSlotIdx_of_find hfind ?_
    by_contra hge
    have hi : i = Fin.last 4095 := Fin.ext (by simp; omega)
    have hbit : bit = Fin.last 7 := Fin.ext (by simp; omega)
    rw [hi, hbit] at hfind
    exact h (find_last_iff.1 hfind)

/-- A call does what it is for exactly if the search does not end at the last slot. -/
theorem allocate_exact_iff (a : HostAllocator) :
    (∃ r a', a.allocateSlotIdx = some (r, a') ∧ AllocatesExactly a r a') ↔ ¬LastOnly a := by
  constructor
  · intro ⟨r, a', h, _⟩ hlast
    rw [allocateSlotIdx_of_lastOnly hlast] at h
    cases h
  · exact allocates

/-- As long as the last slot is free, further allocations come to the panic. -/
lemma allocations_panic (h : a.allocated (Fin.last 32767) = false) :
    ∃ calls a', system.Run a calls a' ∧ a'.allocateSlotIdx = none := by
  -- each allocation takes one of the free slots, but never the last one
  induction hk : (Finset.univ.filter fun n => a.allocated n = false).card using Nat.strong_induction_on
    generalizing a with
  | _ k ih =>
    by_cases hlast : LastOnly a
    · exact ⟨[], a, .nil a, allocateSlotIdx_of_lastOnly hlast⟩
    obtain ⟨r, a', hcall, hex⟩ := allocates hlast
    cases r with
    | none =>
      rw [hex.none_iff.1 rfl] at h
      cases h
    | some s =>
      obtain ⟨n, hn, hset, henc⟩ := hex.slot s rfl
      have hne : Fin.last 32767 ≠ n := by
        intro he
        have := henc.new
        rw [← he] at this
        cases this
      have hfree : (Finset.univ.filter fun n => a'.allocated n = false) =
          (Finset.univ.filter fun n => a.allocated n = false).erase n := by
        ext m
        simp only [hset, update_apply, Finset.mem_filter, Finset.mem_univ, true_and, Finset.mem_erase]
        split <;> simp_all
      have hlt : (Finset.univ.filter fun n => a'.allocated n = false).card < k := by
        rw [hfree, ← hk]
        exact Finset.card_erase_lt_of_mem (by simpa using hn)
      obtain ⟨calls, a'', hrun, hpanic⟩ := ih _ hlt (by rw [hset, update_of_ne hne, h]) rfl
      refine ⟨.allocate :: calls, a'', .via a' ?_ hrun, hpanic⟩
      exact (congrArg (Option.map Prod.snd) hcall).trans rfl

/-- After some number of allocations from the start, one panics. -/
theorem allocate_panics : ∃ calls a, system.Run new calls a ∧ a.allocateSlotIdx = none :=
  allocations_panic rfl

end HostAllocator

end Mushroom.L4
