import Mushroom.Core.LTS
import Mushroom.L2Memory.Unmap
import Mushroom.L2Memory.Protect

/-!
# The mappings refine a partial function

The abstract address space is a partial function from pages to their backing, the
page of the backing, the permissions and whether they are shared (`AbsVm`).
`vmSystem` runs the operations of `VirtualMemoryWriteGuard` on the mappings,
`absSystem` the same operations on the function.

In a run in which no `unmap` gives up at a gap (`GapSkip`), neither directly nor
from `mmap` or `set_brk_end`, the mappings stay disjoint and every step is one of
the abstract address space. Behind a gap, pages that are unmapped stay.
-/
namespace Mushroom.L2
open List Option OrdMap

/-! ## Well-formed maps -/

/-- Non-empty, disjoint mappings in the lower half. -/
structure MapsOk (L : Mappings) : Prop where
  nonempty : Nonempty L
  disjoint : Disjoint L
  lower : ∀ x ∈ L, x.1 + x.2.len ≤ 2 ^ 35

variable {L L' : Mappings} {eff : Effect} {bias : Bias}

lemma Disjoint.sorted (hd : Disjoint L) (hn : Nonempty L) : Sorted L := by
  induction L with
  | nil => exact sorted_nil
  | cons x L ih =>
    obtain ⟨hx, hL⟩ := Disjoint.cons.1 hd
    refine sorted_cons.2 ⟨fun y hy => ?_, ih hL fun y hy => hn y (mem_cons_of_mem _ hy)⟩
    have := hx y hy
    have := hn x (mem_cons_self ..)
    omega

lemma MapsOk.sorted (h : MapsOk L) : Sorted L := h.disjoint.sorted h.nonempty

lemma mapsOk_nil : MapsOk [] := ⟨by simp [Nonempty], List.Pairwise.nil, by simp⟩

/-- A map whose mappings are parts of those of a well-formed map. -/
lemma MapsOk.of_parts (h : MapsOk L) (hn : Nonempty L') (hd : Disjoint L') (hparts : Parts L' L) : MapsOk L' := by
  refine ⟨hn, hd, fun y hy => ?_⟩
  obtain ⟨z, hz, hzy⟩ := hparts y hy
  exact le_trans hzy.last (h.lower z hz)

lemma MapsOk.of_shape (h : MapsOk L) (hsh : shape L' = shape L) : MapsOk L' := by
  refine ⟨nonempty_of_shape hsh h.nonempty, ?_, fun y hy => ?_⟩
  · have hd : (shape L).Pairwise fun a b => a.1 + a.2 ≤ b.1 := pairwise_map.2 h.disjoint
    rw [← hsh] at hd
    exact pairwise_map.1 hd
  · obtain ⟨z, hz, hk, hlen⟩ := mem_of_shape hsh hy
    exact hk ▸ hlen ▸ h.lower z hz

lemma MapsOk.resolve_mem (h : MapsOk L) {x : Nat × Mapping} (hx : x ∈ L) {p : Nat} (h1 : x.1 ≤ p)
    (h2 : p < x.1 + x.2.len) : resolve L p = x.2.slot (p - x.1) := by
  obtain ⟨A, B, rfl⟩ := append_of_mem hx
  obtain ⟨k, m⟩ := x
  have hB : ∀ y ∈ B, p < y.1 := fun y hy => by
    have := (Disjoint.cons.1 (Disjoint.append.1 h.disjoint).2.1).1 y hy
    exact lt_of_lt_of_le h2 this
  unfold resolve
  rw [getLE_of_split h1 hB]; rfl

/-! ## `unmap` and `mmap` -/

/-- The pages that `len` bytes from `addr` on touch. -/
def Covers (addr len p : Nat) : Prop := 0 < len ∧ addr / 4096 ≤ p ∧ p ≤ (addr + (len - 1)) / 4096

instance (addr len p : Nat) : Decidable (Covers addr len p) := inferInstanceAs (Decidable (_ ∧ _))

/-- `unmap` of an `addr`, `len` range does not stop at a gap. -/
def NoGap (L : Mappings) (addr len : Nat) : Prop := 0 < len → ¬ GapSkip L (addr / 4096) ((addr + (len - 1)) / 4096)

instance (L : Mappings) (addr len : Nat) : Decidable (NoGap L addr len) := inferInstanceAs (Decidable (_ → _))

lemma unmap_refines {addr : VirtAddr} {len : Nat} (hL : MapsOk L) (hgap : NoGap L addr.addr len)
    (h : unmap L addr len = some (L', eff)) :
    MapsOk L' ∧ (∀ p, resolve L' p = if Covers addr.addr len p then none else resolve L p) ∧
      (0 < len → ∀ y ∈ L', y.1 + y.2.len ≤ addr.page ∨ (addr.addr + (len - 1)) / 4096 < y.1) := by
  rcases unmap_eq_some h with ⟨rfl, rfl, -⟩ | ⟨hlen, gone, hun, -⟩
  · exact ⟨hL, fun p => by simp [Covers], fun h => absurd h (by simp)⟩
  have hle := addr.page_le_last len
  have hspec := unmapPages_spec hle hL.sorted hL.nonempty hun
  have hclear := hspec.clear hL.disjoint (hgap hlen)
  refine ⟨hL.of_parts hspec.nonempty (hspec.disjoint hL.disjoint) hspec.parts, fun p => ?_, fun _ => hclear⟩
  split
  · rename_i hc
    unfold resolve
    cases hg : getLE L' p with
    | none => rfl
    | some x =>
      obtain ⟨hx, hxp⟩ := getLE_mem hg
      refine Mapping.slot_eq_none.2 ?_
      obtain ⟨-, hc1, hc2⟩ := hc
      have := hclear x hx
      unfold VirtAddr.page at this
      omega
  · rename_i hc
    refine hspec.exact hL.disjoint p fun hp => hc ⟨hlen, hp⟩

lemma insert_refines {m : Mapping} {start stop : Nat} (hL : MapsOk L)
    (hclear : ∀ y ∈ L, y.1 + y.2.len ≤ start ∨ stop < y.1) (hlen : start + m.len = stop + 1) (hm : 0 < m.len)
    (hlow : stop < 2 ^ 35) : MapsOk (insert start m L) ∧ ∀ p, resolve (insert start m L) p =
        if start ≤ p ∧ p ≤ stop then m.slot (p - start) else resolve L p := by
  have hfresh : ∀ y ∈ L, y.1 ≠ start := fun y hy => by have := hclear y hy; have := hL.nonempty y hy; omega
  obtain ⟨A, B, rfl, hA, hB⟩ := split_of_fresh hL.sorted hfresh
  have hA' : ∀ a ∈ A, a.1 + a.2.len ≤ start := fun a ha => by
    have := hclear a (mem_append_left _ ha); have := hA a ha; omega
  have hB' : ∀ b ∈ B, stop < b.1 := fun b hb => by have := hclear b (mem_append_right _ hb); have := hB b hb; omega
  obtain ⟨hdA, hdB, hdAB⟩ := Disjoint.append.1 hL.disjoint
  rw [insert_split hA hB]
  refine ⟨⟨?_, ?_, ?_⟩, fun p => ?_⟩
  · intro y hy
    simp only [mem_append, mem_cons] at hy
    rcases hy with hy | rfl | hy
    · exact hL.nonempty y (mem_append_left _ hy)
    · exact hm
    · exact hL.nonempty y (mem_append_right _ hy)
  · refine Disjoint.append.2 ⟨hdA, Disjoint.cons.2 ⟨fun b hb => ?_, hdB⟩, fun a ha => ?_⟩
    · have := hB' b hb; omega
    · rw [forall_mem_cons]; exact ⟨hA' a ha, hdAB a ha⟩
  · intro y hy
    simp only [mem_append, mem_cons] at hy
    rcases hy with hy | rfl | hy
    · exact hL.lower y (mem_append_left _ hy)
    · show start + m.len ≤ 2 ^ 35; omega
    · exact hL.lower y (mem_append_right _ hy)
  rw [resolve_append, resolve_append, getLE_cons_isSome, resolve_cons]
  by_cases hpB : (getLE B p).isSome
  · -- `p` lies behind the first entry of `B`, hence behind the range
    have hp : ¬ (start ≤ p ∧ p ≤ stop) := fun hp => by
      obtain ⟨x, hx⟩ := isSome_iff_exists.1 hpB
      obtain ⟨hxB, hxp⟩ := getLE_mem hx
      have := hB' x hxB; omega
    simp [hpB, hp]
  simp only [hpB, Bool.false_or, decide_eq_true_eq, Bool.false_eq_true, if_false]
  by_cases hp : start ≤ p
  · rw [if_pos hp, if_pos hp]
    split
    · rfl
    rename_i hstop
    rw [Mapping.slot_eq_none.2 (by omega)]
    exact (resolve_eq_none_of_le fun a ha => by have := hA' a ha; omega).symm
  · simp [hp]

/-- What a page of the range resolves to after `mmap`. -/
def mmapSlot (addr : Nat) (permissions : MemoryPermissions) (backing : Backing) (pageOffset : Nat)
    (shared : Bool) (p : Nat) : Slot :=
  ⟨backing, pageOffset + (p - addr / 4096), permissions, shared, none⟩

lemma mmap_refines {len : Nat} {permissions : MemoryPermissions} {backing : Backing}
    {pageOffset : Nat} {shared : Bool} {addr : VirtAddr} (hL : MapsOk L) (hlow : addr.addr + len ≤ 2 ^ 47)
    (hgap : NoGap L addr.addr len) (h : mmap L bias len permissions backing pageOffset shared = some (addr, L', eff)) :
    MapsOk L' ∧ ∀ p, resolve L' p =
      if Covers addr.addr len p then some (mmapSlot addr.addr permissions backing pageOffset shared p)
      else resolve L p := by
  obtain ⟨hlen, -, -, L1, eff1, hun, rfl, -⟩ := mmap_eq_some h
  obtain ⟨hok, hres, hclear⟩ := unmap_refines hL hgap hun
  have hle := addr.page_le_last len
  obtain ⟨hok', hres'⟩ := insert_refines hok (hclear hlen) (m := ⟨backing, pageOffset, permissions,
    shared, List.replicate ((addr.addr + (len - 1)) / 4096 - addr.page + 1) none⟩)
    (by simp only [Mapping.len, length_replicate]; omega)
    (by simp [Mapping.len]) (by omega)
  refine ⟨hok', fun p => ?_⟩
  have hcov : Covers addr.addr len p ↔ addr.page ≤ p ∧ p ≤ (addr.addr + (len - 1)) / 4096 :=
    ⟨fun h => h.2, fun h => ⟨hlen, h⟩⟩
  rw [hres', hres]
  by_cases hc : Covers addr.addr len p
  · have hi : p - addr.page < (addr.addr + (len - 1)) / 4096 - addr.page + 1 := by have := hcov.1 hc; omega
    simp only [if_pos hc, if_pos (hcov.1 hc), Mapping.slot, List.getElem?_replicate, if_pos hi]
    rfl
  · rw [if_neg hc, if_neg fun h => hc (hcov.2 h), if_neg hc]

/-! ## Finding room -/

def Clear (L : Mappings) (addr len : Nat) : Prop :=
  ∀ y ∈ L, y.1 + y.2.len ≤ addr / 4096 ∨ (addr + (len - 1)) / 4096 < y.1

lemma Clear.noGap {addr len : Nat} (hL : MapsOk L) (h : Clear L addr len) : NoGap L addr len := by
  rintro - ⟨-, -, -, y, hy, h1, h2⟩
  have := h y hy
  have := hL.nonempty y hy
  omega

lemma Clear.resolve {addr len p : Nat} (h : Clear L addr len) (hp : Covers addr len p) : resolve L p = none := by
  unfold L2.resolve
  cases hg : getLE L p with
  | none => rfl
  | some x =>
    obtain ⟨hx, hxp⟩ := getLE_mem hg
    have := h x hx
    obtain ⟨-, hp1, hp2⟩ := hp
    exact Mapping.slot_eq_none.2 (by omega)

lemma isFree_clear {addr : VirtAddr} {len : Nat} (hL : MapsOk L) (hlen : 0 < len)
    (h : isFree L addr len = some true) : Clear L addr.addr len := by
  unfold isFree at h
  rw [if_neg (by omega)] at h
  split at h
  · simp at h
  rename_i stop hstop
  rw [VirtAddr.add_eq_some] at hstop
  split at h
  · simp at h
  rename_i page m hg
  obtain ⟨q, hq, hle⟩ := map_eq_some_iff.1 h
  obtain ⟨-, rfl⟩ := pageAdd_eq_some.1 hq
  rw [decide_eq_true_eq] at hle
  obtain ⟨A, B, rfl, hB⟩ := getLE_split hL.sorted hg
  unfold VirtAddr.page at hle hB
  rw [hstop] at hB
  intro y hy
  simp only [mem_append, mem_cons] at hy
  rcases hy with hy | rfl | hy
  · have := (Disjoint.append.1 hL.disjoint).2.2 y hy (page, m) (mem_cons_self ..)
    simp only at this; omega
  · exact .inl hle
  · exact .inr (hB y hy)

/-- Where the loop stops: `size` bytes below it are free of the entries seen, at or below the first address. -/
lemma findLoop_spec {size : Nat} {below : Mappings} {last r : Nat}
    (hd : below.Pairwise fun a b => b.1 + b.2.len ≤ a.1) (hle : ∀ x ∈ below, 4096 * x.1 ≤ last)
    (hal : last % 4096 = 0) (h : findLoop size below last = some r) : r ≤ last ∧ r % 4096 = 0 ∧
      ∀ x ∈ below, 4096 * (x.1 + x.2.len) + size ≤ r ∨ r ≤ 4096 * x.1 := by
  induction below generalizing last with
  | nil =>
    simp only [findLoop, Option.some.injEq] at h
    subst h
    exact ⟨le_rfl, hal, by simp⟩
  | cons x below ih =>
    obtain ⟨page, m⟩ := x
    obtain ⟨hx, hrest⟩ := pairwise_cons.1 hd
    have hpage := hle (page, m) (mem_cons_self ..)
    simp only at hpage hx
    unfold findLoop at h
    split at h
    · simp at h
    rename_i mappingEnd hend
    obtain ⟨-, rfl⟩ := pageAdd_eq_some.1 hend
    split at h
    · rename_i hfit
      cases h
      refine ⟨le_rfl, hal, ?_⟩
      rw [forall_mem_cons]
      exact ⟨.inl (by simp only; omega), fun y hy => .inl (by have := hx y hy; omega)⟩
    · obtain ⟨hr, hral, hfree⟩ := ih hrest
        (fun y hy => by have := hx y hy; omega) (by omega) h
      refine ⟨by omega, hral, ?_⟩
      rw [forall_mem_cons]
      exact ⟨.inr hr, hfree⟩

lemma alignUp_ge (n : Nat) : n ≤ alignUp n ∧ alignUp n % 4096 = 0 := by unfold alignUp; omega

lemma dynamicBaseAddress_bounds (abi : Abi) : abi.dynamicBaseAddress % 4096 = 0 ∧ abi.dynamicBaseAddress < 2 ^ 47 := by
  cases abi <;> decide

/-- The address is a page start below the base, with room for a guard page on both sides. -/
lemma findFreeAddress_spec {len : Nat} {abi : Abi} {addr : VirtAddr} (hL : MapsOk L)
    (h : findFreeAddress L len abi = some addr) :
    0 < len ∧ addr.addr % 4096 = 0 ∧ addr.addr + alignUp len < abi.dynamicBaseAddress ∧
      ∀ x ∈ L, 4096 * (x.1 + x.2.len + 1) ≤ addr.addr ∨ addr.addr + alignUp len + 4096 ≤ 4096 * x.1 := by
  obtain ⟨hbal, hblt⟩ := dynamicBaseAddress_bounds abi
  obtain ⟨hge, hal⟩ := alignUp_ge len
  unfold findFreeAddress at h
  split at h
  · simp at h
  rename_i hlen
  simp only at h
  split at h
  · simp at h
  rename_i last hloop
  split at h
  · rename_i hsize
    obtain ⟨a, ha, hadd⟩ := bind_eq_some_iff.1 h
    rw [VirtAddr.new_eq_some] at ha
    rw [VirtAddr.add_eq_some] at hadd
    obtain ⟨hle, hlal, hfree⟩ := findLoop_spec
      (pairwise_reverse.2 (hL.disjoint.filter _)) (fun x hx => by
        have := (mem_filter.1 (mem_reverse.1 hx)).2
        rw [decide_eq_true_eq] at this; omega) hbal hloop
    refine ⟨by omega, by omega, by omega, fun x hx => ?_⟩
    by_cases hxb : x.1 ≤ abi.dynamicBaseAddress / 4096
    · have ha' : a.addr + (alignUp len + 4096 * 2) = last := by omega
      rcases hfree x (mem_reverse.2 (mem_filter.2 ⟨hx, by simpa using hxb⟩)) with h | h
      · left; grind
      · right; grind
    · right; omega
  · simp at h

lemma findFreeAddress_clear {len : Nat} {abi : Abi} {addr : VirtAddr} (hL : MapsOk L)
    (h : findFreeAddress L len abi = some addr) : Clear L addr.addr len ∧ addr.addr + len ≤ 2 ^ 47 := by
  obtain ⟨hlen, hal, hlt, hfree⟩ := findFreeAddress_spec hL h
  have hge := (alignUp_ge len).1
  have := (dynamicBaseAddress_bounds abi).2
  refine ⟨fun y hy => ?_, by omega⟩
  rcases hfree y hy with h | h
  · left; omega
  · right; omega

/-! ## The two systems -/

def VmOp.UserHalf : VmOp → Prop
  | .mmap (.fixed addr) len _ _ _ _ => addr.addr + len ≤ 2 ^ 47
  | .mmap (.dynamic _) _ _ _ _ _ => True
  | .unmap addr len => addr.addr + len ≤ 2 ^ 47
  | .mprotect addr len _ => addr.addr + len ≤ 2 ^ 47
  | .setBrkEnd brkEnd => brkEnd.addr < 2 ^ 47
  | .discardPages address len => address.addr + len ≤ 2 ^ 47

/-- The `unmap` the operation begins with does not stop at a gap. -/
def VmOp.SkipsNoGap (s : VirtualMemoryState) : VmOp → Prop
  | .mmap (.fixed addr) len _ _ _ _ => NoGap s.mappings addr.addr len
  | .unmap addr len => NoGap s.mappings addr.addr len
  | .setBrkEnd brkEnd => NoGap s.mappings brkEnd.addr (s.brkEnd.addr - brkEnd.addr)
  | _ => True

instance : DecidablePred VmOp.UserHalf
  | .mmap (.fixed _) _ _ _ _ _ => inferInstanceAs (Decidable (_ ≤ _))
  | .mmap (.dynamic _) _ _ _ _ _ => inferInstanceAs (Decidable True)
  | .unmap _ _ => inferInstanceAs (Decidable (_ ≤ _))
  | .mprotect _ _ _ => inferInstanceAs (Decidable (_ ≤ _))
  | .setBrkEnd _ => inferInstanceAs (Decidable (_ < _))
  | .discardPages _ _ => inferInstanceAs (Decidable (_ ≤ _))

instance (s : VirtualMemoryState) : DecidablePred (VmOp.SkipsNoGap s)
  | .mmap (.fixed _) _ _ _ _ _ => inferInstanceAs (Decidable (NoGap _ _ _))
  | .mmap (.dynamic _) _ _ _ _ _ => inferInstanceAs (Decidable True)
  | .unmap _ _ => inferInstanceAs (Decidable (NoGap _ _ _))
  | .mprotect _ _ _ => inferInstanceAs (Decidable True)
  | .setBrkEnd _ => inferInstanceAs (Decidable (NoGap _ _ _))
  | .discardPages _ _ => inferInstanceAs (Decidable True)

/-- The runs of an address space from its creation on, over the user half. -/
def vmSystem : LTS VirtualMemoryState (VmOp × VmRes) where
  init s := s = .new
  step s l s' := l.1.UserHalf ∧ ∃ eff, vmCall s l.1 = some (l.2, s', eff)

/-- Those in which no `unmap` stops at a gap. -/
def vmSystemNoGap : LTS VirtualMemoryState (VmOp × VmRes) where
  init s := s = .new
  step s l s' := l.1.SkipsNoGap s ∧ vmSystem.step s l s'

structure PageDesc where
  backing : Backing
  offset : Nat
  permissions : MemoryPermissions
  shared : Bool
  deriving DecidableEq

def Slot.desc (x : Slot) : PageDesc := ⟨x.backing, x.offset, x.permissions, x.shared⟩

structure AbsVm where
  pages : Nat → Option PageDesc
  brkEnd : Nat

def AbsVm.new : AbsVm := ⟨fun _ => none, 0⟩

/-- Every page of the range becomes what `f` says, all others stay. -/
def AbsVm.set (a : AbsVm) (addr len : Nat) (f : Nat → Option PageDesc) : AbsVm :=
  { a with pages := fun p => if Covers addr len p then f p else a.pages p }

def mapped (addr : Nat) (permissions : MemoryPermissions) (backing : Backing) (pageOffset : Nat)
    (shared : Bool) (p : Nat) : Option PageDesc :=
  some ⟨backing, pageOffset + (p - addr / 4096), permissions, shared⟩

def AbsVm.Free (a : AbsVm) (addr len : Nat) : Prop := ∀ p, Covers addr len p → a.pages p = none

/-- A dynamic `mmap` and a growing `set_brk_end` only use pages that were free. -/
inductive AbsStep (a : AbsVm) : VmOp × VmRes → AbsVm → Prop where
  | mmapFixed {addr len permissions backing pageOffset shared} :
    AbsStep a (.mmap (.fixed addr) len permissions backing pageOffset shared, .addr addr)
      (a.set addr.addr len (mapped addr.addr permissions backing pageOffset shared))
  | mmapDynamic {abi addr len permissions backing pageOffset shared} :
    a.Free addr.addr len →
    AbsStep a (.mmap (.dynamic abi) len permissions backing pageOffset shared, .addr addr)
      (a.set addr.addr len (mapped addr.addr permissions backing pageOffset shared))
  | unmap {addr len} : AbsStep a (.unmap addr len, .unit) (a.set addr.addr len fun _ => none)
  | mprotect {addr len permissions} :
    AbsStep a (.mprotect addr len permissions, .result (.ok ()))
      (a.set addr.addr len fun p => (a.pages p).map ({ · with permissions := permissions }))
  | mprotectFails {addr len permissions e} :
    AbsStep a (.mprotect addr len permissions, .result (.error e)) a
  | brkGrows {brkEnd : VirtAddr} :
    a.brkEnd < brkEnd.addr → a.Free a.brkEnd (brkEnd.addr - a.brkEnd) →
    AbsStep a (.setBrkEnd brkEnd, .result (.ok ()))
      { a.set a.brkEnd (brkEnd.addr - a.brkEnd) (mapped a.brkEnd ⟨false, true, true⟩ .zero 0 false) with
        brkEnd := brkEnd.addr }
  | brkShrinks {brkEnd : VirtAddr} :
    brkEnd.addr ≤ a.brkEnd →
    AbsStep a (.setBrkEnd brkEnd, .result (.ok ()))
      { a.set brkEnd.addr (a.brkEnd - brkEnd.addr) fun _ => none with brkEnd := brkEnd.addr }
  | brkFails {brkEnd e} : AbsStep a (.setBrkEnd brkEnd, .result (.error e)) a
  | discardPages {address len r} : AbsStep a (.discardPages address len, .result r) a

def absSystem : LTS AbsVm (VmOp × VmRes) where
  init a := a = .new
  step := AbsStep

/-- The abstract function is the lookup of `map_page`. -/
structure Abstracts (s : VirtualMemoryState) (a : AbsVm) : Prop where
  maps : MapsOk s.mappings
  pages : ∀ p, (resolve s.mappings p).map Slot.desc = a.pages p
  brkEnd : s.brkEnd.addr = a.brkEnd
  brkLow : s.brkEnd.addr < 2 ^ 47

/-! ## The simulation -/

variable {s : VirtualMemoryState} {a : AbsVm} {r : Except Errno Unit}

section

variable (hR : Abstracts s a)

include hR

lemma Abstracts.set {addr len : Nat} {f : Nat → Option PageDesc} (hL : MapsOk L)
    (hf : ∀ p, (resolve L p).map Slot.desc = if Covers addr len p then f p else (resolve s.mappings p).map Slot.desc) :
    Abstracts { s with mappings := L } (a.set addr len f) := by
  refine ⟨hL, fun p => ?_, hR.brkEnd, hR.brkLow⟩
  rw [hf p, hR.pages]; rfl

lemma Abstracts.free {addr len : Nat} (h : Clear s.mappings addr len) : a.Free addr len := fun p hp => by
  rw [← hR.pages p, h.resolve hp]; rfl

lemma mmap_sim {len : Nat} {permissions : MemoryPermissions}
    {backing : Backing} {pageOffset : Nat} {shared : Bool} {addr : VirtAddr} (hlow : addr.addr + len ≤ 2 ^ 47)
    (hgap : NoGap s.mappings addr.addr len)
    (h : mmap s.mappings bias len permissions backing pageOffset shared = some (addr, L, eff)) :
    Abstracts { s with mappings := L }
      (a.set addr.addr len (mapped addr.addr permissions backing pageOffset shared)) := by
  obtain ⟨hL, hres⟩ := mmap_refines hR.maps hlow hgap h
  refine hR.set hL fun p => ?_
  rw [hres p]
  split <;> rfl

lemma unmap_sim {addr : VirtAddr} {len : Nat} (hgap : NoGap s.mappings addr.addr len)
    (h : unmap s.mappings addr len = some (L, eff)) :
    Abstracts { s with mappings := L } (a.set addr.addr len fun _ => none) := by
  obtain ⟨hL, hres, -⟩ := unmap_refines hR.maps hgap h
  refine hR.set hL fun p => ?_
  rw [hres p]
  split <;> rfl

end

lemma mprotect_sim (hR : Abstracts s a) {addr : VirtAddr} {len : Nat} {permissions : MemoryPermissions}
    (h : mprotect s.mappings addr len permissions = some (r, L, eff)) :
    ∃ a', AbsStep a (.mprotect addr len permissions, .result r) a' ∧ Abstracts { s with mappings := L } a' := by
  rcases mprotect_eq_some h with ⟨rfl, rfl, rfl, -⟩ | ⟨rfl, rfl, -⟩ | ⟨hlen, -, -, hp⟩
  · exact ⟨_, .mprotect, hR.set hR.maps fun p => by simp [Covers]⟩
  · exact ⟨a, .mprotectFails, hR⟩
  rcases mprotectPages_spec hR.maps.sorted hR.maps.nonempty hp with ⟨rfl, hspec⟩ | ⟨rfl, rfl⟩
  · refine ⟨_, .mprotect, hR.set ?_ fun p => ?_⟩
    · exact hR.maps.of_parts hspec.nonempty (hspec.disjoint hR.maps.disjoint) hspec.parts
    rw [hspec.resolves p, ← hR.pages p, Option.map_map, Option.map_map]
    by_cases hc : Covers addr.addr len p
    · have hr : addr.page ≤ p ∧ p ≤ (addr.addr + (len - 1)) / 4096 := hc.2
      simp only [if_pos hc, if_pos hr]; rfl
    · have hr : ¬ (addr.page ≤ p ∧ p ≤ (addr.addr + (len - 1)) / 4096) := fun h => hc ⟨hlen, h⟩
      simp only [if_neg hc, if_neg hr]; rfl
  · exact ⟨a, .mprotectFails, hR⟩

lemma setBrkEnd_sim {s' : VirtualMemoryState} (hR : Abstracts s a) {brkEnd : VirtAddr}
    (hlow : brkEnd.addr < 2 ^ 47) (hgap : NoGap s.mappings brkEnd.addr (s.brkEnd.addr - brkEnd.addr))
    (h : setBrkEnd s brkEnd = some (r, s', eff)) :
    ∃ a', AbsStep a (.setBrkEnd brkEnd, .result r) a' ∧ Abstracts s' a' := by
  rcases setBrkEnd_eq_some h with ⟨rfl, rfl, -⟩ | ⟨rfl, hgt, hfree, L, hmm, rfl⟩ | ⟨rfl, hle, L, hun, rfl⟩
  · exact ⟨a, .brkFails, hR⟩
  · have hclear := isFree_clear hR.maps (by omega) hfree
    have hsim := mmap_sim hR (by omega) (hclear.noGap hR.maps) hmm
    rw [hR.brkEnd] at hgt hclear hsim
    exact ⟨_, .brkGrows hgt (hR.free hclear), hsim.maps, hsim.pages, rfl, hlow⟩
  · have hsim := unmap_sim hR hgap hun
    rw [hR.brkEnd] at hsim hle
    exact ⟨_, .brkShrinks hle, hsim.maps, hsim.pages, rfl, hlow⟩

lemma discard_sim (hR : Abstracts s a) {address : VirtAddr} {len : Nat}
    (h : discard s.mappings address len = some (r, L, eff)) : Abstracts { s with mappings := L } a := by
  rcases discard_eq_some h with ⟨-, rfl, -⟩ | ⟨-, -, dropped, hd, -⟩
  · exact hR
  have hle : address.page ≤ (address.addr + len) / 4096 := by unfold VirtAddr.page; omega
  have hspec := discardPages_spec hle hR.maps.sorted hd
  refine ⟨hR.maps.of_shape hspec.shape, fun p => ?_, hR.brkEnd, hR.brkLow⟩
  rw [← hR.pages p]
  rcases hspec.resolves p with hp | ⟨-, -, hp⟩
  · rw [hp]
  · rw [hp, Option.map_map]; rfl

/-- Every step without a skipped gap is a step of the abstract address space. -/
lemma vm_sim : vmSystemNoGap.Sim absSystem Abstracts := by
  refine ⟨fun s hs => ⟨.new, rfl, hs ▸ ⟨mapsOk_nil, fun _ => rfl, rfl, by decide⟩⟩, ?_⟩
  rintro s ⟨op, res⟩ s' a hR ⟨hgap, huser, eff, hstep⟩
  simp only at hgap huser hstep
  cases op with
  | mmap bias len permissions backing pageOffset shared =>
    obtain ⟨⟨addr, L, eff'⟩, hm, he⟩ := map_eq_some_iff.1 hstep
    cases he
    rcases (mmap_eq_some hm).2.1 with rfl | ⟨abi, rfl, hfind⟩
    · exact ⟨_, .mmapFixed, mmap_sim hR huser hgap hm⟩
    obtain ⟨hclear, hlow⟩ := findFreeAddress_clear hR.maps hfind
    exact ⟨_, .mmapDynamic (hR.free hclear), mmap_sim hR hlow (hclear.noGap hR.maps) hm⟩
  | unmap addr len =>
    obtain ⟨⟨L, eff'⟩, hu, he⟩ := map_eq_some_iff.1 hstep
    cases he
    exact ⟨_, .unmap, unmap_sim hR hgap hu⟩
  | mprotect addr len permissions =>
    obtain ⟨⟨r, L, eff'⟩, hp, he⟩ := map_eq_some_iff.1 hstep
    cases he
    exact mprotect_sim hR hp
  | setBrkEnd brkEnd =>
    obtain ⟨⟨r, s1, eff'⟩, hb, he⟩ := map_eq_some_iff.1 hstep
    cases he
    exact setBrkEnd_sim hR huser hgap hb
  | discardPages address len =>
    obtain ⟨⟨r, L, eff'⟩, hd, he⟩ := map_eq_some_iff.1 hstep
    cases he
    exact ⟨_, .discardPages, discard_sim hR hd⟩

/-- **The map of mappings is a partial function from pages.** In every run over the user half in which no `unmap`
stops at a gap, the mappings are non-empty and disjoint, and the run is one of the abstract address space: a
mapped range resolves to the new mapping at its offsets, an unmapped one to nothing, any other page as before. -/
theorem mappings_refine_partial_function {s : VirtualMemoryState} {ls : List (VmOp × VmRes)}
    (h : vmSystemNoGap.Run .new ls s) : Nonempty s.mappings ∧ Disjoint s.mappings ∧
      ∃ a, absSystem.Run .new ls a ∧ ∀ p, (resolve s.mappings p).map Slot.desc = a.pages p := by
  obtain ⟨a0, rfl, hR0⟩ := vm_sim.init .new rfl
  obtain ⟨a, hrun, hR⟩ := vm_sim.run h hR0
  exact ⟨hR.maps.nonempty, hR.maps.disjoint, a, hrun, hR.pages⟩

/-- Two mappings, and an `unmap` of the end of the first. -/
theorem mappings_refine_mmap_mmap_unmap : ∃ ls s, vmSystemNoGap.Run .new ls s ∧ ls.length = 3 ∧
      Nonempty s.mappings ∧ Disjoint s.mappings ∧
      ∃ a, absSystem.Run .new ls a ∧ ∀ p, (resolve s.mappings p).map Slot.desc = a.pages p := by
  have h : vmSystemNoGap.Run .new
      [(.mmap (.fixed ⟨0x10000, .inl (by decide)⟩) 0x2000 ⟨false, true, true⟩ .zero 0 false,
          .addr ⟨0x10000, .inl (by decide)⟩),
        (.mmap (.dynamic .amd64) 1 ⟨false, false, true⟩ .zero 0 false, .addr ⟨0x7ffeffffe000, .inl (by decide)⟩),
        (.unmap ⟨0x11000, .inl (by decide)⟩ 0x1000, .unit)]
      ⟨[(0x10, ⟨.zero, 0, ⟨false, true, true⟩, false, [none]⟩),
        (0x7ffeffffe, ⟨.zero, 0, ⟨false, false, true⟩, false, [none]⟩)], .zero⟩ :=
    .via ⟨[(0x10, ⟨.zero, 0, ⟨false, true, true⟩, false, [none, none]⟩)], .zero⟩
      ⟨by decide, by decide, _, rfl⟩
      (.via ⟨[(0x10, ⟨.zero, 0, ⟨false, true, true⟩, false, [none, none]⟩),
          (0x7ffeffffe, ⟨.zero, 0, ⟨false, false, true⟩, false, [none]⟩)], .zero⟩
        ⟨by decide, by decide, _, rfl⟩
        (.cons ⟨by decide, by decide, _, rfl⟩ (.nil _)))
  exact ⟨_, _, h, rfl, mappings_refine_partial_function h⟩

/-- With pages 0x10 and 0x15 mapped, `unmap` of pages 0x13 to 0x16 stops at the entry 0x10. -/
theorem gap_skip_counterexample :
    let m : Mapping := ⟨.zero, 0, ⟨false, true, true⟩, false, [none]⟩
    vmSystem.Run .new
      [(.mmap (.fixed ⟨0x10000, .inl (by decide)⟩) 0x1000 ⟨false, true, true⟩ .zero 0 false,
          .addr ⟨0x10000, .inl (by decide)⟩),
        (.mmap (.fixed ⟨0x15000, .inl (by decide)⟩) 0x1000 ⟨false, true, true⟩ .zero 0 false,
          .addr ⟨0x15000, .inl (by decide)⟩),
        (.unmap ⟨0x13000, .inl (by decide)⟩ 0x4000, .unit)]
      ⟨[(0x10, m), (0x15, m)], .zero⟩ ∧
    Covers 0x13000 0x4000 0x15 ∧ (resolve [(0x10, m), (0x15, m)] 0x15).isSome := by
  intro m
  refine ⟨?_, by decide, by decide⟩
  exact .via ⟨[(0x10, m)], .zero⟩ ⟨by decide, _, rfl⟩
    (.via ⟨[(0x10, m), (0x15, m)], .zero⟩ ⟨by decide, _, rfl⟩ (.cons ⟨by decide, _, rfl⟩ (.nil _)))

end Mushroom.L2
