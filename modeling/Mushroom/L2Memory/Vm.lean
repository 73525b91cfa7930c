import Mushroom.L2Memory.Mapping

/-!
# The operations of an address space

`VirtualMemoryWriteGuard` and `VirtualMemoryState` of
`kernel/user/process/memory.rs`. Each operation returns the new state and its
`Effect`: the page range it removes from the page tables and the resident pages
it drops. `none` is a panic: a failed assertion, a non-canonical address, an
overflow, or a rejected cursor insertion.
-/
namespace Mushroom.L2

/-- memory.rs:778-781 -/
structure VirtualMemoryState where
  mappings : Mappings
  brkEnd : VirtAddr
  deriving DecidableEq

/-- memory.rs:784-789 -/
def VirtualMemoryState.new : VirtualMemoryState := ⟨[], VirtAddr.zero⟩

inductive Abi where
  | i386 | amd64
  deriving DecidableEq

inductive Bias where
  | fixed (addr : VirtAddr)
  | dynamic (abi : Abi)
  deriving DecidableEq

/-- memory.rs:907-913 -/
def Bias.pageOffset : Bias → Nat
  | .fixed addr => addr.addr % 4096
  | .dynamic _ => 0

/-- The pages (first, last) passed to `try_unmap_user_pages`, the resident pages dropped, and how many pages are
reported to `decrease_rss`. -/
structure Effect where
  flush : Option (Nat × Nat)
  dropped : List UserPage
  released : Nat
  deriving DecidableEq

def Effect.nothing : Effect := ⟨none, [], 0⟩

def residents (ms : List Mapping) : List UserPage := ms.flatMap Mapping.resident

def resident (L : Mappings) : List UserPage := residents (L.map Prod.snd)

/-- memory.rs:628-690 -/
def unmap (L : Mappings) (addr : VirtAddr) (len : Nat) : Option (Mappings × Effect) :=
  if len = 0 then some (L, .nothing)
  else
    match addr.add (len - 1) with
    | none => none
    | some stop =>
      match unmapPages L addr.page stop.page with
      | none => none
      | some (L', gone) => some (L', ⟨some (addr.page, stop.page), residents gone, (residents gone).length⟩)

/-- `free >= size` behind `mapping_end`, from the greatest key downwards, for `last_address`.
memory.rs:814-830 -/
def findLoop (size : Nat) : Mappings → Nat → Option Nat
  | [], lastAddress => some lastAddress
  | (page, m) :: below, lastAddress =>
    match pageAdd page m.len with
    | none => none
    | some mappingEnd =>
      if 4096 * mappingEnd ≤ lastAddress ∧ size ≤ lastAddress - 4096 * mappingEnd then
        some lastAddress
      else findLoop size below (4096 * page)

def Abi.dynamicBaseAddress : Abi → Nat
  | .i386 => 0xff000000
  | .amd64 => 0x7fff00000000

/-- memory.rs:791-834 -/
def findFreeAddress (L : Mappings) (size : Nat) (abi : Abi) : Option VirtAddr :=
  if size = 0 ∨ 2 ^ 47 ≤ size then none
  else
    let size := alignUp size + 4096 * 2
    let base := abi.dynamicBaseAddress
    match findLoop size (L.filter fun x => x.1 ≤ base / 4096).reverse base with
    | none => none
    | some lastAddress =>
      if size ≤ lastAddress then
        (VirtAddr.new (lastAddress - size)).bind fun a => a.add 4096
      else none

/-- The largest request that the heap serves; with more the `alloc_error_handler` panics.
kernel/memory/heap/huge_allocator.rs:37-42 -/
def heapLimit : Nat := 0x10000 * 4096

/-- The `Arc` of a new `SplitVec<Option<UserPage>>`: the counters and 24 bytes for each page. -/
def slotBytes (size : Nat) : Nat := 16 + 24 * size

/-- memory.rs:363-400 -/
def mmap (L : Mappings) (bias : Bias) (len : Nat) (permissions : MemoryPermissions)
    (backing : Backing) (pageOffset : Nat) (shared : Bool) : Option (VirtAddr × Mappings × Effect) :=
  if len = 0 then none
  else
    let addr := match bias with
      | .fixed bias => some bias
      | .dynamic abi => findFreeAddress L len abi
    match addr with
    | none => none
    | some addr =>
      match (addr.add len).bind fun stop => stop.sub 1 with
      | none => none
      | some last =>
        match unmap L addr len with
        | none => none
        | some (L', eff) =>
          let size := last.page - addr.page + 1
          if heapLimit < slotBytes size then none
          else
            let m : Mapping := ⟨backing, pageOffset, permissions, shared, List.replicate size none⟩
            -- `BTreeMap::insert` drops an entry it replaces
            let replaced := (L'.filter fun x => x.1 = addr.page).map Prod.snd
            some (addr, OrdMap.insert addr.page m L', { eff with dropped := eff.dropped ++ residents replaced })

/-- memory.rs:402-416 -/
def mmapZero (L : Mappings) (bias : Bias) (len : Nat) (permissions : MemoryPermissions) :
    Option (VirtAddr × Mappings × Effect) :=
  mmap L bias len permissions .zero 0 false

/-- The page table removal comes first, also when the map then has a gap.
memory.rs:569-626 -/
def mprotect (L : Mappings) (addr : VirtAddr) (len : Nat) (permissions : MemoryPermissions) :
    Option (Except Errno Unit × Mappings × Effect) :=
  if len = 0 then some (.ok (), L, .nothing)
  else if addr.addr % 4096 ≠ 0 then some (.error .inval, L, .nothing)
  else
    match addr.add (len - 1) with
    | none => none
    | some stop =>
      match mprotectPages L addr.page stop.page permissions with
      | none => none
      | some (r, L') => some (r, L', ⟨some (addr.page, stop.page), [], 0⟩)

/-- `Step::backward_checked(page, 1)`, which goes from the upper half to the lower. -/
def pageBack (p : Nat) : Option Nat :=
  if p = 0 then none else if p = 2 ^ 52 - 2 ^ 35 then some (2 ^ 35 - 1) else some (p - 1)

/-- memory.rs:692-724 -/
def discard (L : Mappings) (address : VirtAddr) (len : Nat) : Option (Except Errno Unit × Mappings × Effect) :=
  if address.addr % 4096 ≠ 0 then some (.error .inval, L, .nothing)
  else
    match address.add len with
    | none => none
    | some stop =>
      if stop.addr % 4096 ≠ 0 then some (.error .inval, L, .nothing)
      else
        match discardPages L address.page stop.page with
        | none => none
        | some (r, L', dropped) => some (r, L', ⟨(pageBack stop.page).map (address.page, ·), dropped, dropped.length⟩)

/-- memory.rs:730-748 -/
def isFree (L : Mappings) (addr : VirtAddr) (len : Nat) : Option Bool :=
  if len = 0 then some true
  else
    match addr.add (len - 1) with
    | none => none
    | some stop =>
      match OrdMap.getLE L stop.page with
      | none => some false
      | some (page, m) => (pageAdd page m.len).map fun mappingEnd => decide (mappingEnd ≤ addr.page)

/-- memory.rs:750-775 -/
def setBrkEnd (s : VirtualMemoryState) (brkEnd : VirtAddr) : Option (Except Errno Unit × VirtualMemoryState × Effect) :=
  if s.brkEnd.addr < brkEnd.addr then
    match isFree s.mappings s.brkEnd (brkEnd.addr - s.brkEnd.addr) with
    | none => none
    | some false => some (.error .noMem, s, .nothing)
    | some true =>
      match mmapZero s.mappings (.fixed s.brkEnd) (brkEnd.addr - s.brkEnd.addr)
          ⟨false, true, true⟩ with
      | none => none
      | some (_, L, eff) => some (.ok (), ⟨L, brkEnd⟩, eff)
  else if s.brkEnd.addr = brkEnd.addr then some (.ok (), ⟨s.mappings, brkEnd⟩, .nothing)
  else
    match unmap s.mappings brkEnd (s.brkEnd.addr - brkEnd.addr) with
    | none => none
    | some (L, eff) => some (.ok (), ⟨L, brkEnd⟩, eff)

/-! ## What a call that returns did -/

variable {L' L : Mappings} {len : Nat} {eff : Effect} {addr : VirtAddr} {permissions : MemoryPermissions}
  {r : Except Errno Unit}

lemma unmap_eq_some (h : unmap L addr len = some (L', eff)) : (len = 0 ∧ L' = L ∧ eff = .nothing) ∨
      (0 < len ∧ ∃ gone, unmapPages L addr.page ((addr.addr + (len - 1)) / 4096) = some (L', gone) ∧
        eff = ⟨some (addr.page, (addr.addr + (len - 1)) / 4096), residents gone, (residents gone).length⟩) := by
  unfold unmap at h
  split at h
  · rename_i h0
    cases h
    exact .inl ⟨h0, rfl, rfl⟩
  split at h
  · simp at h
  rename_i stop hstop
  rw [VirtAddr.add_eq_some] at hstop
  split at h
  · simp at h
  rename_i L1 gone hun
  cases h
  refine .inr ⟨by omega, gone, ?_, ?_⟩ <;> rw [← hstop]
  · exact hun
  · rfl

lemma mmap_eq_some {bias : Bias} {backing : Backing} {pageOffset : Nat}
    {shared : Bool} (h : mmap L bias len permissions backing pageOffset shared = some (addr, L', eff)) :
    0 < len ∧ (bias = .fixed addr ∨ ∃ abi, bias = .dynamic abi ∧ findFreeAddress L len abi = some addr) ∧
      Canonical (addr.addr + len) ∧ ∃ L1 eff1, unmap L addr len = some (L1, eff1) ∧
        L' = OrdMap.insert addr.page ⟨backing, pageOffset, permissions, shared,
          List.replicate ((addr.addr + (len - 1)) / 4096 - addr.page + 1) none⟩ L1 ∧
        eff = ⟨eff1.flush, eff1.dropped ++
          residents ((L1.filter fun x => x.1 = addr.page).map Prod.snd), eff1.released⟩ := by
  unfold mmap at h
  split at h
  · simp at h
  rename_i hlen
  simp only at h
  split at h
  · simp at h
  rename_i addr' haddr
  split at h
  · simp at h
  rename_i last hlast
  obtain ⟨stop, hstop, hsub⟩ := Option.bind_eq_some_iff.1 hlast
  rw [VirtAddr.add_eq_some] at hstop
  split at h
  · simp at h
  rename_i L1 eff1 hun
  split at h
  · simp at h
  cases h
  have hl : last.addr = addr.addr + (len - 1) := by
    unfold VirtAddr.sub at hsub
    split at hsub
    · rw [VirtAddr.new_eq_some] at hsub; omega
    · simp at hsub
  refine ⟨by omega, ?_, hstop ▸ stop.canonical, L1, eff1, hun, ?_, rfl⟩
  · cases bias with
    | fixed b => left; simpa using haddr
    | dynamic abi => exact .inr ⟨abi, rfl, haddr⟩
  · rw [← hl]; rfl

lemma mprotect_eq_some (h : mprotect L addr len permissions = some (r, L', eff)) :
    (len = 0 ∧ r = .ok () ∧ L' = L ∧ eff = .nothing) ∨ (r = .error .inval ∧ L' = L ∧ eff = .nothing) ∨
      (0 < len ∧ addr.addr % 4096 = 0 ∧ eff = ⟨some (addr.page, (addr.addr + (len - 1)) / 4096), [], 0⟩ ∧
        mprotectPages L addr.page ((addr.addr + (len - 1)) / 4096) permissions = some (r, L')) := by
  unfold mprotect at h
  split at h
  · rename_i h0
    cases h
    exact .inl ⟨h0, rfl, rfl, rfl⟩
  split at h
  · cases h
    exact .inr (.inl ⟨rfl, rfl, rfl⟩)
  split at h
  · simp at h
  rename_i stop hstop
  rw [VirtAddr.add_eq_some] at hstop
  split at h
  · simp at h
  rename_i r1 L1 hp
  cases h
  refine .inr (.inr ⟨by omega, by omega, ?_, ?_⟩) <;> rw [← hstop]
  · rfl
  · exact hp

lemma discard_eq_some {address : VirtAddr} (h : discard L address len = some (r, L', eff)) :
    (r = .error .inval ∧ L' = L ∧ eff = .nothing) ∨
      (address.addr % 4096 = 0 ∧ (address.addr + len) % 4096 = 0 ∧ ∃ dropped,
        discardPages L address.page ((address.addr + len) / 4096) = some (r, L', dropped) ∧
        eff = ⟨(pageBack ((address.addr + len) / 4096)).map (address.page, ·), dropped, dropped.length⟩) := by
  unfold discard at h
  split at h
  · cases h
    exact .inl ⟨rfl, rfl, rfl⟩
  split at h
  · simp at h
  rename_i stop hstop
  rw [VirtAddr.add_eq_some] at hstop
  split at h
  · cases h
    exact .inl ⟨rfl, rfl, rfl⟩
  split at h
  · simp at h
  rename_i r1 L1 dropped hd
  cases h
  refine .inr ⟨by omega, by omega, dropped, ?_, ?_⟩ <;> rw [← hstop]
  · exact hd
  · rfl

/-- A failed check, `mmap` of the pages it grows by, or `unmap` of those it shrinks by. -/
lemma setBrkEnd_eq_some {s s' : VirtualMemoryState} {brkEnd : VirtAddr}
    (h : setBrkEnd s brkEnd = some (r, s', eff)) : (r = .error .noMem ∧ s' = s ∧ eff = .nothing) ∨
      (r = .ok () ∧ s.brkEnd.addr < brkEnd.addr ∧ isFree s.mappings s.brkEnd (brkEnd.addr - s.brkEnd.addr) = some true ∧
        ∃ L, mmapZero s.mappings (.fixed s.brkEnd) (brkEnd.addr - s.brkEnd.addr) ⟨false, true, true⟩ =
            some (s.brkEnd, L, eff) ∧ s' = ⟨L, brkEnd⟩) ∨ (r = .ok () ∧ brkEnd.addr ≤ s.brkEnd.addr ∧
        ∃ L, unmap s.mappings brkEnd (s.brkEnd.addr - brkEnd.addr) = some (L, eff) ∧ s' = ⟨L, brkEnd⟩) := by
  unfold setBrkEnd at h
  split at h
  · rename_i hgt
    split at h
    · simp at h
    · cases h
      exact .inl ⟨rfl, rfl, rfl⟩
    rename_i hfree
    split at h
    · simp at h
    rename_i addr L eff' hmm
    cases h
    have haddr : addr = s.brkEnd := by
      rcases (mmap_eq_some hmm).2.1 with hb | ⟨abi, hb, -⟩ <;> cases hb
      rfl
    subst haddr
    exact .inr (.inl ⟨rfl, hgt, hfree, L, hmm, rfl⟩)
  split at h
  · rename_i heq
    cases h
    exact .inr (.inr ⟨rfl, heq.ge, _, by simp [unmap, heq], rfl⟩)
  rename_i hlt heq
  split at h
  · simp at h
  rename_i L eff' hun
  cases h
  exact .inr (.inr ⟨rfl, by omega, L, hun, rfl⟩)

/-! ## Calls -/

inductive VmOp where
  | mmap (bias : Bias) (len : Nat) (permissions : MemoryPermissions) (backing : Backing)
      (pageOffset : Nat) (shared : Bool)
  | unmap (addr : VirtAddr) (len : Nat)
  | mprotect (addr : VirtAddr) (len : Nat) (permissions : MemoryPermissions)
  | setBrkEnd (brkEnd : VirtAddr)
  | discardPages (address : VirtAddr) (len : Nat)
  deriving DecidableEq

inductive VmRes where
  | addr (a : VirtAddr)
  | unit
  | result (r : Except Errno Unit)

/-- One call on `VirtualMemoryWriteGuard`. -/
def vmCall (s : VirtualMemoryState) : VmOp → Option (VmRes × VirtualMemoryState × Effect)
  | .mmap bias len permissions backing pageOffset shared =>
    (mmap s.mappings bias len permissions backing pageOffset shared).map fun r =>
      (.addr r.1, { s with mappings := r.2.1 }, r.2.2)
  | .unmap addr len => (unmap s.mappings addr len).map fun r => (.unit, { s with mappings := r.1 }, r.2)
  | .mprotect addr len permissions =>
    (mprotect s.mappings addr len permissions).map fun r => (.result r.1, { s with mappings := r.2.1 }, r.2.2)
  | .setBrkEnd brkEnd => (setBrkEnd s brkEnd).map fun r => (.result r.1, r.2.1, r.2.2)
  | .discardPages address len =>
    (discard s.mappings address len).map fun r => (.result r.1, { s with mappings := r.2.1 }, r.2.2)

end Mushroom.L2
