import Mushroom.L2Memory.Total

/-!
# The memory system calls

`mmap`, `mmap2`, `mprotect`, `munmap`, `brk` and `madvise` of
`kernel/user/process/syscall.rs`, with the parsing of their arguments: 64-bit
registers through `syscall`, their lower halves through `int 0x80`. `none` is a
panic of the kernel.

Nothing checks an address of a 64-bit call before it becomes a `VirtAddr`, nor
that a fixed range lies in the lower half. In a run of calls that are
`Syscall.Safe` no handler panics and all mappings stay in the lower half.
-/
namespace Mushroom.L2
open VirtAddr

/-! ## Arguments -/

/-- kernel/user/process/syscall/args.rs:404-410 -/
structure ProtFlags where
  (read write exec : Bool)
  deriving DecidableEq

def ProtFlags.fromBits (bits : Nat) : Option ProtFlags :=
  if bits < 8 then some ⟨bits.testBit 0, bits.testBit 1, bits.testBit 2⟩ else none

/-- kernel/user/process/memory.rs:846-854 -/
def ProtFlags.permissions (prot : ProtFlags) : MemoryPermissions := ⟨prot.exec, prot.write, prot.read⟩

/-- `SHARED_VALIDATE` is `SHARED` and `PRIVATE`; `DENYWRITE`, `LOCKED` and
`STACK` are accepted and not used.
args.rs:412-423 -/
structure MmapFlags where
  (shared priv fixed anonymous : Bool)
  deriving DecidableEq

def MmapFlags.all : Nat := 1 <<< 0 ||| 1 <<< 1 ||| 1 <<< 4 ||| 1 <<< 5 ||| 1 <<< 11 ||| 1 <<< 13 ||| 1 <<< 17

def MmapFlags.fromBits (bits : Nat) : Option MmapFlags :=
  if bits &&& MmapFlags.all = bits then
    some ⟨bits.testBit 0, bits.testBit 1, bits.testBit 4, bits.testBit 5⟩
  else none

/-- args.rs:833-838 -/
inductive Advice where
  | dontNeed | free
  deriving DecidableEq

def Advice.parse (value : Nat) : Option Advice :=
  if value = 4 then some .dontNeed else if value = 8 then some .free else none

inductive Syscall where
  | mmap (addr length prot flags fd offset : Nat)
  | mmap2 (addr length prot flags fd offset : Nat)
  | mprotect (addr len prot : Nat)
  | munmap (addr length : Nat)
  | brk (brkValue : Nat)
  | madvise (addr len advice : Nat)
  deriving DecidableEq

/-- What a register holds for the handler.
kernel/user/process/syscall/cpu_state.rs:131-180 -/
def Abi.argument : Abi → BitVec 64 → Nat
  | .amd64, r => r.toNat
  | .i386, r => r.toNat % 2 ^ 32

/-- The numbers of the calls; `mmap2` exists for i386 only.
syscall.rs:559,620,646,659,670,1107 -/
def Syscall.decode (abi : Abi) (no : Nat) (registers : Fin 6 → BitVec 64) : Option Syscall :=
  let arg i := abi.argument (registers i)
  match abi, no with
  | .i386, 90 | .amd64, 9 => some (.mmap (arg 0) (arg 1) (arg 2) (arg 3) (arg 4) (arg 5))
  | .i386, 192 => some (.mmap2 (arg 0) (arg 1) (arg 2) (arg 3) (arg 4) (arg 5))
  | .i386, 125 | .amd64, 10 => some (.mprotect (arg 0) (arg 1) (arg 2))
  | .i386, 91 | .amd64, 11 => some (.munmap (arg 0) (arg 1))
  | .i386, 45 | .amd64, 12 => some (.brk (arg 0))
  | .i386, 219 | .amd64, 28 => some (.madvise (arg 0) (arg 1) (arg 2))
  | _, _ => none

def Syscall.Passable (abi : Abi) (call : Syscall) : Prop := ∃ no registers, Syscall.decode abi no registers = some call

/-! ## Handlers -/

/-- The file behind a descriptor (`FdNum::parse`, `FileDescriptorTable::get`), and whether `stat` on it succeeds. -/
structure FileTable where
  get : Nat → Except Errno Nat
  stat : Nat → Except Errno Unit

abbrev SyscallResult := Option (Except Errno Nat × VirtualMemoryState)

/-- memory.rs:440-512 -/
def mmapFileWithZeros (T : FileTable) (L : Mappings) (bias : Bias) (fileSz memSz file offset : Nat)
    (permissions : MemoryPermissions) (shared zeroPad : Bool) : Option (Except Errno (VirtAddr × Mappings × Effect)) :=
  if offset % 0x1000 ≠ bias.pageOffset then some (.error .inval)
  else
    match T.stat file with
    | .error e => some (.error e)
    | .ok () =>
      -- `zero_offset: offset + file_sz`
      if offset + fileSz < 2 ^ 64 then
        (mmap L bias memSz permissions (.file file (offset + fileSz) shared zeroPad) (offset / 0x1000)
          shared).map .ok
      else none

/-- memory.rs:418-437 -/
def mmapFile (T : FileTable) (L : Mappings) (bias : Bias) (len file offset : Nat)
    (permissions : MemoryPermissions) (shared : Bool) : Option (Except Errno (VirtAddr × Mappings × Effect)) :=
  mmapFileWithZeros T L bias len (alignUp len) file offset permissions shared false

namespace Syscall

/-- syscall.rs:571-575 -/
def bias (abi : Abi) (flags : MmapFlags) (addr : Nat) : Option Bias :=
  if flags.fixed then (new addr).map .fixed else some (.dynamic abi)

/-- The two branches of `mmap` for a file.
syscall.rs:591-599,607-615 -/
def mmapFd (T : FileTable) (s : VirtualMemoryState) (bias : Bias) (length : Nat) (prot : ProtFlags)
    (fd offset : Nat) (shared : Bool) : SyscallResult :=
  match T.get fd with
  | .error e => some (.error e, s)
  | .ok file =>
    match mmapFile T s.mappings bias length file offset prot.permissions shared with
    | none => none
    | some (.error e) => some (.error e, s)
    | some (.ok (addr, L, _)) => some (.ok addr.addr, { s with mappings := L })

/-- The todo and the assertion of the source are panics as well.
syscall.rs:559-618 -/
def doMmap (T : FileTable) (abi : Abi) (s : VirtualMemoryState) (addr length : Nat) (prot : ProtFlags)
    (flags : MmapFlags) (fd offset : Nat) : SyscallResult :=
  match bias abi flags addr with
  | none => none
  | some bias =>
    if length = 0 then some (.error .inval, s)
    else if ¬ length < 2 ^ 47 then some (.error .noMem, s)
    else if flags.anonymous ∧ offset % 0x1000 ≠ 0 then some (.error .inval, s)
    -- only a fixed bias can have an offset
    else if bias.pageOffset ≠ 0 then some (.error .inval, s)
    else if flags.shared ∧ flags.priv then none
    else if flags.shared then
      if flags.anonymous then none else mmapFd T s bias length prot fd offset true
    else if flags.priv then
      if flags.anonymous then
        match mmapZero s.mappings bias length prot.permissions with
        | none => none
        | some (addr, L, _) => some (.ok addr.addr, { s with mappings := L })
      else mmapFd T s bias length prot fd offset false
    else some (.error .inval, s)

/-- syscall.rs:646-657 -/
def doMprotect (s : VirtualMemoryState) (addr len : Nat) (prot : ProtFlags) : SyscallResult :=
  match new addr with
  | none => none
  | some addr =>
    match L2.mprotect s.mappings addr len prot.permissions with
    | none => none
    | some (.error e, L, _) => some (.error e, { s with mappings := L })
    | some (.ok (), L, _) => some (.ok 0, { s with mappings := L })

/-- syscall.rs:659-668 -/
def doMunmap (s : VirtualMemoryState) (addr length : Nat) : SyscallResult :=
  match new addr with
  | none => none
  | some addr =>
    if addr.addr % 0x1000 ≠ 0 then some (.error .inval, s)
    else
      match unmap s.mappings addr length with
      | none => none
      | some (L, _) => some (.ok 0, { s with mappings := L })

/-- The result of `set_brk_end` is ignored.
syscall.rs:670-681 -/
def doBrk (s : VirtualMemoryState) (brkValue : Nat) : SyscallResult :=
  if brkValue % 0x1000 ≠ 0 then some (.error .inval, s)
  else if brkValue = 0 then some (.ok s.brkEnd.addr, s)
  else
    match new brkValue with
    | none => none
    | some brkEnd =>
      match setBrkEnd s brkEnd with
      | none => none
      | some (_, s', _) => some (.ok s'.brkEnd.addr, s')

/-- syscall.rs:1107-1124 -/
def doMadvise (s : VirtualMemoryState) (addr len : Nat) : Advice → SyscallResult
  | .dontNeed =>
    match new addr with
    | none => none
    | some addr =>
      match L2.discard s.mappings addr len with
      | none => none
      | some (.error e, L, _) => some (.error e, { s with mappings := L })
      | some (.ok (), L, _) => some (.ok 0, { s with mappings := L })
  | .free => some (.ok 0, s)

def handle (T : FileTable) (abi : Abi) (s : VirtualMemoryState) : Syscall → SyscallResult
  | .mmap addr length prot flags fd offset =>
    match ProtFlags.fromBits prot, MmapFlags.fromBits flags with
    | some prot, some flags => doMmap T abi s addr length prot flags fd offset
    | _, _ => some (.error .inval, s)
  | .mmap2 addr length prot flags fd offset =>
    match ProtFlags.fromBits prot, MmapFlags.fromBits flags with
    | some prot, some flags =>
      if offset * 4096 < 2 ^ 64 then doMmap T abi s addr length prot flags fd (offset * 4096) else none
    | _, _ => some (.error .inval, s)
  | .mprotect addr len prot =>
    match ProtFlags.fromBits prot with
    | some prot => doMprotect s addr len prot
    | none => some (.error .inval, s)
  | .munmap addr length => doMunmap s addr length
  | .brk brkValue => doBrk s brkValue
  | .madvise addr len advice =>
    match Advice.parse advice with
    | some advice => doMadvise s addr len advice
    | none => some (.error .inval, s)

/-! ## When a call is safe -/

/-- The checks passed: the place of the mapping, and for a file the end of what it maps. -/
def MmapSafe (T : FileTable) (abi : Abi) (s : VirtualMemoryState) (addr length : Nat) (flags : MmapFlags)
    (fd offset : Nat) : Prop :=
  (flags.fixed = true → Canonical addr) ∧
  ∀ b, bias abi flags addr = some b → 0 < length → length < 2 ^ 47 → b.pageOffset = 0 → offset % 0x1000 = 0 →
    (flags.anonymous = true → flags.priv = true → MmapFits s.mappings length b) ∧
    (flags.anonymous = false → ∀ file, T.get fd = .ok file → T.stat file = .ok () →
      (flags.shared = true ∨ flags.priv = true) →
      offset + length < 2 ^ 64 ∧ MmapFits s.mappings (alignUp length) b)

/-- What a call must satisfy in the state it is made in. -/
def Safe (T : FileTable) (abi : Abi) (s : VirtualMemoryState) : Syscall → Prop
  | .mmap addr length prot flags fd offset =>
    ∀ p f, ProtFlags.fromBits prot = some p → MmapFlags.fromBits flags = some f →
      MmapSafe T abi s addr length f fd offset
  | .mmap2 addr length prot flags fd offset =>
    ∀ p f, ProtFlags.fromBits prot = some p → MmapFlags.fromBits flags = some f →
      MmapSafe T abi s addr length f fd (offset * 4096)
  | .mprotect addr len prot =>
    ∀ p, ProtFlags.fromBits prot = some p → Canonical addr ∧ (0 < len → addr % 4096 = 0 → Canonical (addr + (len - 1)) ∧
        ¬ ProtectsTop s.mappings (addr / 4096) ((addr + (len - 1)) / 4096))
  | .munmap addr length => Canonical addr ∧ (addr % 4096 = 0 → 0 < length → Canonical (addr + (length - 1)))
  | .brk brkValue => brkValue % 4096 = 0 → brkValue ≠ 0 → Canonical brkValue ∧ BrkFits s brkValue
  | .madvise addr len advice =>
    Advice.parse advice = some .dontNeed → Canonical addr ∧ (addr % 4096 = 0 → Canonical (addr + len) ∧
        ((addr + len) % 4096 = 0 → addr + len < 2 ^ 47 ∨ 2 ^ 47 ≤ addr ∨ ¬ MappedToTop s.mappings (addr / 4096)))

/-- Neither `SHARED_VALIDATE` nor an anonymous `SHARED` mapping, which the source leaves for later. -/
def Supported : Syscall → Prop
  | .mmap _ _ _ flags _ _ | .mmap2 _ _ _ flags _ _ =>
    ∀ f, MmapFlags.fromBits flags = some f →
      ¬ (f.shared = true ∧ f.priv = true) ∧ ¬ (f.shared = true ∧ f.anonymous = true)
  | _ => True

/-! ## Handlers that return -/

/-- The call returns, and the address space stays well-formed. -/
def Returns (r : SyscallResult) : Prop := ∃ res s', r = some (res, s') ∧ StateOk s'

variable {T : FileTable} {abi : Abi} {s : VirtualMemoryState} {length offset fd addr brkValue : Nat}

lemma mmapFile_returns (hs : StateOk s) {b : Bias} {file : Nat} (prot : ProtFlags)
    (shared : Bool) (hlen : 0 < length) (h : offset % 0x1000 = b.pageOffset → T.stat file = .ok () →
      offset + length < 2 ^ 64 ∧ MmapFits s.mappings (alignUp length) b) :
    (∃ e, mmapFile T s.mappings b length file offset prot.permissions shared = some (.error e)) ∨
      ∃ addr L eff, mmapFile T s.mappings b length file offset prot.permissions shared =
        some (.ok (addr, L, eff)) ∧ MapsOk L := by
  unfold mmapFile mmapFileWithZeros
  by_cases hoff : offset % 0x1000 = b.pageOffset
  swap
  · exact .inl ⟨_, if_pos hoff⟩
  rw [if_neg (not_not.2 hoff)]
  cases hstat : T.stat file with
  | error e => exact .inl ⟨e, rfl⟩
  | ok u =>
    obtain ⟨hsum, hfits⟩ := h hoff hstat
    have hge := (alignUp_ge length).1
    obtain ⟨addr, L, eff, hm, hL⟩ := mmap_returns hs.maps (by omega) prot.permissions
      (.file file (offset + length) shared false) (offset / 0x1000) shared hfits
    simp only [if_pos hsum, hm]
    exact .inr ⟨addr, L, eff, rfl, hL⟩

lemma mmapFd_returns (hs : StateOk s) {b : Bias} (prot : ProtFlags) (shared : Bool) (hlen : 0 < length)
    (h : offset % 0x1000 = b.pageOffset → ∀ file, T.get fd = .ok file → T.stat file = .ok () →
      offset + length < 2 ^ 64 ∧ MmapFits s.mappings (alignUp length) b) :
    Returns (mmapFd T s b length prot fd offset shared) := by
  unfold mmapFd
  cases hget : T.get fd with
  | error e => exact ⟨_, s, rfl, hs⟩
  | ok file =>
    rcases mmapFile_returns hs prot shared hlen (fun hoff => h hoff file hget) with
      ⟨e, he⟩ | ⟨addr, L, eff, hm, hL⟩
    · simp only [he]
      exact ⟨_, s, rfl, hs⟩
    · simp only [hm]
      exact ⟨_, _, rfl, hL, hs.brkLow⟩

section

variable (hs : StateOk s)

include hs

lemma doMmap_returns (prot : ProtFlags) {flags : MmapFlags} (hf : ¬ (flags.shared ∧ flags.priv) ∧
      ¬ (flags.shared ∧ flags.anonymous)) (h : MmapSafe T abi s addr length flags fd offset) :
    Returns (doMmap T abi s addr length prot flags fd offset) := by
  obtain ⟨hcan, hplace⟩ := h
  obtain ⟨b, hb⟩ : ∃ b, bias abi flags addr = some b := by
    unfold bias
    by_cases hfix : flags.fixed
    · rw [if_pos hfix, new, dif_pos (hcan hfix)]
      exact ⟨_, rfl⟩
    · exact ⟨_, if_neg hfix⟩
  unfold doMmap
  rw [hb]
  simp only
  by_cases hlen : length = 0
  · rw [if_pos hlen]
    exact ⟨_, s, rfl, hs⟩
  rw [if_neg hlen]
  by_cases hlt : length < 2 ^ 47
  swap
  · rw [if_pos hlt]
    exact ⟨_, s, rfl, hs⟩
  rw [if_neg (not_not.2 hlt)]
  by_cases han : flags.anonymous ∧ offset % 0x1000 ≠ 0
  · rw [if_pos han]
    exact ⟨_, s, rfl, hs⟩
  rw [if_neg han]
  by_cases hal : b.pageOffset = 0
  swap
  · rw [if_pos hal]
    exact ⟨_, s, rfl, hs⟩
  rw [if_neg (not_not.2 hal), if_neg hf.1]
  replace hplace := hplace b hb (by omega) hlt hal
  -- the branches for a file, shared or private
  have hfile : flags.anonymous = false → flags.shared ∨ flags.priv → ∀ shared,
      Returns (mmapFd T s b length prot fd offset shared) := by
    intro hanon hkind shared
    apply mmapFd_returns hs prot shared (by omega)
    intro hoff file hget hstat
    exact (hplace (hoff.trans hal)).2 hanon file hget hstat hkind
  by_cases hsh : flags.shared
  · have hanon : ¬ flags.anonymous = true := fun h => hf.2 ⟨hsh, h⟩
    rw [if_pos hsh, if_neg hanon]
    exact hfile (by simpa using hanon) (.inl hsh) true
  rw [if_neg hsh]
  by_cases hpr : flags.priv
  swap
  · rw [if_neg hpr]
    exact ⟨_, s, rfl, hs⟩
  rw [if_pos hpr]
  by_cases hanon : flags.anonymous
  · have hoff : offset % 0x1000 = 0 := by
      by_contra hoff
      exact han ⟨hanon, hoff⟩
    obtain ⟨a, L, eff, hm, hL⟩ := mmap_returns hs.maps (by omega) prot.permissions .zero 0 false
      ((hplace hoff).1 hanon hpr)
    rw [if_pos hanon]
    simp only [mmapZero, hm]
    exact ⟨_, _, rfl, hL, hs.brkLow⟩
  · rw [if_neg hanon]
    exact hfile (by simpa using hanon) (.inr hpr) false

lemma doMprotect_returns {len : Nat} (prot : ProtFlags) (hcan : Canonical addr)
    (h : 0 < len → addr % 4096 = 0 → Canonical (addr + (len - 1)) ∧
      ¬ ProtectsTop s.mappings (addr / 4096) ((addr + (len - 1)) / 4096)) : Returns (doMprotect s addr len prot) := by
  obtain ⟨⟨r, L, eff⟩, hp⟩ := mprotect_returns hs.maps ⟨addr, hcan⟩ prot.permissions h
  have hL := mprotect_mapsOk hs.maps hp
  unfold doMprotect
  rw [new, dif_pos hcan]
  simp only [hp]
  cases r with
  | error e | ok u => exact ⟨_, _, rfl, hL, hs.brkLow⟩

lemma doMunmap_returns (hcan : Canonical addr)
    (h : addr % 4096 = 0 → 0 < length → Canonical (addr + (length - 1))) : Returns (doMunmap s addr length) := by
  unfold doMunmap
  rw [new, dif_pos hcan]
  simp only
  by_cases hal : addr % 0x1000 = 0
  · obtain ⟨⟨L, eff⟩, hun⟩ := unmap_returns hs.maps ⟨addr, hcan⟩ length (h hal)
    rw [if_neg (not_not.2 hal)]
    simp only [hun]
    exact ⟨_, _, rfl, unmap_mapsOk hs.maps hun, hs.brkLow⟩
  · rw [if_pos hal]
    exact ⟨_, s, rfl, hs⟩

lemma doBrk_returns (h : brkValue % 4096 = 0 → brkValue ≠ 0 → Canonical brkValue ∧ BrkFits s brkValue) :
    Returns (doBrk s brkValue) := by
  unfold doBrk
  by_cases hal : brkValue % 0x1000 = 0
  swap
  · rw [if_pos hal]
    exact ⟨_, s, rfl, hs⟩
  rw [if_neg (not_not.2 hal)]
  by_cases h0 : brkValue = 0
  · rw [if_pos h0]
    exact ⟨_, s, rfl, hs⟩
  obtain ⟨hcan, hfits⟩ := h hal h0
  have hb : BrkFits s (mk brkValue hcan).addr := hfits
  obtain ⟨r, s', eff, hset, hs'⟩ := setBrkEnd_returns hs hb
  rw [if_neg h0, new, dif_pos hcan]
  simp only [hset]
  exact ⟨_, s', rfl, hs'⟩

lemma doMadvise_returns {len : Nat} (advice : Advice)
    (h : advice = .dontNeed → Canonical addr ∧ (addr % 4096 = 0 → Canonical (addr + len) ∧
      ((addr + len) % 4096 = 0 → addr + len < 2 ^ 47 ∨ 2 ^ 47 ≤ addr ∨ ¬ MappedToTop s.mappings (addr / 4096)))) :
    Returns (doMadvise s addr len advice) := by
  cases advice with
  | free => exact ⟨_, s, rfl, hs⟩
  | dontNeed =>
    obtain ⟨hcan, hrange⟩ := h rfl
    obtain ⟨⟨r, L, eff⟩, hd⟩ := discard_returns hs.maps ⟨addr, hcan⟩ hrange
    have hL := discard_mapsOk hs.maps hd
    unfold doMadvise
    rw [new, dif_pos hcan]
    simp only [hd]
    cases r with
    | error e | ok u => exact ⟨_, _, rfl, hL, hs.brkLow⟩

end

/-- The page offset of `mmap2` fits: its argument comes from half a register. -/
lemma mmap2_offset_lt {prot flags : Nat}
    (h : Passable abi (.mmap2 addr length prot flags fd offset)) : offset < 2 ^ 32 := by
  obtain ⟨no, registers, h⟩ := h
  unfold decode at h
  simp only at h
  split at h <;> cases h
  exact Nat.mod_lt _ (by decide)

/-- A safe call returns, and keeps the address space well-formed. -/
lemma handle_returns (hs : StateOk s) {call : Syscall} (hp : call.Passable abi) (hf : call.Supported)
    (h : call.Safe T abi s) : Returns (handle T abi s call) := by
  have hinval : Returns (some (.error .inval, s)) := ⟨_, s, rfl, hs⟩
  cases call with
  | mmap addr length prot flags fd offset =>
    simp only [handle]
    split
    · rename_i p f hprot hflags
      exact doMmap_returns hs p (hf f hflags) (h p f hprot hflags)
    · exact hinval
  | mmap2 addr length prot flags fd offset =>
    have hoff := mmap2_offset_lt hp
    simp only [handle]
    split
    · rename_i p f hprot hflags
      rw [if_pos (by omega)]
      exact doMmap_returns hs p (hf f hflags) (h p f hprot hflags)
    · exact hinval
  | mprotect addr len prot =>
    simp only [handle]
    split
    · rename_i p hprot
      exact doMprotect_returns hs p (h p hprot).1 (h p hprot).2
    · exact hinval
  | munmap addr length => exact doMunmap_returns hs h.1 h.2
  | brk brkValue => exact doBrk_returns hs h
  | madvise addr len advice =>
    simp only [handle]
    split
    · rename_i a hadv
      apply doMadvise_returns hs a
      intro ha
      exact h (ha ▸ hadv)
    · exact hinval

/-! ## Runs -/

/-- The files a process has at that time, the way it enters the kernel, and its result. -/
structure Call where
  files : FileTable
  abi : Abi
  call : Syscall
  result : Except Errno Nat

/-- The runs from any address space in the lower half in which every call is safe. -/
def system : LTS VirtualMemoryState Call where
  init := StateOk
  step s l s' := l.call.Passable l.abi ∧ l.call.Supported ∧ l.call.Safe l.files l.abi s ∧
    l.call.handle l.files l.abi s = some (l.result, s')

lemma reachable_ok (h : system.Reachable s) : StateOk s := by
  refine LTS.Inductive.reachable ⟨fun _ h => h, ?_⟩ s h
  rintro s ⟨T, abi, call, res⟩ s' hs ⟨hp, hf, hsafe, hstep⟩
  obtain ⟨res', s1, hr, hok⟩ := handle_returns hs hp hf hsafe
  cases hr.symm.trans hstep
  exact hok

/-- **No panic, and the lower half only.** In every state reached by safe calls all mappings lie in the lower half,
and every safe call returns, with a result or an error code and all mappings in the lower half again. -/
theorem memory_syscalls_return (h : system.Reachable s) : (∀ x ∈ s.mappings, x.1 + x.2.len ≤ 2 ^ 35) ∧
      ∀ (T : FileTable) (abi : Abi) (call : Syscall), call.Passable abi → call.Supported → call.Safe T abi s →
        ∃ res s', call.handle T abi s = some (res, s') ∧ ∀ x ∈ s'.mappings, x.1 + x.2.len ≤ 2 ^ 35 := by
  have hs := reachable_ok h
  refine ⟨hs.maps.lower, fun T abi call hp hf hsafe => ?_⟩
  obtain ⟨res, s', hr, hok⟩ := handle_returns hs hp hf hsafe
  exact ⟨res, s', hr, hok.maps.lower⟩

def noFiles : FileTable := ⟨fun _ => .error .inval, fun _ => .error .inval⟩

/-- An anonymous mapping at a fixed address, then `munmap` of it. -/
theorem memory_syscalls_return_munmap : ∃ s, system.Reachable s ∧ s.mappings.length = 1 ∧
      (∀ x ∈ s.mappings, x.1 + x.2.len ≤ 2 ^ 35) ∧
      ∃ res s', (Syscall.munmap 0x10000 0x1000).handle noFiles .amd64 s = some (res, s') ∧
        ∀ x ∈ s'.mappings, x.1 + x.2.len ≤ 2 ^ 35 := by
  have hstep : system.step .new
      ⟨noFiles, .amd64, .mmap 0x10000 0x2000 3 0x32 0 0, .ok 0x10000⟩
      ⟨[(0x10, ⟨.zero, 0, ⟨false, true, true⟩, false, [none, none]⟩)], .zero⟩ := by
    refine ⟨⟨9, ![0x10000, 0x2000, 3, 0x32, 0, 0], rfl⟩, ?_, ?_, rfl⟩
    · intro f hf
      cases hf
      decide
    intro p f hp hf
    cases hf
    refine ⟨fun _ => .inl (by decide), ?_⟩
    intro b hb hlen hlt hal hoff
    have hb' : b = .fixed ⟨0x10000, .inl (by decide)⟩ := (Option.some.inj hb).symm
    subst hb'
    exact ⟨fun _ _ => ⟨by decide, by decide, by decide⟩, fun hanon => absurd hanon (by decide)⟩
  have hr : system.Reachable ⟨[(0x10, ⟨.zero, 0, ⟨false, true, true⟩, false, [none, none]⟩)], .zero⟩ :=
    ⟨.new, _, ⟨mapsOk_nil, by decide⟩, .cons hstep (.nil _)⟩
  obtain ⟨hlow, hcalls⟩ := memory_syscalls_return hr
  refine ⟨_, hr, rfl, hlow, ?_⟩
  apply hcalls noFiles .amd64
  · exact ⟨11, ![0x10000, 0x1000, 0, 0, 0, 0], rfl⟩
  · trivial
  · exact ⟨.inl (by decide), fun _ _ => .inl (by decide)⟩

/-- In a new address space these panic: `munmap` of an address that is not canonical; a fixed mapping of the
last page of the lower half; a range that ends between the halves; a dynamic mapping larger than the room
below the base; a brk value that is not canonical. And a fixed mapping returns and lies in the upper half. -/
theorem memory_syscalls_counterexample : (∃ call, decode .amd64 11 ![0x800000000000, 0, 0, 0, 0, 0] = some call ∧
      call.handle noFiles .amd64 .new = none) ∧
    (∃ call, decode .amd64 9 ![0x7ffffffff000, 0x1000, 3, 0x32, 0, 0] = some call ∧
      call.handle noFiles .amd64 .new = none) ∧
    (∃ call, decode .amd64 10 ![0x1000, 0x800000000000, 1, 0, 0, 0] = some call ∧
      call.handle noFiles .amd64 .new = none) ∧
    (∃ call, decode .amd64 9 ![0, 0x7fff00000000, 3, 0x22, 0, 0] = some call ∧ call.handle noFiles .amd64 .new = none) ∧
    (∃ call, decode .amd64 12 ![0x800000000000, 0, 0, 0, 0, 0] = some call ∧ call.handle noFiles .amd64 .new = none) ∧
    (∃ call s', decode .amd64 9 ![0xffff800000000000, 0x1000, 3, 0x32, 0, 0] = some call ∧
      call.handle noFiles .amd64 .new = some (.ok 0xffff800000000000, s') ∧ ∃ x ∈ s'.mappings, 2 ^ 35 ≤ x.1) := by
  refine ⟨⟨_, rfl, by rfl⟩, ⟨_, rfl, by rfl⟩, ⟨_, rfl, by rfl⟩, ⟨_, rfl, by rfl⟩, ⟨_, rfl, by rfl⟩, ?_⟩
  exact ⟨_, _, rfl, rfl, _, List.mem_cons_self .., by decide⟩

end Syscall

end Mushroom.L2
