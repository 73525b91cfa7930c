import Mushroom.L2Memory.Syscall
import Mushroom.L5Files.FdTable

/-!
# What a system call returns

The values -4095 to -1 of `rax` stand for errors, and `set_syscall_result`
refuses a successful result among them
(`kernel/user/process/syscall/cpu_state.rs:189-204`); the caller unwraps, so that
such a result stops the kernel.

`mmap`, `brk`, `dup`, `dup2` and `fcntl` never return one. `lseek` returns any
position it is asked for and `dup3` any number: their results are apart from
the errors exactly if `Apart` says so of what they are asked for.
-/
namespace Mushroom.L6
open Option
open BitVec (ofNat ofInt toInt_lt)

open L1 L5 L2.Syscall

/-! ## Storing a result -/

/-- kernel/error.rs:71-103 -/
def code : ErrorKind → Nat
  | .perm => 1
  | .noEnt => 2
  | .srch => 3
  | .intr => 4
  | .xIo => 6
  | .noExec => 8
  | .badF => 9
  | .child => 10
  | .again => 11
  | .noMem => 12
  | .acces => 13
  | .fault => 14
  | .busy => 16
  | .exist => 17
  | .xDev => 18
  | .noDev => 19
  | .notDir => 20
  | .isDir => 21
  | .inval => 22
  | .mfile => 24
  | .noTty => 25
  | .sPipe => 29
  | .pipe => 32
  | .range => 34
  | .noSys => 38
  | .notEmpty => 39
  | .loop => 40
  | .nameTooLong => 78
  | .opNotSupp => 95
  | .timedOut => 110
  | .restartNoIntr => 512

def IsError (v : BitVec 64) : Prop := -4095 ≤ v.toInt ∧ v.toInt ≤ -1

instance (v : BitVec 64) : Decidable (IsError v) := inferInstanceAs (Decidable (_ ∧ _))

/-- What storing a result reads and writes. -/
structure Cpu where
  ignoreSyscallResult : Bool
  rax : BitVec 64
  deriving DecidableEq

/-- cpu_state.rs:189-204 -/
def Cpu.setSyscallResult (c : Cpu) (result : Except ErrorKind (BitVec 64)) : Except ErrorKind Unit × Cpu :=
  if c.ignoreSyscallResult then (.ok (), { c with ignoreSyscallResult := false })
  else
    match result with
    | .ok v => if IsError v then (.error .inval, c) else (.ok (), { c with rax := v })
    | .error e => (.ok (), { c with rax := -ofNat 64 (code e) })

/-- The result is stored and the outcome unwrapped; `none` is the panic.
kernel/user/process/syscall.rs:69-73 -/
def Cpu.executeSyscall (c : Cpu) (result : Except ErrorKind (BitVec 64)) : Option Cpu :=
  match c.setSyscallResult result with
  | (.ok (), c) => some c
  | (.error _, _) => none

lemma Cpu.executeSyscall_isSome {result : Except ErrorKind (BitVec 64)} (h : ∀ v, result = .ok v → ¬IsError v)
    (c : Cpu) : (c.executeSyscall result).isSome := by
  unfold executeSyscall setSyscallResult
  by_cases hi : c.ignoreSyscallResult
  · rw [if_pos hi]
    rfl
  rw [if_neg hi]
  cases result with
  | error e => rfl
  | ok v =>
    have hv := h v rfl
    simp only [if_neg hv]
    rfl

variable {v : BitVec 64} {n : Int} {limit oldfd newfd : BitVec 32} {α : Type} {cloexec : Bool} {L : L2.Mappings}

lemma isError_iff : IsError v ↔ 2 ^ 64 - 4095 ≤ v.toNat := by
  rw [IsError, BitVec.toInt_eq_toNat_cond]
  split <;> omega

/-- A number below 2^64 that is the number of a page or not among the last. -/
lemma not_isError_ofNat {n : Nat} (hlt : n < 2 ^ 64) (h : n % 4096 = 0 ∨ n < 2 ^ 64 - 4095) :
    ¬IsError (ofNat 64 n) := by
  rw [isError_iff, BitVec.toNat_ofNat, Nat.mod_eq_of_lt hlt]
  omega

lemma not_isError_ofInt (h0 : 0 ≤ n) (hlt : n < 2 ^ 64 - 4095) : ¬IsError (ofInt 64 n) := by
  obtain ⟨m, rfl⟩ := Int.eq_ofNat_of_zero_le h0
  rw [BitVec.ofInt_natCast]
  exact not_isError_ofNat (by omega) (.inr (by omega))

/-! ## Positions in a file -/

/-- kernel/user/process/syscall/args.rs:394-402 -/
inductive Whence where
  | set | cur | end' | data | hole
  deriving DecidableEq

/-- The descriptions that know a position, and the others. -/
inductive FdKind where
  | readonly | writeonly | readWrite | other
  deriving DecidableEq

/-- `size` is the field of what `stat` returns, an `i64`. -/
structure FileDescription where
  kind : FdKind
  cursorIdx : BitVec 64
  size : Except ErrorKind (BitVec 64)

def checkedAddSigned (a d : BitVec 64) : Option (BitVec 64) :=
  if 0 ≤ (a.toNat : Int) + d.toInt ∧ (a.toNat : Int) + d.toInt < 2 ^ 64 then
    some (ofInt 64 (a.toNat + d.toInt))
  else none

namespace FileDescription

/-- `*guard = position; Ok(*guard)` -/
def moveTo (f : FileDescription) (position : BitVec 64) : Except ErrorKind (BitVec 64) × FileDescription :=
  (.ok position, { f with cursorIdx := position })

/-- `base.checked_add_signed(offset).ok_or(err!(Inval))?` -/
def moveBy (f : FileDescription) (base offset : BitVec 64) : Except ErrorKind (BitVec 64) × FileDescription :=
  match checkedAddSigned base offset with
  | some position => f.moveTo position
  | none => (.error .inval, f)

/-- `usize::try_from(self.file.stat()?.size)?` -/
def sizeUsize (f : FileDescription) : Except ErrorKind (BitVec 64) :=
  f.size.bind fun size => if size.toInt < 0 then .error .inval else .ok size

/-- Only read-only descriptions know `Data` and `Hole`; `none` is the todo of the others.
kernel/fs/fd.rs:393-397, kernel/fs/fd/file.rs:179-212,305-325,518-538 -/
def seek (f : FileDescription) (offset : BitVec 64) (whence : Whence) :
    Option (Except ErrorKind (BitVec 64) × FileDescription) :=
  if f.kind = .other then some (.error .sPipe, f)
  else
    match whence with
    | .set => some (f.moveTo offset)
    | .cur => some (f.moveBy f.cursorIdx offset)
    | .end' =>
      match f.sizeUsize with
      | .error e => some (.error e, f)
      | .ok size => some (f.moveBy size offset)
    | .data =>
      if f.kind = .readonly then
        match f.size with
        | .error e => some (.error e, f)
        -- `size as usize`
        | .ok size => some (if offset.toNat < size.toNat then f.moveTo offset else (.error .xIo, f))
      else none
    | .hole =>
      if f.kind = .readonly then
        match f.sizeUsize with
        | .error e => some (.error e, f)
        | .ok size => some (if offset.toNat < size.toNat then f.moveTo size else (.error .xIo, f))
      else none

/-- The position that a seek goes to unless it is out of range; a hole is the end of the file. -/
def asked (f : FileDescription) (offset : BitVec 64) (whence : Whence) : Option Int :=
  if f.kind = .other then none
  else
    match whence with
    | .set => some offset.toNat
    | .cur => some (f.cursorIdx.toNat + offset.toInt)
    | .end' => f.sizeUsize.toOption.map fun size => size.toNat + offset.toInt
    | .data => (f.size.toOption.filter fun size => offset.toNat < size.toNat).map fun _ => offset.toNat
    | .hole => none

end FileDescription

/-- The position is none of the last 4095. -/
def Below (position : Int) : Prop := ¬(2 ^ 64 - 4095 ≤ position ∧ position < 2 ^ 64)

variable {f f' : FileDescription} {whence : Whence}

/-- A result is none of the errors. -/
def Plain (r : Except ErrorKind (BitVec 64)) : Prop := ∀ v, r = .ok v → ¬IsError v

@[simp] lemma plain_error {e : ErrorKind} : Plain (.error e) := nofun

@[simp] lemma plain_ok : Plain (.ok v) ↔ ¬IsError v :=
  ⟨fun h => h v rfl, fun h w hw => by cases hw; exact h⟩

lemma not_isError_iff : ¬IsError v ↔ Below v.toNat := by
  rw [isError_iff, Below]
  omega

lemma plain_moveBy (f : FileDescription) (base offset : BitVec 64) :
    Plain (f.moveBy base offset).1 ↔ Below (base.toNat + offset.toInt) := by
  unfold FileDescription.moveBy checkedAddSigned
  split_ifs with hrange
  · obtain ⟨n, hn⟩ := Int.eq_ofNat_of_zero_le hrange.1
    have hlt : n < 2 ^ 64 := by omega
    simp only [FileDescription.moveTo]
    rw [plain_ok, not_isError_iff, hn, BitVec.ofInt_natCast, BitVec.toNat_ofNat, Nat.mod_eq_of_lt hlt]
  · simp only [plain_error, Below, true_iff]
    omega

lemma sizeUsize_ok {size : BitVec 64} (h : f.sizeUsize = .ok size) : f.size = .ok size ∧ size.toNat < 2 ^ 63 := by
  unfold FileDescription.sizeUsize at h
  cases hs : f.size with
  | error e =>
    rw [hs] at h
    cases h
  | ok size' =>
    rw [hs, Except.bind] at h
    split at h
    · cases h
    rename_i hneg
    cases h
    rw [BitVec.toInt_eq_toNat_cond] at hneg
    refine ⟨rfl, ?_⟩
    split at hneg <;> omega

lemma seek_plain {offset : BitVec 64} {r : Except ErrorKind (BitVec 64)} (h : f.seek offset whence = some (r, f')) :
    Plain r ↔ ∀ position, f.asked offset whence = some position → Below position := by
  unfold FileDescription.seek at h
  unfold FileDescription.asked
  split at h
  · cases h
    simp [*]
  rename_i hkind
  simp only [hkind, if_false]
  cases whence with
  | set =>
    obtain ⟨rfl, rfl⟩ := Prod.mk.inj (Option.some.inj h)
    simpa using not_isError_iff
  | cur =>
    have := plain_moveBy f f.cursorIdx offset
    rw [Option.some.inj h] at this
    simpa using this
  | end' =>
    simp only at h
    split at h
    · rename_i e hsize
      cases h
      simp [hsize, Except.toOption]
    rename_i size hsize
    have := plain_moveBy f size offset
    rw [Option.some.inj h] at this
    simpa [hsize, Except.toOption] using this
  | data =>
    simp only at h
    split at h
    · split at h
      · rename_i e hsize
        cases h
        simp [hsize, Except.toOption]
      rename_i size hsize
      split at h
      · rename_i hlt
        obtain ⟨rfl, rfl⟩ := Prod.mk.inj (Option.some.inj h)
        simpa [hsize, Except.toOption, Option.filter, hlt] using not_isError_iff
      · rename_i hlt
        cases h
        simp [hsize, Except.toOption, Option.filter, hlt]
    · cases h
  | hole =>
    simp only at h
    split at h
    · split at h
      · cases h
        simp
      rename_i size hsize
      have hlt := (sizeUsize_ok hsize).2
      split at h
      · cases h
        rw [plain_ok, isError_iff]
        simp only [reduceCtorEq, false_implies, implies_true, iff_true]
        omega
      · cases h
        simp
    · cases h

/-! ## Descriptors -/

lemma zipFind_ge {limit counter next : Int} {fds : List Int} {r : Option Int}
    (h : FdTable.zipFind limit counter fds = (r, next)) :
    (∀ n, r = some n → counter ≤ n ∧ n < limit) ∧ (r = none → counter ≤ next) := by
  induction fds generalizing counter with
  | nil =>
    cases h
    exact ⟨nofun, fun _ => Int.le_refl _⟩
  | cons fd fds ih =>
    unfold FdTable.zipFind at h
    grind

lemma insertAfter_ok {t t' : FdTable α} {min : BitVec 32} {e : FdEntry α}
    (h : t.insertAfter min e limit = (.ok n, t')) : 0 ≤ n ∧ n < 2 ^ 31 := by
  have hlimit : limit.toInt < 2 ^ 31 := by
    have := toInt_lt (x := limit)
    simpa using this
  unfold FdTable.insertAfter at h
  cases hf : t.findFreeFdNum min limit with
  | error err =>
    rw [hf] at h
    cases h
  | ok m =>
    rw [hf] at h
    cases h
    unfold FdTable.findFreeFdNum at hf
    split at hf
    · split at hf
      · rename_i counter next hz
        cases hf
        have := (zipFind_ge hz).1 _ rfl
        omega
      rename_i counter hz
      split at hf
      · cases hf
        have := (zipFind_ge hz).2 rfl
        omega
      · cases hf
    · cases hf

lemma dup_ok {t t' : FdTable α} {fildes : BitVec 32} (h : t.dup fildes limit = (.ok n, t')) : 0 ≤ n ∧ n < 2 ^ 31 := by
  unfold FdTable.dup at h
  split at h
  · cases h
  · exact insertAfter_ok h

lemma dup2_ok {t t' : FdTable α} (h : t.dup2 oldfd newfd limit = (.ok n, t')) : n = newfd.toInt ∧ 0 ≤ n := by
  unfold FdTable.dup2 at h
  grind

/-! ## Addresses -/

lemma findLoop_aligned {size last r : Nat} {below : L2.Mappings} (h : L2.findLoop size below last = some r)
    (hlast : last % 4096 = 0) : r % 4096 = 0 := by
  induction below generalizing last with
  | nil =>
    cases h
    exact hlast
  | cons x below ih =>
    obtain ⟨page, m⟩ := x
    unfold L2.findLoop at h
    grind

lemma findFreeAddress_aligned {size : Nat} {abi : L2.Abi} {addr : L2.VirtAddr}
    (h : L2.findFreeAddress L size abi = some addr) : addr.addr % 4096 = 0 := by
  have hbase : abi.dynamicBaseAddress % 4096 = 0 := by cases abi <;> rfl
  unfold L2.findFreeAddress at h
  split at h
  · cases h
  simp only at h
  split at h
  · cases h
  rename_i last hlast
  have hal := findLoop_aligned hlast hbase
  split at h
  · obtain ⟨a, ha, hadd⟩ := bind_eq_some_iff.1 h
    rw [L2.VirtAddr.add_eq_some.1 hadd, L2.VirtAddr.new_eq_some.1 ha, L2.alignUp]
    omega
  · cases h

lemma mmap_aligned {L' : L2.Mappings} {bias : L2.Bias} {len : Nat} {permissions : L2.MemoryPermissions}
    {backing : L2.Backing} {pageOffset : Nat} {shared : Bool} {addr : L2.VirtAddr} {eff : L2.Effect}
    (h : L2.mmap L bias len permissions backing pageOffset shared = some (addr, L', eff))
    (hb : bias.pageOffset = 0) : addr.addr % 4096 = 0 := by
  obtain ⟨-, hbias, -⟩ := L2.mmap_eq_some h
  rcases hbias with rfl | ⟨abi, rfl, hfree⟩
  · exact hb
  · exact findFreeAddress_aligned hfree

/-! ## The calls -/

/-- A process: its descriptors, the descriptions they stand for, its memory. -/
structure Proc where
  fds : FdTable Nat
  files : Nat → FileDescription
  vm : L2.VirtualMemoryState

inductive ValueCall where
  | lseek (fd : BitVec 32) (offset : BitVec 64) (whence : Whence)
  | dup (fildes limit : BitVec 32)
  | dup2 (oldfd newfd limit : BitVec 32)
  | dup3 (oldfd newfd : BitVec 32) (cloexec : Bool) (limit : BitVec 32)
  /-- `DupFd` and `DupFdCloExec` -/
  | fcntlDup (fd : BitVec 32) (arg : BitVec 64) (cloexec : Bool) (limit : BitVec 32)
  /-- `mmap`, `brk` and the others -/
  | memory (files : L2.FileTable) (abi : L2.Abi) (call : L2.Syscall)

def errorKind : L2.Errno → ErrorKind
  | .acces => .acces
  | .again => .again
  | .fault => .fault
  | .inval => .inval
  | .noMem => .noMem

/-- `Ok(newfd.get() as u64)`, an `i32` with its sign extended. -/
def Proc.storeFds (p : Proc) : Except ErrorKind Int × FdTable Nat → Except ErrorKind (BitVec 64) × Proc
  | (r, fds) => (r.map (ofInt 64), { p with fds := fds })

/-- syscall.rs:544-557 -/
def Proc.lseek (p : Proc) (fd : BitVec 32) (offset : BitVec 64) (whence : Whence) :
    Option (Except ErrorKind (BitVec 64) × Proc) :=
  match p.fds.get fd with
  | .error e => some (.error e, p)
  | .ok entry =>
    ((p.files entry.fd).seek offset whence).map fun x =>
      (x.1, { p with files := fun i => if i = entry.fd then x.2 else p.files i })

/-- `i32::try_from(arg)`; the result of `try_into` is the number itself.
syscall.rs:1776-1785,1818-1827 -/
def Proc.fcntlDup (p : Proc) (fd : BitVec 32) (arg : BitVec 64) (cloexec : Bool) (limit : BitVec 32) :
    Except ErrorKind (BitVec 64) × Proc :=
  match p.fds.get fd with
  | .error e => (.error e, p)
  | .ok entry =>
    if arg.toNat < 2 ^ 31 then
      match p.fds.insertAfter (arg.setWidth 32) ⟨entry.fd, cloexec⟩ limit with
      | (.error e, fds) => (.error e, { p with fds := fds })
      | (.ok n, fds) => (if 0 ≤ n then .ok (ofInt 64 n) else .error .inval, { p with fds := fds })
    else (.error .inval, p)

/-- The result of a handler and the process it leaves; `none` is a panic. -/
def ValueCall.handle (p : Proc) : ValueCall → Option (Except ErrorKind (BitVec 64) × Proc)
  | lseek fd offset whence => p.lseek fd offset whence
  | dup fildes limit => some (p.storeFds (p.fds.dup fildes limit))
  | dup2 oldfd newfd limit => some (p.storeFds (p.fds.dup2 oldfd newfd limit))
  | dup3 oldfd newfd cloexec limit => some (p.storeFds (p.fds.dup3 oldfd newfd cloexec limit))
  | fcntlDup fd arg cloexec limit => some (p.fcntlDup fd arg cloexec limit)
  | memory files abi call =>
    (call.handle files abi p.vm).map fun x => ((x.1.mapError errorKind).map (ofNat 64), { p with vm := x.2 })

/-- A position that is none of the last 4095, a number for an open descriptor that is none of -4095 to -1. -/
def Apart (p : Proc) : ValueCall → Prop
  | .lseek fd offset whence =>
    ∀ entry position, p.fds.get fd = .ok entry → (p.files entry.fd).asked offset whence = some position →
      Below position
  | .dup3 oldfd newfd _ limit =>
    ∀ entry, p.fds.get oldfd = .ok entry → oldfd ≠ newfd → newfd.toInt < limit.toInt →
      ¬(-4095 ≤ newfd.toInt ∧ newfd.toInt ≤ -1)
  | _ => True

/-- In between everything else may change; the end of the brk area only by `execve`, which aligns it.
kernel/user/process/exec.rs:119-120 -/
def valueCalls : LTS Proc (Option ValueCall) where
  init p := p.vm.brkEnd.addr % 4096 = 0
  step p l p' :=
    match l with
    | some call => ∃ r, call.handle p = some (r, p')
    | none => p'.vm.brkEnd = p.vm.brkEnd ∨ ∃ stop, p'.vm.brkEnd.addr = L2.alignUp stop

/-! ## Results and errors are apart -/

variable {p p' : Proc} {fd : BitVec 32}

lemma storeFds_ok {x : Except ErrorKind Int × FdTable Nat}
    (h : p.storeFds x = (.ok v, p')) : ∃ n, x.1 = .ok n ∧ v = ofInt 64 n := by
  obtain ⟨r, fds⟩ := x
  cases r with
  | error e => cases h
  | ok n =>
    cases h
    exact ⟨n, rfl, rfl⟩

/-- A number of 32 bits is an error if it is one with 64 bits. -/
lemma isError_toInt {b : BitVec 32} : IsError (ofInt 64 b.toInt) ↔ -4095 ≤ b.toInt ∧ b.toInt ≤ -1 := by
  have hlo := BitVec.le_toInt b
  have hhi := toInt_lt (x := b)
  rw [IsError, BitVec.toInt_ofInt_eq_self (by decide) (by omega) (by omega)]

lemma lseek_plain {offset : BitVec 64} {r : Except ErrorKind (BitVec 64)}
    (h : p.lseek fd offset whence = some (r, p')) : Plain r ↔ Apart p (.lseek fd offset whence) := by
  unfold Proc.lseek at h
  cases hget : p.fds.get fd with
  | error e =>
    rw [hget] at h
    cases h
    simp [Apart, hget]
  | ok entry =>
    rw [hget] at h
    obtain ⟨x, hseek, hx⟩ := map_eq_some_iff.1 h
    obtain ⟨r, f⟩ := x
    cases hx
    rw [seek_plain hseek]
    refine ⟨fun hb entry' position he => ?_, fun hb position => hb entry position hget⟩
    cases hget.symm.trans he
    exact hb position

lemma dup3_plain (p : Proc) (oldfd newfd : BitVec 32) (cloexec : Bool) (limit : BitVec 32) :
    Plain (p.storeFds (p.fds.dup3 oldfd newfd cloexec limit)).1 ↔ Apart p (.dup3 oldfd newfd cloexec limit) := by
  unfold FdTable.dup3 FdTable.replace
  by_cases hne : oldfd = newfd
  · simp [Apart, hne, Proc.storeFds, Except.map]
  cases hget : p.fds.get oldfd with
  | error e => simp [Apart, hne, hget, Proc.storeFds, Except.map]
  | ok entry =>
    by_cases hlt : newfd.toInt < limit.toInt
    · simp [Apart, hne, hget, hlt, Proc.storeFds, Except.map, isError_toInt]
    · simp [Apart, hne, hget, hlt, Proc.storeFds, Except.map]

lemma fcntlDup_ok {arg : BitVec 64} (h : p.fcntlDup fd arg cloexec limit = (.ok v, p')) : ¬IsError v := by
  unfold Proc.fcntlDup at h
  grind [insertAfter_ok, not_isError_ofInt]

/-- The address of a page, or an error; the brk area ends at a page. -/
structure OnPages (x : Except L2.Errno Nat × L2.VirtualMemoryState) : Prop where
  brkEnd : x.2.brkEnd.addr % 4096 = 0
  value : ∀ v, x.1 = .ok v → v % 4096 = 0 ∧ v < 2 ^ 64

section

variable {T : L2.FileTable} {abi : L2.Abi} {s : L2.VirtualMemoryState}
  {x : Except L2.Errno Nat × L2.VirtualMemoryState} {length brkValue : Nat} {prot : L2.ProtFlags}

lemma OnPages.error {e : L2.Errno} (h : s.brkEnd.addr % 4096 = 0) : OnPages (.error e, s) := ⟨h, nofun⟩

lemma OnPages.zero (h : s.brkEnd.addr % 4096 = 0) : OnPages (.ok 0, s) := ⟨h, fun v hv => by cases hv; decide⟩

lemma OnPages.addr (h : s.brkEnd.addr % 4096 = 0) {a : L2.VirtAddr} (ha : a.addr % 4096 = 0) :
    OnPages (.ok a.addr, s) := by
  refine ⟨h, fun v hv => ?_⟩
  cases hv
  have := a.canonical
  unfold L2.Canonical at this
  exact ⟨ha, by omega⟩

section

variable (hs : s.brkEnd.addr % 4096 = 0)

include hs

lemma mmapFd_onPages {bias : L2.Bias} {fd offset : Nat} {shared : Bool} (hb : bias.pageOffset = 0)
    (h : mmapFd T s bias length prot fd offset shared = some x) : OnPages x := by
  unfold mmapFd at h
  split at h
  · cases h
    exact .error hs
  split at h
  · cases h
  · cases h
    exact .error hs
  rename_i a L eff hmap
  cases h
  unfold L2.mmapFile L2.mmapFileWithZeros at hmap
  split at hmap
  · cases hmap
  split at hmap
  · cases hmap
  split at hmap
  · obtain ⟨y, hy, hya⟩ := map_eq_some_iff.1 hmap
    cases hya
    refine OnPages.addr ?_ (mmap_aligned hy hb)
    exact hs
  · cases hmap

lemma doMmap_onPages {addr fd offset : Nat}
    {flags : L2.MmapFlags} (h : doMmap T abi s addr length prot flags fd offset = some x) : OnPages x := by
  unfold doMmap at h
  cases hbias : bias abi flags addr with
  | none =>
    rw [hbias] at h
    cases h
  | some bias =>
    rw [hbias] at h
    simp only at h
    by_cases hb : bias.pageOffset = 0
    · rw [if_neg (not_not.2 hb)] at h
      split_ifs at h
      · cases h
        exact .error hs
      · cases h
        exact .error hs
      · exact mmapFd_onPages hs hb h
      · -- an anonymous private mapping
        split at h
        · cases h
        rename_i a L eff hmap
        cases h
        refine OnPages.addr ?_ (mmap_aligned hmap hb)
        exact hs
      · exact mmapFd_onPages hs hb h
      · cases h
        exact .error hs
      · cases h
        exact .error hs
    · rw [if_pos hb] at h
      split_ifs at h <;> cases h <;> exact .error hs

lemma doBrk_onPages (h : doBrk s brkValue = some x) : OnPages x := by
  unfold doBrk at h
  split at h
  · cases h
    exact .error hs
  rename_i hal
  split at h
  · cases h
    exact .addr hs hs
  split at h
  · cases h
  rename_i stop hstop
  have hstop' : stop.addr % 4096 = 0 := by
    rw [L2.VirtAddr.new_eq_some.1 hstop]
    omega
  split at h
  · cases h
  rename_i r s' eff hset
  cases h
  have hs' : s'.brkEnd.addr % 4096 = 0 := by
    unfold L2.setBrkEnd at hset
    grind
  exact .addr hs' hs'

/-- `mprotect` and `madvise` end in the same way: the map is replaced, and 0
returned. -/
lemma onPages_of_unit {r : Option (Except L2.Errno Unit × L2.Mappings × L2.Effect)} (h : (match r with
      | none => none
      | some (.error e, L, _) => some (.error e, { s with mappings := L })
      | some (.ok (), L, _) => some (.ok 0, { s with mappings := L })) = some x) : OnPages x := by
  split at h
  · cases h
  · cases h
    exact .error hs
  · cases h
    exact .zero hs

lemma handle_onPages {call : L2.Syscall} (h : call.handle T abi s = some x) : OnPages x := by
  cases call with
  | mmap addr length prot flags fd offset | mmap2 addr length prot flags fd offset =>
    simp only [handle] at h
    grind [doMmap_onPages, OnPages.error]
  | mprotect addr len prot =>
    simp only [handle, doMprotect] at h
    split at h
    · split at h
      · cases h
      · exact onPages_of_unit hs h
    · cases h
      exact .error hs
  | munmap addr length =>
    simp only [handle, doMunmap] at h
    grind [OnPages.error, OnPages.zero]
  | brk brkValue => exact doBrk_onPages hs h
  | madvise addr len advice =>
    simp only [handle] at h
    split at h
    · rename_i advice _
      cases advice with
      | dontNeed =>
        simp only [doMadvise] at h
        split at h
        · cases h
        · exact onPages_of_unit hs h
      | free =>
        cases h
        exact .zero hs
    · cases h
      exact .error hs

end

end

lemma reachable_brkEnd (h : valueCalls.Reachable p) : p.vm.brkEnd.addr % 4096 = 0 := by
  refine LTS.Inductive.reachable (P := fun p => p.vm.brkEnd.addr % 4096 = 0) ⟨fun _ hp => hp, ?_⟩ p h
  intro p l p' hp hstep
  cases l with
  | none =>
    rcases hstep with hsame | ⟨stop, hstop⟩
    · rw [hsame]
      exact hp
    · rw [hstop, L2.alignUp]
      omega
  | some call =>
    obtain ⟨r, hr⟩ := hstep
    cases call with
    | lseek fd offset whence =>
      simp only [ValueCall.handle, Proc.lseek] at hr
      split at hr
      · cases hr
        exact hp
      obtain ⟨y, -, hy⟩ := map_eq_some_iff.1 hr
      cases hy
      exact hp
    | dup | dup2 | dup3 =>
      cases hr
      exact hp
    | fcntlDup fd arg cloexec limit =>
      have hvm : p'.vm = p.vm := by
        have hp' : (p.fcntlDup fd arg cloexec limit).2 = p' := congrArg Prod.snd (Option.some.inj hr)
        rw [← hp', Proc.fcntlDup]
        grind
      rw [hvm]
      exact hp
    | memory files abi call =>
      obtain ⟨y, hy, hyp⟩ := map_eq_some_iff.1 hr
      cases hyp
      exact (handle_onPages hp hy).brkEnd

/-- **Results and errors are apart.** In every reachable state a call returns none of the values -4095 to -1 if it
succeeds, and storing its result does not fail, exactly if it asks for a position or a number apart from
the errors. -/
theorem syscall_values_apart (p : Proc) (h : valueCalls.Reachable p) (call : ValueCall)
    (r : Except ErrorKind (BitVec 64)) (p' : Proc) (hr : call.handle p = some (r, p')) :
    ((∀ v, r = .ok v → ¬IsError v) ∧ ∀ cpu : Cpu, (cpu.executeSyscall r).isSome) ↔ Apart p call := by
  rw [and_iff_left_of_imp Cpu.executeSyscall_isSome]
  have hplain : ∀ {call}, Apart p call = True → Plain r → (Plain r ↔ Apart p call) :=
    fun ha hp => iff_of_true hp (ha ▸ trivial)
  cases call with
  | lseek fd offset whence => exact lseek_plain hr
  | dup fildes limit =>
    refine hplain rfl fun v hv => ?_
    subst hv
    obtain ⟨n, hn, rfl⟩ := storeFds_ok (Option.some.inj hr)
    have := dup_ok (Prod.ext hn rfl)
    exact not_isError_ofInt this.1 (by omega)
  | dup2 oldfd newfd limit =>
    refine hplain rfl fun v hv => ?_
    subst hv
    obtain ⟨n, hn, rfl⟩ := storeFds_ok (Option.some.inj hr)
    obtain ⟨rfl, h0⟩ := dup2_ok (Prod.ext hn rfl)
    rw [isError_toInt]
    omega
  | dup3 oldfd newfd cloexec limit =>
    have := dup3_plain p oldfd newfd cloexec limit
    rwa [Option.some.inj hr] at this
  | fcntlDup fd arg cloexec limit =>
    refine hplain rfl fun v hv => ?_
    subst hv
    exact fcntlDup_ok (Option.some.inj hr)
  | memory files abi call =>
    refine hplain rfl fun v hv => ?_
    subst hv
    obtain ⟨y, hy, hyp⟩ := map_eq_some_iff.1 hr
    obtain ⟨res, vm⟩ := y
    cases res with
    | error e => cases hyp
    | ok n =>
      cases hyp
      obtain ⟨hal, hlt⟩ := (handle_onPages (reachable_brkEnd h) hy).value n rfl
      exact not_isError_ofNat hlt (.inl hal)

/-- A process with one file open for reading, at position 0, and no memory. -/
def oneFile : Proc := ⟨[(0, ⟨0, false⟩)], fun _ => ⟨.readonly, 0, .ok 100⟩, .new⟩

theorem syscall_values_apart_seek_end :
    ∃ p' : Proc, (ValueCall.lseek 0 (-1) .end').handle oneFile = some (.ok 99, p') ∧ ¬IsError 99 := by
  have hr : (ValueCall.lseek 0 (-1) .end').handle oneFile =
      some (.ok 99, { oneFile with
        files := fun i => if i = 0 then ⟨.readonly, 99, .ok 100⟩ else oneFile.files i }) := rfl
  refine ⟨_, hr, ((syscall_values_apart oneFile ⟨oneFile, [], rfl, .nil _⟩ _ _ _ hr).2 ?_).1 99 rfl⟩
  intro entry position hentry hpos
  cases hentry
  cases hpos
  unfold Below
  decide

/-- `lseek` to -1 and `dup3` to -5 return what is refused as a result; so does a file seeked to a large position
and on from there. -/
theorem syscall_values_collide : (∃ p', (ValueCall.lseek 0 (-1) .set).handle oneFile = some (.ok (-1), p')) ∧
    (∃ p', (ValueCall.dup3 0 (-5) false 1024).handle oneFile = some (.ok (-5), p')) ∧
    (∃ p' p'', (ValueCall.lseek 0 0xfffffffffffff000 .set).handle oneFile = some (.ok 0xfffffffffffff000, p') ∧
      (ValueCall.lseek 0 1 .cur).handle p' = some (.ok 0xfffffffffffff001, p'')) ∧
    Cpu.executeSyscall ⟨false, 8⟩ (.ok (-1)) = none ∧ Cpu.executeSyscall ⟨false, 292⟩ (.ok (-5)) = none ∧
    Cpu.executeSyscall ⟨false, 8⟩ (.ok 0xfffffffffffff001) = none :=
  ⟨⟨_, rfl⟩, ⟨_, rfl⟩, ⟨_, _, rfl, rfl⟩, rfl, rfl, rfl⟩

end Mushroom.L6
