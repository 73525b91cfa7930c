import Mushroom.Core.Layout
import Mushroom.L6Process.SyscallResult

/-!
# Signal frames

`kernel/user/process/syscall/cpu_state.rs`, `syscall/args/pointee.rs` and
`thread.rs`. A delivery stores on the stack of the handler the signal
information, the extended state, the `ucontext`, a pointer to it and the address
of the restorer, from the top down (`Frame`). `rt_sigreturn` loads the state
from there.

Memory is the part of a `VirtualMemory` a frame is about: the bytes and which of
them can be read and written. A delivery that fails is unwrapped by its caller:
it has no outcome here, wherever it fails.
-/
namespace Mushroom.L6.Signal

open L2 (Abi)

/-! ## Memory -/

structure Vm where
  mem : Nat → UInt8
  (readable writable : Nat → Bool)
  /-- there are no write-only pages -/
  readable_of_writable : ∀ a, writable a = true → readable a = true

/-- kernel/user/process/memory.rs:270-290 -/
def Vm.writeBytes (vm : Vm) (addr : Nat) (bytes : Bytes) : Option Vm :=
  if (List.range bytes.length).all fun i => vm.writable (addr + i) then
    some ⟨writeMem vm.mem addr bytes, vm.readable, vm.writable, vm.readable_of_writable⟩
  else none

/-- memory.rs:197-217 -/
def Vm.readBytes (vm : Vm) (addr len : Nat) : Option Bytes :=
  if (List.range len).all fun i => vm.readable (addr + i) then some (readMem vm.mem addr len) else none

def Vm.writeAll (vm : Vm) (ws : List (Nat × Bytes)) : Option Vm := ws.foldlM (fun vm w => vm.writeBytes w.1 w.2) vm

/-! ## Registers -/

/-- cpu_state.rs:553-580 -/
structure Registers where
  (rax rbx rcx rdx rsi rdi rsp rbp r8 r9 r10 r11 r12 r13 r14 r15 rip rflags fsBase : BitVec 64)
  (cs ds es fs gs ss : BitVec 16)
  deriving DecidableEq

/-- cpu_state.rs:582-620 -/
def Registers.default : Registers where
  rax := 0
  rbx := 0
  rcx := 0
  rdx := 0
  rsi := 0
  rdi := 0
  rsp := 0
  rbp := 0
  r8 := 0
  r9 := 0
  r10 := 0
  r11 := 0
  r12 := 0
  r13 := 0
  r14 := 0
  r15 := 0
  rip := 0
  rflags := 2
  fsBase := 0
  cs := 0x1b
  ds := 0x23
  es := 0x23
  fs := 0
  gs := 0
  ss := 0x23

/-- The `n` bytes of the xsave area are what the processor asks for. -/
structure CpuState (n : Nat) where
  registers : Registers
  gdt : List (BitVec 64)
  xsaveArea : ByteArr n
  (lastExitWasSyscall ignoreSyscallResult : Bool)

/-- cpu_state.rs:259-271 -/
def CpuState.abiFromCs {n : Nat} (s : CpuState n) : Abi :=
  let idx := (s.registers.cs >>> 3).toNat
  let entry := s.gdt.getD idx 0
  if entry.getLsbD 53 then .amd64 else .i386

/-- kernel/user/process/thread.rs:918-949 -/
structure SigContext where
  (r8 r9 r10 r11 r12 r13 r14 r15 rdi rsi rbp rbx rdx rax rcx rsp rip eflags : BitVec 64)
  (cs ds es gs fs ss : BitVec 16)
  (err trapno oldmask cr2 fpstate : BitVec 64)

/-- cpu_state.rs:273-305; the caller
stores the pointer to the extended state -/
def CpuState.createSigContext {n : Nat} (s : CpuState n) (fpstate : BitVec 64) : SigContext where
  r8 := s.registers.r8
  r9 := s.registers.r9
  r10 := s.registers.r10
  r11 := s.registers.r11
  r12 := s.registers.r12
  r13 := s.registers.r13
  r14 := s.registers.r14
  r15 := s.registers.r15
  rdi := s.registers.rdi
  rsi := s.registers.rsi
  rbp := s.registers.rbp
  rbx := s.registers.rbx
  rdx := s.registers.rdx
  rax := s.registers.rax
  rcx := s.registers.rcx
  rsp := s.registers.rsp
  rip := s.registers.rip
  eflags := s.registers.rflags
  cs := s.registers.cs
  ds := s.registers.ds
  es := s.registers.es
  gs := s.registers.gs
  fs := s.registers.fs
  ss := s.registers.ss
  err := 0
  trapno := 0
  oldmask := 0
  cr2 := 0
  fpstate := fpstate

/-- cpu_state.rs:307-335 -/
def CpuState.loadSigContext {n : Nat} (s : CpuState n) (c : SigContext) : CpuState n where
  registers :=
    { rax := c.rax, rbx := c.rbx, rcx := c.rcx, rdx := c.rdx, rsi := c.rsi, rdi := c.rdi, rsp := c.rsp, rbp := c.rbp,
      r8 := c.r8, r9 := c.r9, r10 := c.r10, r11 := c.r11, r12 := c.r12, r13 := c.r13, r14 := c.r14, r15 := c.r15,
      rip := c.rip, rflags := c.eflags, fsBase := s.registers.fsBase,
      cs := c.cs, ds := c.ds, es := c.es, fs := c.fs, gs := c.gs, ss := c.ss }
  gdt := s.gdt
  xsaveArea := s.xsaveArea
  lastExitWasSyscall := false
  ignoreSyscallResult := true

/-! ## The context -/

/-- The alternate stack.
thread.rs:786-811 -/
structure Stack where
  sp : BitVec 64
  flags : BitVec 32
  size : BitVec 64
  deriving DecidableEq

def StackFlags.disable : BitVec 32 := 1#32 <<< 1
def StackFlags.autodisarm : BitVec 32 := 1#32 <<< 31

/-- thread.rs:911-916 -/
structure UContext where
  stack : Stack
  mcontext : SigContext
  sigmask : BitVec 64

def low (x : BitVec 64) : Nat := x.toNat % 2 ^ 32

namespace UContext

/-- pointee.rs:1200-1251,1293-1325; the
stack and the pointer must fit -/
def fields32 (u : UContext) : Option (List (Nat × Nat)) :=
  if u.stack.sp.toNat < 2 ^ 32 ∧ u.stack.size.toNat < 2 ^ 32 ∧ u.mcontext.fpstate.toNat < 2 ^ 32 then
    some
      [(4, 0), (4, 0), (4, u.stack.sp.toNat), (4, u.stack.flags.toNat), (4, u.stack.size.toNat),
        (2, u.mcontext.gs.toNat), (2, 0), (2, u.mcontext.fs.toNat), (2, 0), (2, u.mcontext.es.toNat), (2, 0),
        (2, u.mcontext.ds.toNat), (2, 0),
        (4, low u.mcontext.rdi), (4, low u.mcontext.rsi), (4, low u.mcontext.rbp), (4, low u.mcontext.rsp),
        (4, low u.mcontext.rbx), (4, low u.mcontext.rdx), (4, low u.mcontext.rcx), (4, low u.mcontext.rax),
        (4, low u.mcontext.trapno), (4, low u.mcontext.err), (4, low u.mcontext.rip),
        (2, u.mcontext.cs.toNat), (2, 0), (4, low u.mcontext.eflags), (4, low u.mcontext.rsp),
        (2, u.mcontext.ss.toNat), (2, 0), (4, u.mcontext.fpstate.toNat), (4, low u.mcontext.oldmask),
        (4, low u.mcontext.cr2), (8, u.sigmask.toNat)]
  else none

def widths32 : List Nat :=
  [4, 4, 4, 4, 4, 2, 2, 2, 2, 2, 2, 2, 2, 4, 4, 4, 4, 4, 4, 4, 4, 4, 4, 4, 2, 2, 4, 4, 2, 2, 4, 4, 4, 8]

/-- pointee.rs:1253-1291 -/
def ofFields32 : List Nat → Option UContext
  | _ :: _ :: sp :: flags :: size :: gs :: _ :: fs :: _ :: es :: _ :: ds :: _ :: edi :: esi :: ebp :: esp :: ebx ::
      edx :: ecx :: eax :: trapno :: err :: eip :: cs :: _ :: eflags :: _ :: ss :: _ :: fpstate :: oldmask :: cr2 ::
      sigmask :: [] =>
    some
      { stack := ⟨.ofNat 64 sp, .ofNat 32 flags, .ofNat 64 size⟩
        mcontext :=
          { r8 := 0, r9 := 0, r10 := 0, r11 := 0, r12 := 0, r13 := 0, r14 := 0, r15 := 0,
            rdi := .ofNat 64 edi, rsi := .ofNat 64 esi, rbp := .ofNat 64 ebp, rbx := .ofNat 64 ebx,
            rdx := .ofNat 64 edx, rax := .ofNat 64 eax, rcx := .ofNat 64 ecx, rsp := .ofNat 64 esp,
            rip := .ofNat 64 eip, eflags := .ofNat 64 eflags,
            cs := .ofNat 16 cs, ds := .ofNat 16 ds, es := .ofNat 16 es, gs := .ofNat 16 gs, fs := .ofNat 16 fs,
            ss := .ofNat 16 ss, err := .ofNat 64 err, trapno := .ofNat 64 trapno, oldmask := .ofNat 64 oldmask,
            cr2 := .ofNat 64 cr2, fpstate := .ofNat 64 fpstate }
        sigmask := .ofNat 64 sigmask }
  | _ => none

/-- pointee.rs:1369-1418,1460-1492 -/
def fields64 (u : UContext) : List (Nat × Nat) :=
  [(8, 0), (8, 0), (8, u.stack.sp.toNat), (4, u.stack.flags.toNat), (4, 0), (8, u.stack.size.toNat),
    (8, u.mcontext.r8.toNat), (8, u.mcontext.r9.toNat), (8, u.mcontext.r10.toNat), (8, u.mcontext.r11.toNat),
    (8, u.mcontext.r12.toNat), (8, u.mcontext.r13.toNat), (8, u.mcontext.r14.toNat), (8, u.mcontext.r15.toNat),
    (8, u.mcontext.rdi.toNat), (8, u.mcontext.rsi.toNat), (8, u.mcontext.rbp.toNat), (8, u.mcontext.rbx.toNat),
    (8, u.mcontext.rdx.toNat), (8, u.mcontext.rax.toNat), (8, u.mcontext.rcx.toNat), (8, u.mcontext.rsp.toNat),
    (8, u.mcontext.rip.toNat), (8, u.mcontext.eflags.toNat),
    (2, u.mcontext.cs.toNat), (2, u.mcontext.gs.toNat), (2, u.mcontext.fs.toNat), (2, u.mcontext.ss.toNat),
    (8, u.mcontext.err.toNat), (8, u.mcontext.trapno.toNat), (8, u.mcontext.oldmask.toNat), (8, u.mcontext.cr2.toNat),
    (8, u.mcontext.fpstate.toNat), (64, 0), (8, u.sigmask.toNat)]

def widths64 : List Nat :=
  [8, 8, 8, 4, 4, 8, 8, 8, 8, 8, 8, 8, 8, 8, 8, 8, 8, 8, 8, 8, 8, 8, 8, 8, 2, 2, 2, 2, 8, 8, 8, 8, 8, 64, 8]

/-- pointee.rs:1420-1458 -/
def ofFields64 : List Nat → Option UContext
  | _ :: _ :: sp :: flags :: _ :: size :: r8 :: r9 :: r10 :: r11 :: r12 :: r13 :: r14 :: r15 :: rdi :: rsi :: rbp ::
      rbx :: rdx :: rax :: rcx :: rsp :: rip :: eflags :: cs :: gs :: fs :: ss :: err :: trapno :: oldmask :: cr2 ::
      fpstate :: _ :: sigmask :: [] =>
    some
      { stack := ⟨.ofNat 64 sp, .ofNat 32 flags, .ofNat 64 size⟩
        mcontext :=
          { r8 := .ofNat 64 r8, r9 := .ofNat 64 r9, r10 := .ofNat 64 r10, r11 := .ofNat 64 r11, r12 := .ofNat 64 r12,
            r13 := .ofNat 64 r13, r14 := .ofNat 64 r14, r15 := .ofNat 64 r15,
            rdi := .ofNat 64 rdi, rsi := .ofNat 64 rsi, rbp := .ofNat 64 rbp, rbx := .ofNat 64 rbx,
            rdx := .ofNat 64 rdx, rax := .ofNat 64 rax, rcx := .ofNat 64 rcx, rsp := .ofNat 64 rsp,
            rip := .ofNat 64 rip, eflags := .ofNat 64 eflags,
            cs := .ofNat 16 cs, ds := 0x23, es := 0x23, gs := .ofNat 16 gs, fs := .ofNat 16 fs, ss := .ofNat 16 ss,
            err := .ofNat 64 err, trapno := .ofNat 64 trapno, oldmask := .ofNat 64 oldmask, cr2 := .ofNat 64 cr2,
            fpstate := .ofNat 64 fpstate }
        sigmask := .ofNat 64 sigmask }
  | _ => none

def size : Abi → Nat
  | .i386 => widths32.sum
  | .amd64 => widths64.sum

/-- pointee.rs:163-184 -/
def bytes (u : UContext) : Abi → Option Bytes
  | .i386 => u.fields32.map pack
  | .amd64 => some (pack u.fields64)

/-- pointee.rs:134-158 -/
def ofBytes (b : Bytes) : Abi → Option UContext
  | .i386 => ofFields32 (unpack widths32 b)
  | .amd64 => ofFields64 (unpack widths64 b)

end UContext

/-! ## The extended state -/

/-- cpu_state.rs:739-752 -/
structure Fpstate32Header where
  (cw sw tag ipoff cssel dataoff datasel : Nat)
  st : Bytes
  status : Nat

/-- cpu_state.rs:382-395 -/
def Fpstate32Header.new (xsave : Bytes) : Fpstate32Header where
  cw := leNat (slice xsave 0 2)
  sw := leNat (slice xsave 2 2)
  tag := leNat (slice xsave 4 1)
  ipoff := leNat (slice xsave 8 4)
  cssel := leNat (slice xsave 12 4)
  dataoff := leNat (slice xsave 16 4)
  datasel := leNat (slice xsave 20 4)
  st := slice xsave 32 128
  status := leNat (slice xsave 2 2)

def Fpstate32Header.size : Nat := 160

def Fpstate32Header.bytes (h : Fpstate32Header) : Bytes :=
  pack [(4, h.cw), (4, h.sw), (4, h.tag), (4, h.ipoff), (4, h.cssel), (4, h.dataoff), (4, h.datasel)] ++ h.st ++
    pack [(2, h.status), (2, 0)]

def Fpstate32Header.ofBytes (b : Bytes) : Fpstate32Header where
  cw := leNat (slice b 0 4)
  sw := leNat (slice b 4 4)
  tag := leNat (slice b 8 4)
  ipoff := leNat (slice b 12 4)
  cssel := leNat (slice b 16 4)
  dataoff := leNat (slice b 20 4)
  datasel := leNat (slice b 24 4)
  st := slice b 28 128
  status := leNat (slice b 156 2)

/-- The header is stored into the `FXSave` at the beginning of the xsave bytes.
cpu_state.rs:512-521 -/
def Fpstate32Header.restore (h : Fpstate32Header) (xsave : Bytes) : Bytes :=
  leBytes 2 h.cw ++ leBytes 2 h.sw ++ leBytes 1 h.tag ++ slice xsave 5 3 ++ leBytes 4 h.ipoff ++ leBytes 4 h.cssel ++
    leBytes 4 h.dataoff ++ leBytes 4 h.datasel ++ slice xsave 24 8 ++ h.st ++ xsave.drop 160

/-- cpu_state.rs:46-47,754-762 -/
def fpxSwBytes (extendedSize xstateSize : Nat) : Bytes :=
  pack [(4, 0x46505853), (4, extendedSize % 2 ^ 32), (8, 7), (4, xstateSize % 2 ^ 32), (28, 0)]

def fpXstateMagic2 : Bytes := leBytes 4 0x46505845

/-- cpu_state.rs:376-378,418-420 -/
def extendedSize (n : Nat) : Abi → Nat
  | .i386 => Fpstate32Header.size + n + 4
  | .amd64 => n + 4

/-- The xsave bytes, the bytes reserved for software and the magic behind them.
cpu_state.rs:399-413,424-438 -/
def xsaveStores (xsave : Bytes) (extendedSize ptr : Nat) : List (Nat × Bytes) :=
  [(ptr, xsave), (ptr + 0x1a0, fpxSwBytes extendedSize xsave.length), (ptr + xsave.length, fpXstateMagic2)]

def fpstateStores (xsave : Bytes) (ptr : Nat) : Abi → List (Nat × Bytes)
  | .i386 =>
    (ptr, (Fpstate32Header.new xsave).bytes) ::
      xsaveStores xsave (extendedSize xsave.length .i386) (ptr + Fpstate32Header.size)
  | .amd64 => xsaveStores xsave (extendedSize xsave.length .amd64) ptr

/-! ## The frame -/

/-- `Signal` is one of 1 to 64. -/
abbrev SignalNr := { s : Nat // 1 ≤ s ∧ s ≤ 64 }

/-- thread.rs:890-909 -/
inductive SigFields where
  | none
  | sigChld (pid uid status : BitVec 32) (utime stime : BitVec 64)
  | sigFault (addr : BitVec 64)

/-- thread.rs:867-872 -/
structure SigInfo where
  signal : SignalNr
  code : BitVec 32
  fields : SigFields

def SigInfo.size : Nat := 128

/-- pointee.rs:455-589 -/
def SigInfo.bytes (i : SigInfo) : Abi → Bytes
  | .i386 =>
    pack [(4, i.signal.1), (4, 0), (4, i.code.toNat)] ++ pad 116 (match i.fields with
      | .none => []
      | .sigChld pid uid status utime stime =>
        pack [(4, pid.toNat), (4, uid.toNat), (4, status.toNat), (4, low utime), (4, low stime)]
      | .sigFault addr => pack [(4, low addr)])
  | .amd64 =>
    pack [(4, i.signal.1), (4, 0), (4, i.code.toNat), (4, 0)] ++ pad 112 (match i.fields with
      | .none => []
      | .sigChld pid uid status utime stime =>
        pack [(4, pid.toNat), (4, uid.toNat), (4, status.toNat), (8, utime.toNat), (8, stime.toNat)]
      | .sigFault addr => pack [(8, addr.toNat)])

/-- thread.rs:684-690,775-784 -/
structure Sigaction where
  saHandlerOrSigaction : BitVec 64
  saFlags : BitVec 32
  (saRestorer saMask : BitVec 64)

def SigactionFlags.restorer : BitVec 32 := 0x04000000
def SigactionFlags.onstack : BitVec 32 := 0x08000000
def SigactionFlags.nodefer : BitVec 32 := 0x40000000

def has (flags flag : BitVec 32) : Bool := flags &&& flag == flag

def alignDown (a : Nat) : Nat := a / 16 * 16

def checkedSub (a b : Nat) : Option Nat := if b ≤ a then some (a - b) else none

def pointerSize : Abi → Nat
  | .i386 => 4
  | .amd64 => 8

/-- pointee.rs:398-408 -/
def pointerBytes (ptr : Nat) : Abi → Option Bytes
  | .i386 => if ptr < 2 ^ 32 then some (leBytes 4 ptr) else none
  | .amd64 => some (leBytes 8 ptr)

/-- A frame goes from `bottom`, the stack pointer of the handler, to `top`. -/
structure Frame where
  abi : Abi
  (top sigInfoPtr fpstatePtr ucontextPtr : Nat)
  /-- the stack pointer when the handler has returned -/
  args : Nat
  bottom : Nat
  deriving DecidableEq

/-- cpu_state.rs:456-457,472-473 -/
def argsOf (ucontextPtr : Nat) : Abi → Option Nat
  | .i386 => (checkedSub (alignDown ucontextPtr) 4).bind fun rsp => checkedSub rsp 12
  | .amd64 => checkedSub (alignDown ucontextPtr) 16

/-- cpu_state.rs:366-379,418-421,450-451,478 -/
def Frame.place (abi : Abi) (n start : Nat) : Option Frame := do
  let top := alignDown start
  let sigInfoPtr ← checkedSub top SigInfo.size
  let fpstatePtr ← checkedSub sigInfoPtr (extendedSize n abi)
  let ucontextPtr ← checkedSub fpstatePtr (UContext.size abi)
  let args ← argsOf ucontextPtr abi
  let bottom ← checkedSub args (pointerSize abi)
  some ⟨abi, top, sigInfoPtr, fpstatePtr, ucontextPtr, args, bottom⟩

/-- The end of the alternate stack or below the red zone.
cpu_state.rs:357-364 -/
def startOf (rsp : BitVec 64) (sigaction : Sigaction) (stack : Stack) : Option Nat :=
  if !has stack.flags StackFlags.disable && has sigaction.saFlags SigactionFlags.onstack then
    if stack.sp.toNat + stack.size.toNat < 2 ^ 64 then some (stack.sp.toNat + stack.size.toNat) else none
  else checkedSub rsp.toNat 128

/-- memory.rs:57-59, cpu_state.rs:347-355 -/
def restorerOf (abi : Abi) (sigaction : Sigaction) : Nat :=
  if has sigaction.saFlags SigactionFlags.restorer then sigaction.saRestorer.toNat
  else
    match abi with
    | .i386 => 0x7ffff000
    | .amd64 => 0x7ffff010

/-- Above the restorer: the handler's arguments on i386, the context pointer on amd64.
cpu_state.rs:454-476 -/
def argStores (f : Frame) (sigInfo : SigInfo) : Option (List (Nat × Bytes)) :=
  match f.abi with
  | .i386 => do
    let ucontextPtr ← pointerBytes f.ucontextPtr .i386
    let sigInfoPtr ← pointerBytes f.sigInfoPtr .i386
    some [(f.args + 8, ucontextPtr), (f.args + 4, sigInfoPtr), (f.args, leBytes 4 sigInfo.signal.1)]
  | .amd64 => do
    let ucontextPtr ← pointerBytes f.ucontextPtr .amd64
    some [(f.args + 8, ucontextPtr)]

section

variable {n : Nat}

/-- The stores of a delivery, in their order. -/
def CpuState.frameStores (s : CpuState n) (f : Frame) (sigInfo : SigInfo) (sigaction : Sigaction) (stack : Stack)
    (sigmask : BitVec 64) : Option (List (Nat × Bytes)) := do
  let ucontext ← UContext.bytes ⟨stack, s.createSigContext (.ofNat 64 f.fpstatePtr), sigmask⟩ f.abi
  let args ← argStores f sigInfo
  let restorer ← pointerBytes (restorerOf f.abi sigaction) f.abi
  some ((f.sigInfoPtr, sigInfo.bytes f.abi) :: (fpstateStores s.xsaveArea.1 f.fpstatePtr f.abi ++
    (f.ucontextPtr, ucontext) :: (args ++ [(f.bottom, restorer)])))

/-- The handler gets its arguments in registers on amd64.
cpu_state.rs:466-470,478-483 -/
def CpuState.enterHandler (s : CpuState n) (f : Frame) (sigInfo : SigInfo) (sigaction : Sigaction) : CpuState n :=
  let registers :=
    match f.abi with
    | .i386 => s.registers
    | .amd64 =>
      { s.registers with
        rdi := .ofNat 64 sigInfo.signal.1, rsi := .ofNat 64 f.sigInfoPtr, rdx := .ofNat 64 f.ucontextPtr }
  { s with registers := { registers with rsp := .ofNat 64 f.bottom, rip := sigaction.saHandlerOrSigaction } }

def CpuState.frame (s : CpuState n) (sigaction : Sigaction) (stack : Stack) : Option Frame :=
  (startOf s.registers.rsp sigaction stack).bind fun start => Frame.place s.abiFromCs n start

/-- cpu_state.rs:337-484 -/
def CpuState.startSignalHandler (s : CpuState n) (sigInfo : SigInfo) (sigaction : Sigaction) (stack : Stack)
    (sigmask : BitVec 64) (vm : Vm) : Option (CpuState n × Vm) := do
  let f ← s.frame sigaction stack
  let stores ← s.frameStores f sigInfo sigaction stack sigmask
  let vm ← vm.writeAll stores
  some (s.enterHandler f sigInfo sigaction, vm)

/-- The bytes reserved for software are cleared on amd64.
cpu_state.rs:496-530 -/
def loadXsave (vm : Vm) (fpstate : Nat) (abi : Abi) (n : Nat) : Option Bytes :=
  match abi with
  | .i386 => do
    let header ← vm.readBytes fpstate Fpstate32Header.size
    let xsave ← vm.readBytes (fpstate + Fpstate32Header.size) n
    some ((Fpstate32Header.ofBytes header).restore xsave)
  | .amd64 => do
    let xsave ← vm.readBytes fpstate n
    some (splice xsave 0x1a0 (List.replicate 0x60 0))

/-- cpu_state.rs:486-533 -/
def CpuState.finishSignalHandler (s : CpuState n) (vm : Vm) (abi : Abi) : Option (CpuState n × Stack × BitVec 64) := do
  if s.registers.rsp.toNat + 8 < 2 ^ 64 then
    let ptr ← vm.readBytes (s.registers.rsp.toNat + 8) (pointerSize abi)
    let bytes ← vm.readBytes (leNat ptr) (UContext.size abi)
    let ucontext ← UContext.ofBytes bytes abi
    let s := s.loadSigContext ucontext.mcontext
    if ucontext.mcontext.fpstate = 0 then some (s, ucontext.stack, ucontext.sigmask)
    else
      let xsave ← loadXsave vm ucontext.mcontext.fpstate.toNat abi n
      if h : xsave.length = n then some ({ s with xsaveArea := ⟨xsave, h⟩ }, ucontext.stack, ucontext.sigmask)
      else none
  else none

/-! ## The thread -/

structure Thread (n : Nat) where
  cpu : CpuState n
  vm : Vm
  sigmask : BitVec 64
  sigaltstack : Stack

def sigsetAdd (mask : BitVec 64) (signal : SignalNr) : BitVec 64 := mask ||| (1#64 <<< (signal.1 - 1))

/-- A signal with a handler is delivered.
thread.rs:362-383 -/
def Thread.deliver (t : Thread n) (sigInfo : SigInfo) (sigaction : Sigaction) : Option (Thread n) := do
  let sigmask := t.sigmask ||| sigaction.saMask
  let sigmask := if has sigaction.saFlags SigactionFlags.nodefer then sigmask else sigsetAdd sigmask sigInfo.signal
  let sigaltstack : Stack :=
    if has t.sigaltstack.flags StackFlags.autodisarm && has sigaction.saFlags SigactionFlags.onstack then
      ⟨t.sigaltstack.sp, t.sigaltstack.flags ||| StackFlags.disable, t.sigaltstack.size⟩
    else t.sigaltstack
  let (cpu, vm) ← t.cpu.startSignalHandler sigInfo sigaction t.sigaltstack t.sigmask t.vm
  some ⟨cpu, vm, sigmask, sigaltstack⟩

/-- The result of a system call is stored.
kernel/user/process/syscall.rs:69-73 -/
def CpuState.executeSyscall (s : CpuState n) (result : BitVec 64) : Option (CpuState n) :=
  (Cpu.executeSyscall ⟨s.ignoreSyscallResult, s.registers.rax⟩ (.ok result)).map fun c =>
    { s with registers := { s.registers with rax := c.rax }, ignoreSyscallResult := c.ignoreSyscallResult }

/-- syscall.rs:772-781 -/
def Thread.rtSigreturn (t : Thread n) (abi : Abi) : Option (Thread n) := do
  let (cpu, sigaltstack, sigmask) ← t.cpu.finishSignalHandler t.vm abi
  let cpu ← cpu.executeSyscall 0
  some ⟨cpu, t.vm, sigmask, sigaltstack⟩

end

end Mushroom.L6.Signal
