import Mushroom.L6Process.SignalNesting

/-!
# Deliveries and returns that fail

The thread unwraps the result of a delivery: it panics if the frame has no place
below the stack pointer or the end of the alternate stack, if a pointer does not
fit the ABI, or if a byte that is stored cannot be written. A failed
`rt_sigreturn` returns its error with the registers loaded already, and with the
bytes of the extended state that were copied before the fault.
-/
namespace Mushroom.L6.Signal
open List Option
open BitVec (toNat_ofNat)

open L1 (ErrorKind)
open L2 (Abi Canonical)

section

variable {n : Nat}

/-! ## Deliveries -/

lemma Vm.writeAll_isSome (vm : Vm) (ws : List (Nat × Bytes)) :
    (vm.writeAll ws).isSome ↔ ∀ w ∈ ws, ∀ i < w.2.length, vm.writable (w.1 + i) = true := by
  induction ws generalizing vm with
  | nil => simp [Vm.writeAll]
  | cons w ws ih =>
    rw [Vm.writeAll, foldlM_cons, forall_mem_cons]
    by_cases hw : ∀ i < w.2.length, vm.writable (w.1 + i) = true
    · rw [Vm.writeBytes, if_pos (by simpa using hw), and_iff_right hw]
      exact ih _
    · simp [Vm.writeBytes, hw]

section

variable {abi : Abi} {start a : Nat} {f : Frame} {s : CpuState n} {sigInfo : SigInfo} {sigaction : Sigaction}
  {stack : Stack} {sigmask : BitVec 64} {ws args : List (Nat × Bytes)}

/-- What the pointers of a 32-bit frame have to fit. -/
def Fits32 (sigaction : Sigaction) (stack : Stack) (start : Nat) : Prop :=
  alignDown start < 2 ^ 32 + SigInfo.size ∧ stack.sp.toNat < 2 ^ 32 ∧ stack.size.toNat < 2 ^ 32 ∧
    restorerOf .i386 sigaction < 2 ^ 32

lemma pointerBytes_i386 {ptr : Nat} {b : Bytes} :
    pointerBytes ptr .i386 = some b ↔ ptr < 2 ^ 32 ∧ leBytes 4 ptr = b := by
  rw [pointerBytes, ite_none_right_eq_some, some.injEq]

lemma argStores_i386 (habi : f.abi = .i386) :
    (argStores f sigInfo).isSome ↔ f.ucontextPtr < 2 ^ 32 ∧ f.sigInfoPtr < 2 ^ 32 := by
  unfold argStores
  rw [habi]
  simp only [pointerBytes]
  split
  · split <;> simp_all
  · simp_all

lemma bytes_isSome {fpstate : BitVec 64} (hsp : stack.sp.toNat < 2 ^ 32) (hsize : stack.size.toNat < 2 ^ 32)
    (hfp : fpstate.toNat < 2 ^ 32) : (UContext.bytes ⟨stack, s.createSigContext fpstate, sigmask⟩ .i386).isSome := by
  rw [UContext.bytes, isSome_map, UContext.fields32, if_pos ⟨hsp, hsize, hfp⟩]
  rfl

lemma frameStores_isSome (hroom : frameRoom abi n + 32 ≤ alignDown start) (hlt : start < 2 ^ 64) :
    (s.frameStores (Frame.below abi n start) sigInfo sigaction stack sigmask).isSome ↔
      (abi = .i386 → Fits32 sigaction stack start) := by
  cases abi with
  | amd64 => simp [CpuState.frameStores, UContext.bytes, argStores, pointerBytes, Frame.below]
  | i386 =>
    have hle := alignDown_le start
    have hfp : (BitVec.ofNat 64 (alignDown start - SigInfo.size - extendedSize n .i386)).toNat =
        alignDown start - SigInfo.size - extendedSize n .i386 := by
      rw [toNat_ofNat, Nat.mod_eq_of_lt (by omega)]
    have huc : contextAt .i386 n start ≤ alignDown start - SigInfo.size := by
      unfold contextAt frameRoom
      omega
    unfold frameRoom at hroom
    constructor
    · intro h _
      obtain ⟨ws, h⟩ := isSome_iff_exists.1 h
      obtain ⟨ub, hub, h⟩ := bind_eq_some_iff.1 h
      obtain ⟨args, hargs, h⟩ := bind_eq_some_iff.1 h
      obtain ⟨res, hres, -⟩ := bind_eq_some_iff.1 h
      obtain ⟨_, hfields, -⟩ := map_eq_some_iff.1 hub
      obtain ⟨⟨h1, h2, -⟩, -⟩ := ite_none_right_eq_some.1 hfields
      obtain ⟨-, h3⟩ := (argStores_i386 (f := Frame.below .i386 n start) rfl).1 (isSome_iff_exists.2 ⟨args, hargs⟩)
      simp only [Frame.below] at h3
      exact ⟨by omega, h1, h2, (pointerBytes_i386.1 hres).1⟩
    · intro h
      obtain ⟨h1, h2, h3, h4⟩ := h rfl
      have hargs : (argStores (Frame.below .i386 n start) sigInfo).isSome := by
        rw [argStores_i386 rfl]
        simp only [Frame.below]
        omega
      have hres := pointerBytes_i386.2 ⟨h4, rfl⟩
      have hbytes : (UContext.bytes ⟨stack, s.createSigContext (.ofNat 64 (Frame.below .i386 n start).fpstatePtr),
          sigmask⟩ .i386).isSome := bytes_isSome h2 h3 (hfp.trans_lt (by omega))
      obtain ⟨ub, hub⟩ := isSome_iff_exists.1 hbytes
      obtain ⟨args, hargs⟩ := isSome_iff_exists.1 hargs
      exact isSome_iff_exists.2 ⟨_, bind_eq_some_iff.2 ⟨ub, hub, bind_eq_some_iff.2 ⟨args, hargs,
        bind_eq_some_iff.2 ⟨_, hres, rfl⟩⟩⟩⟩

end

/-- The delivery goes to the alternate stack. -/
def Thread.onAlternate (t : Thread n) (sigaction : Sigaction) : Bool :=
  !has t.sigaltstack.flags StackFlags.disable && has sigaction.saFlags SigactionFlags.onstack

/-- A delivery returns exactly if the end of the alternate stack is below 2 ^ 64 or the stack pointer is at least 128,
there is room for the frame below, the pointers of a 32-bit frame fit 32 bits and every byte that is stored can be
written. Otherwise the thread panics. -/
theorem deliver_returns_iff (hn : 512 ≤ n) (t : Thread n) (sigInfo : SigInfo) (sigaction : Sigaction) :
    (t.deliver sigInfo sigaction).isSome = true ↔ ∃ start < 2 ^ 64,
      (if t.onAlternate sigaction then start = t.sigaltstack.sp.toNat + t.sigaltstack.size.toNat
        else start + 128 = t.cpu.registers.rsp.toNat) ∧
      frameRoom t.cpu.abiFromCs n + 32 ≤ alignDown start ∧
      (t.cpu.abiFromCs = .i386 → Fits32 sigaction t.sigaltstack start) ∧
      ∀ a, (Frame.below t.cpu.abiFromCs n start).Stores a → t.vm.writable a = true := by
  have hstart : ∀ start, startOf t.cpu.registers.rsp sigaction t.sigaltstack = some start ↔ start < 2 ^ 64 ∧
      if t.onAlternate sigaction then start = t.sigaltstack.sp.toNat + t.sigaltstack.size.toNat
        else start + 128 = t.cpu.registers.rsp.toNat := by
    intro start
    have hrsp := t.cpu.registers.rsp.isLt
    unfold startOf Thread.onAlternate checkedSub
    split
    · simp only [ite_none_right_eq_some, some.injEq]
      omega
    · simp only [ite_none_right_eq_some, some.injEq]
      omega
  have hwrite : ∀ ws : List (Nat × Bytes), (∀ w ∈ ws, ∀ i < w.2.length, t.vm.writable (w.1 + i) = true) ↔
      ∀ a, (∃ w ∈ ws, w.1 ≤ a ∧ a < w.1 + w.2.length) → t.vm.writable a = true := by
    refine fun ws => ⟨?_, fun h w hw i hi => h _ ⟨w, hw, by omega, by omega⟩⟩
    rintro h a ⟨w, hw, hlo, hhi⟩
    obtain ⟨i, rfl⟩ := Nat.exists_eq_add_of_le hlo
    exact h w hw i (by omega)
  constructor
  · intro h
    obtain ⟨t', h⟩ := isSome_iff_exists.1 h
    obtain ⟨_, hdeliver, -⟩ := bind_eq_some_iff.1 h
    obtain ⟨f, hf, -⟩ := bind_eq_some_iff.1 hdeliver
    obtain ⟨ws, hws, hvm⟩ := deliver_eq hf h
    obtain ⟨start, hs, hplace⟩ := bind_eq_some_iff.1 hf
    obtain ⟨hlt, hs⟩ := (hstart start).1 hs
    obtain ⟨hroom, hbelow⟩ := Frame.place_eq_some.1 hplace
    subst hbelow
    refine ⟨start, hlt, hs, hroom, (frameStores_isSome hroom hlt).1 (isSome_iff_exists.2 ⟨ws, hws⟩), fun a ha => ?_⟩
    have hall := (hwrite ws).1 ((t.vm.writeAll_isSome ws).1 (hvm ▸ rfl))
    exact hall a ((frameStores_covers (Frame.place_laid hplace).1 hn hws).2 ha)
  · rintro ⟨start, hlt, hs, hroom, hfits, hstored⟩
    have hsome : (t.cpu.frameStores (Frame.below t.cpu.abiFromCs n start) sigInfo sigaction t.sigaltstack
        t.sigmask).isSome := (frameStores_isSome hroom hlt).2 hfits
    obtain ⟨ws, hws⟩ := isSome_iff_exists.1 hsome
    have hplace : Frame.place t.cpu.abiFromCs n start = some (Frame.below t.cpu.abiFromCs n start) :=
      Frame.place_eq_some.2 ⟨hroom, rfl⟩
    have hf : t.cpu.frame sigaction t.sigaltstack = some (Frame.below t.cpu.abiFromCs n start) := by
      rw [CpuState.frame, (hstart start).2 ⟨hlt, hs⟩, bind_some, hplace]
    have hall := (hwrite ws).2 fun a ha => hstored a ((frameStores_covers (Frame.place_laid hplace).1 hn hws).1 ha)
    obtain ⟨vm, hvm⟩ := isSome_iff_exists.1 ((t.vm.writeAll_isSome ws).2 hall)
    simp [Thread.deliver, CpuState.startSignalHandler, hf, hws, hvm]

/-- A delivery to the end of the alternate stack. -/
theorem deliver_returns_iff_alternate : (program.deliver usr1 onstackHandler).isSome = true := by
  have habi : program.cpu.abiFromCs = .amd64 := by decide +kernel
  refine (deliver_returns_iff (Nat.le_refl 512) program usr1 onstackHandler).2
    ⟨0x20000, by decide, rfl, ?_, ?_, fun _ _ => rfl⟩
  · rw [habi]
    decide
  · rw [habi]
    nofun

/-- Nothing is mapped at the stack pointer; or it is less than 128. -/
theorem deliver_panics :
    Thread.deliver { program with vm := ⟨fun _ => 0, fun _ => false, fun _ => false, fun _ h => h⟩ } usr1
      ⟨0x2000, 0, 0, 0⟩ = none ∧
    Thread.deliver { program with cpu := { program.cpu with registers := { Registers.default with rsp := 127 } } } usr1
      ⟨0x2000, 0, 0, 0⟩ = none := by
  decide +kernel

/-! ## Returns -/

/-- A read through a pointer, of which `get` panics unless the address is canonical.
kernel/user/process/syscall/args.rs:230-232 -/
def Vm.readAt (vm : Vm) (addr len : Nat) : Option (Except ErrorKind Bytes) :=
  if Canonical addr then some ((vm.readBytes addr len).elim (.error .fault) .ok) else none

/-- How many bytes a read that fails has copied: none of a range outside the lower half, otherwise those in front of
the first one that is not `present` in the page tables. kernel/user/process/memory.rs:201-217,
kernel/memory/pagetable.rs:234-259,305-314 -/
def copied (present : Nat → Bool) (addr len : Nat) : Nat :=
  if addr + len ≤ 2 ^ 47 then ((range len).takeWhile fun i => present (addr + i)).length else 0

lemma copied_le (present : Nat → Bool) (addr len : Nat) : copied present addr len ≤ len := by
  unfold copied
  split
  · exact (takeWhile_sublist _).length_le.trans_eq length_range
  · exact Nat.zero_le _

/-- The xsave area after a read into it that failed. -/
def CpuState.torn (s : CpuState n) (vm : Vm) (present : Nat → Bool) (addr : Nat) : CpuState n :=
  { s with xsaveArea := ⟨splice s.xsaveArea.1 0 (readMem vm.mem addr (copied present addr n)), by
      rw [splice_length, s.xsaveArea.2]
      rw [readMem_length, s.xsaveArea.2, Nat.zero_add]
      exact copied_le present addr n⟩ }

/-- What `?` makes of a read: an error is returned and leaves the state `s`. -/
def CpuState.orFault {α : Type} (s : CpuState n) (r : Option (Except ErrorKind Bytes))
    (f : Bytes → Option (Except ErrorKind α × CpuState n)) : Option (Except ErrorKind α × CpuState n) :=
  match r with
  | none => none
  | some (.error e) => some (.error e, s)
  | some (.ok bytes) => f bytes

def CpuState.setXsave (s : CpuState n) (xsave : Bytes) : Option (Except ErrorKind Unit × CpuState n) :=
  if h : xsave.length = n then some (.ok (), { s with xsaveArea := ⟨xsave, h⟩ }) else none

/-- The extended state is read into the xsave area. cpu_state.rs:496-530 -/
def CpuState.loadFpstate (s : CpuState n) (vm : Vm) (present : Nat → Bool) (fpstate : Nat) :
    Abi → Option (Except ErrorKind Unit × CpuState n)
  | .i386 =>
    s.orFault (vm.readAt fpstate Fpstate32Header.size) fun header =>
      (s.torn vm present (fpstate + Fpstate32Header.size)).orFault (vm.readAt (fpstate + Fpstate32Header.size) n)
        fun xsave => s.setXsave ((Fpstate32Header.ofBytes header).restore xsave)
  | .amd64 =>
    (s.torn vm present fpstate).orFault (vm.readAt fpstate n) fun xsave =>
      s.setXsave (splice xsave 0x1a0 (List.replicate 0x60 0))

/-- `finish_signal_handler` with the state it leaves in every case; it panics where there is none.
cpu_state.rs:486-533 -/
def CpuState.finish (s : CpuState n) (vm : Vm) (present : Nat → Bool) (abi : Abi) :
    Option (Except ErrorKind (Stack × BitVec 64) × CpuState n) :=
  if s.registers.rsp.toNat + 8 < 2 ^ 64 then
    s.orFault (vm.readAt (s.registers.rsp.toNat + 8) (pointerSize abi)) fun ptr =>
    s.orFault (vm.readAt (leNat ptr) (UContext.size abi)) fun bytes =>
    match UContext.ofBytes bytes abi with
    | none => some (.error .inval, s)
    | some u =>
      if u.mcontext.fpstate = 0 then some (.ok (u.stack, u.sigmask), s.loadSigContext u.mcontext)
      else ((s.loadSigContext u.mcontext).loadFpstate vm present u.mcontext.fpstate.toNat abi).map fun r =>
        (r.1.map fun _ => (u.stack, u.sigmask), r.2)
  else none

/-- The call with its effect on the thread. kernel/user/process/syscall.rs:772-781 -/
def Thread.sigreturn (t : Thread n) (present : Nat → Bool) (abi : Abi) : Option (Except ErrorKind Unit × Thread n) :=
  (t.cpu.finish t.vm present abi).map fun
    | (.error e, cpu) => (.error e, { t with cpu })
    | (.ok (sigaltstack, sigmask), cpu) => (.ok (), ⟨cpu, t.vm, sigmask, sigaltstack⟩)

/-- The context to which the stack points, if it can be read. -/
def CpuState.context (s : CpuState n) (vm : Vm) (abi : Abi) : Option UContext := do
  let ptr ← vm.readBytes (s.registers.rsp.toNat + 8) (pointerSize abi)
  let bytes ← vm.readBytes (leNat ptr) (UContext.size abi)
  UContext.ofBytes bytes abi

/-- Where the xsave bytes are read: not if the header in front of them cannot be. -/
def UContext.xsaveAt (u : UContext) (vm : Vm) : Abi → Option Nat
  | .i386 => (vm.readBytes u.mcontext.fpstate.toNat Fpstate32Header.size).map
      fun _ => u.mcontext.fpstate.toNat + Fpstate32Header.size
  | .amd64 => some u.mcontext.fpstate.toNat

section

variable {s s' : CpuState n} {vm : Vm} {present : Nat → Bool} {abi : Abi} {e : ErrorKind} {addr len : Nat}

lemma readAt_error (h : vm.readAt addr len = some (.error e)) : vm.readBytes addr len = none := by
  obtain ⟨-, h⟩ := ite_none_right_eq_some.1 h
  cases hb : vm.readBytes addr len with
  | none => rfl
  | some b =>
    rw [hb] at h
    cases h

lemma readAt_ok {b : Bytes} (h : vm.readAt addr len = some (.ok b)) : vm.readBytes addr len = some b := by
  obtain ⟨-, h⟩ := ite_none_right_eq_some.1 h
  cases hb : vm.readBytes addr len with
  | none =>
    rw [hb] at h
    cases h
  | some b' =>
    rw [hb] at h
    cases h
    rfl

lemma orFault_error {α : Type} {f : Bytes → Option (Except ErrorKind α × CpuState n)}
    (h : s.orFault (vm.readAt addr len) f = some (.error e, s')) :
    vm.readBytes addr len = none ∧ s' = s ∨
      ∃ b, vm.readBytes addr len = some b ∧ f b = some (.error e, s') := by
  unfold CpuState.orFault at h
  split at h
  · cases h
  · rename_i hr
    cases h
    exact .inl ⟨readAt_error hr, rfl⟩
  · rename_i b hr
    exact .inr ⟨b, readAt_ok hr, h⟩

lemma orFault_ok {α : Type} {v : α} {f : Bytes → Option (Except ErrorKind α × CpuState n)}
    (h : s.orFault (vm.readAt addr len) f = some (.ok v, s')) :
    ∃ b, vm.readBytes addr len = some b ∧ f b = some (.ok v, s') := by
  unfold CpuState.orFault at h
  split at h
  · cases h
  · cases h
  · rename_i b hr
    exact ⟨b, readAt_ok hr, h⟩

lemma setXsave_eq {xsave : Bytes} {r : Except ErrorKind Unit} (h : s.setXsave xsave = some (r, s')) :
    r = .ok () ∧ ∃ hx, s' = { s with xsaveArea := ⟨xsave, hx⟩ } := by
  unfold CpuState.setXsave at h
  split at h
  · rename_i hx
    cases h
    exact ⟨rfl, hx, rfl⟩
  · cases h

lemma loadFpstate_ok {fpstate : Nat} (h : s.loadFpstate vm present fpstate abi = some (.ok (), s')) :
    ∃ x hx, loadXsave vm fpstate abi n = some x ∧ s' = { s with xsaveArea := ⟨x, hx⟩ } := by
  cases abi with
  | i386 =>
    obtain ⟨header, hheader, h⟩ := orFault_ok h
    obtain ⟨xsave, hxsave, h⟩ := orFault_ok h
    obtain ⟨-, hx, rfl⟩ := setXsave_eq h
    exact ⟨_, hx, by simp [loadXsave, hheader, hxsave], rfl⟩
  | amd64 =>
    obtain ⟨xsave, hxsave, h⟩ := orFault_ok h
    obtain ⟨-, hx, rfl⟩ := setXsave_eq h
    exact ⟨_, hx, by simp [loadXsave, hxsave], rfl⟩

/-- A return that succeeds is that of `finishSignalHandler`. -/
lemma finish_ok {stack : Stack} {sigmask : BitVec 64} (h : s.finish vm present abi = some (.ok (stack, sigmask), s')) :
    s.finishSignalHandler vm abi = some (s', stack, sigmask) := by
  obtain ⟨hlt, h⟩ := ite_none_right_eq_some.1 h
  obtain ⟨ptr, hptr, h⟩ := orFault_ok h
  obtain ⟨bytes, hbytes, h⟩ := orFault_ok h
  unfold CpuState.finishSignalHandler
  rw [if_pos hlt]
  simp only [hptr, hbytes, bind_eq_bind, bind_some]
  cases hu : UContext.ofBytes bytes abi with
  | none =>
    rw [hu] at h
    cases h
  | some u =>
    simp only [hu] at h
    split at h
    · rename_i hnull
      cases h
      simp only [bind_some, if_pos hnull]
    rename_i hnull
    obtain ⟨⟨r, s1⟩, hload, h⟩ := map_eq_some_iff.1 h
    cases r with
    | error e => cases h
    | ok v =>
      cases h
      obtain ⟨x, hx, hxsave, rfl⟩ := loadFpstate_ok hload
      simp only [bind_some, if_neg hnull, hxsave, dif_pos hx]

lemma torn_xsaveArea : (s.torn vm present addr).xsaveArea = s.xsaveArea ↔
    readMem vm.mem addr (copied present addr n) = s.xsaveArea.1.take (copied present addr n) := by
  rw [Subtype.ext_iff]
  simp only [CpuState.torn, splice, take_zero, nil_append, readMem_length, Nat.zero_add]
  have hsplit := take_append_drop (copied present addr n) s.xsaveArea.1
  constructor
  · exact fun h => append_cancel_right (h.trans hsplit.symm)
  · intro h
    rw [h, hsplit]

/-- After an error the registers are as they were, and of the xsave area all but what was copied. -/
lemma loadFpstate_error {u : UContext}
    (h : s.loadFpstate vm present u.mcontext.fpstate.toNat abi = some (.error e, s')) :
    s'.registers = s.registers ∧ (s'.xsaveArea = s.xsaveArea ↔ ∀ x, u.xsaveAt vm abi = some x →
      readMem vm.mem x (copied present x n) = s.xsaveArea.1.take (copied present x n)) := by
  cases abi with
  | i386 =>
    simp only [UContext.xsaveAt]
    rcases orFault_error h with ⟨hb, rfl⟩ | ⟨header, hb, h⟩
    · simp [hb]
    rcases orFault_error h with ⟨-, rfl⟩ | ⟨xsave, -, h⟩
    · simp only [hb, Option.map_some, some.injEq, forall_eq']
      exact ⟨rfl, torn_xsaveArea⟩
    · cases (setXsave_eq h).1
  | amd64 =>
    simp only [UContext.xsaveAt, some.injEq, forall_eq']
    rcases orFault_error h with ⟨-, rfl⟩ | ⟨xsave, -, h⟩
    · exact ⟨rfl, torn_xsaveArea⟩
    · cases (setXsave_eq h).1

end

/-- A return that succeeds is that of `finishSignalHandler`. One that fails leaves the mask and the alternate stack; it
leaves the registers and the extended state exactly if the context cannot be read, or it has the registers of the
thread and the bytes copied before the fault, if any, are those of the xsave area. -/
theorem failed_sigreturn_iff (t : Thread n) (present : Nat → Bool) (abi : Abi) :
    (∀ t', t.sigreturn present abi = some (.ok (), t') →
      t.cpu.finishSignalHandler t.vm abi = some (t'.cpu, t'.sigaltstack, t'.sigmask)) ∧
    (∀ e t', t.sigreturn present abi = some (.error e, t') → t'.sigmask = t.sigmask ∧ t'.sigaltstack = t.sigaltstack) ∧
    ∀ e t', t.sigreturn present abi = some (.error e, t') →
      (t'.cpu.registers = t.cpu.registers ∧ t'.cpu.xsaveArea = t.cpu.xsaveArea ↔
        ∀ u, t.cpu.context t.vm abi = some u → (t.cpu.loadSigContext u.mcontext).registers = t.cpu.registers ∧
          ∀ x, u.xsaveAt t.vm abi = some x →
            readMem t.vm.mem x (copied present x n) = t.cpu.xsaveArea.1.take (copied present x n)) := by
  have hfinish : ∀ e t', t.sigreturn present abi = some (.error e, t') →
      ∃ cpu, t.cpu.finish t.vm present abi = some (.error e, cpu) ∧ t' = { t with cpu } := by
    intro e t' h
    obtain ⟨⟨r, cpu⟩, hf, h⟩ := map_eq_some_iff.1 h
    cases r with
    | error e' =>
      cases h
      exact ⟨cpu, hf, rfl⟩
    | ok v => cases h
  refine ⟨fun t' h => ?_, fun e t' h => ?_, fun e t' h => ?_⟩
  · obtain ⟨⟨r, cpu⟩, hf, h⟩ := map_eq_some_iff.1 h
    cases r with
    | error e => cases h
    | ok v =>
      cases h
      exact finish_ok hf
  · obtain ⟨cpu, -, rfl⟩ := hfinish e t' h
    exact ⟨rfl, rfl⟩
  obtain ⟨cpu, hf, rfl⟩ := hfinish e t' h
  obtain ⟨-, hf⟩ := ite_none_right_eq_some.1 hf
  unfold CpuState.context
  rcases orFault_error hf with ⟨hptr, rfl⟩ | ⟨ptr, hptr, hf⟩
  · simp [hptr]
  rcases orFault_error hf with ⟨hbytes, rfl⟩ | ⟨bytes, hbytes, hf⟩
  · simp [hptr, hbytes]
  simp only [hptr, hbytes, bind_eq_bind, bind_some]
  cases hu : UContext.ofBytes bytes abi with
  | none =>
    rw [hu] at hf
    cases hf
    simp
  | some u =>
    simp only [hu] at hf
    split at hf
    · cases hf
    obtain ⟨⟨r, s'⟩, hload, hf⟩ := map_eq_some_iff.1 hf
    cases r with
    | ok v => cases hf
    | error e' =>
      cases hf
      obtain ⟨hregs, hxsave⟩ := loadFpstate_error hload
      simp only [some.injEq, forall_eq', hregs]
      exact and_congr_right fun _ => hxsave

/-- A context in the middle of the bytes it names as its extended state, and nothing behind it. -/
def tornProgram : Thread 512 :=
  { program with vm := ⟨fun a => if a % 8 = 1 then 1 else 0, fun a => a < 0x230 || 0x7000 ≤ a, fun _ => false, nofun⟩ }

/-- The program counter is lost, and the extended state is torn. -/
theorem sigreturn_tears : (tornProgram.sigreturn (fun a => a < 0x230) .amd64).any fun r =>
    !r.1.isOk && r.2.cpu.registers.rip != tornProgram.cpu.registers.rip &&
      r.2.cpu.xsaveArea != tornProgram.cpu.xsaveArea := by
  decide +kernel

end

end Mushroom.L6.Signal
