import Mushroom.L6Process.SignalFrame

/-!
# Deliveries and returns

The live frames are a stack: a delivery pushes its frame together with the state
it interrupted, the matching `rt_sigreturn` pops it. A frame is `Intact` if what
the return reads is what the delivery stored.

A delivery to an enabled alternate stack starts from its end, whether or not the
stack is in use, and overwrites the frames there (`alternate_stack_in_use`). If
no delivery meets a live frame, every return restores what was interrupted.
-/
namespace Mushroom.L6.Signal
open List Option
open BitVec (ofNat ofNat_toNat setWidth_eq toNat_ofNat)

open L2 (Abi)

/-! ## Memory -/

section

variable {vm vm' : Vm} {addr : Nat}

lemma Vm.readBytes_eq {len : Nat} (h : ∀ i < len, vm.readable (addr + i) = true) :
    vm.readBytes addr len = some (readMem vm.mem addr len) :=
  if_pos (all_eq_true.2 fun i hi => h i (mem_range.1 hi))

/-- What stores leave: the bytes, and the addresses as they were. -/
lemma Vm.writeAll_eq {ws : List (Nat × Bytes)} (h : vm.writeAll ws = some vm') :
    vm'.mem = stores vm.mem ws ∧ vm'.readable = vm.readable ∧
      ∀ w ∈ ws, ∀ i < w.2.length, vm.readable (w.1 + i) = true := by
  induction ws generalizing vm with
  | nil =>
    cases h
    exact ⟨rfl, rfl, fun w hw => nomatch hw⟩
  | cons w ws ih =>
    obtain ⟨vm1, hw, hws⟩ := bind_eq_some_iff.1 h
    obtain ⟨hall, hvm⟩ := ite_none_right_eq_some.1 hw
    cases hvm
    obtain ⟨hmem, hread, hrest⟩ := ih hws
    refine ⟨hmem, hread, fun v hv i hi => ?_⟩
    rcases mem_cons.1 hv with rfl | hv
    · exact vm.readable_of_writable _ (all_eq_true.1 hall i (mem_range.2 hi))
    · exact hrest v hv i hi

end

/-! ## Where the parts lie -/

/-- The parts of a frame lie one below the other. -/
structure Frame.Laid (f : Frame) (n : Nat) : Prop where
  sigInfo : f.sigInfoPtr + SigInfo.size = f.top
  fpstate : f.fpstatePtr + extendedSize n f.abi = f.sigInfoPtr
  ucontext : f.ucontextPtr + UContext.size f.abi = f.fpstatePtr
  args : f.args + 16 ≤ f.ucontextPtr
  bottom : f.bottom + pointerSize f.abi = f.args

lemma checkedSub_eq {a b c : Nat} (h : checkedSub a b = some c) : c + b = a := by
  obtain ⟨hle, h⟩ := ite_none_right_eq_some.1 h
  cases h
  exact Nat.sub_add_cancel hle

lemma alignDown_le (a : Nat) : alignDown a ≤ a := Nat.div_mul_le_self a 16

lemma le_alignDown (a : Nat) : a ≤ alignDown a + 15 := by
  unfold alignDown
  omega

/-- The signal information, the extended state and the context. -/
def frameRoom (abi : Abi) (n : Nat) : Nat := SigInfo.size + extendedSize n abi + UContext.size abi

/-- Where the context of a frame goes that starts at `start`. -/
def contextAt (abi : Abi) (n start : Nat) : Nat := alignDown start - frameRoom abi n

def Frame.below (abi : Abi) (n start : Nat) : Frame where
  abi := abi
  top := alignDown start
  sigInfoPtr := alignDown start - SigInfo.size
  fpstatePtr := alignDown start - SigInfo.size - extendedSize n abi
  ucontextPtr := contextAt abi n start
  args := alignDown (contextAt abi n start) - 16
  bottom := alignDown (contextAt abi n start) - 16 - pointerSize abi

/-- The parts, the pointer or the arguments, the restorer and what is lost to the alignment. -/
def frameBound (abi : Abi) (n : Nat) : Nat := frameRoom abi n + 16 + pointerSize abi + 30

variable {abi : Abi} {n start a : Nat} {f : Frame} {post : List (Nat × Bytes)}

lemma pointerSize_le (abi : Abi) : pointerSize abi ≤ 8 := by cases abi <;> decide

lemma checkedSub_of_le {a b : Nat} (h : b ≤ a) : checkedSub a b = some (a - b) := if_pos h

lemma le_alignDown_iff {b c : Nat} (h : b = c / 16 * 16) : b ≤ alignDown a ↔ b ≤ a := by
  unfold alignDown
  omega

/-- A frame has a place exactly if there is room for its parts and 32 bytes for the rest. -/
lemma Frame.place_eq_some :
    Frame.place abi n start = some f ↔ frameRoom abi n + 32 ≤ alignDown start ∧ f = Frame.below abi n start := by
  have hsize : pointerSize abi ≤ 8 := pointerSize_le abi
  constructor
  · intro h
    obtain ⟨si, hsi, h⟩ := bind_eq_some_iff.1 h
    obtain ⟨fp, hfp, h⟩ := bind_eq_some_iff.1 h
    obtain ⟨uc, huc, h⟩ := bind_eq_some_iff.1 h
    obtain ⟨args, hargs, h⟩ := bind_eq_some_iff.1 h
    obtain ⟨bottom, hb, h⟩ := bind_eq_some_iff.1 h
    cases h
    have h1 := checkedSub_eq hsi
    have h2 := checkedSub_eq hfp
    have h3 := checkedSub_eq huc
    have h4 := checkedSub_eq hb
    have h5 : args + 16 = alignDown uc := by
      cases abi with
      | i386 =>
        obtain ⟨rsp, hrsp, hargs⟩ := bind_eq_some_iff.1 hargs
        have h6 := checkedSub_eq hrsp
        have h7 := checkedSub_eq hargs
        omega
      | amd64 => exact checkedSub_eq hargs
    have hpos : 0 < pointerSize abi := by cases abi <;> decide
    have hroom : 32 ≤ uc := by
      unfold alignDown at h5
      omega
    obtain rfl : uc = contextAt abi n start := by
      unfold contextAt frameRoom
      omega
    refine ⟨?_, ?_⟩
    · unfold contextAt frameRoom at *
      omega
    simp only [Frame.below, Frame.mk.injEq, true_and]
    omega
  · rintro ⟨hroom, rfl⟩
    have huc : 32 ≤ contextAt abi n start := by
      unfold contextAt
      omega
    have halign : 32 ≤ alignDown (contextAt abi n start) := (le_alignDown_iff (c := 32) rfl).2 huc
    have hargs : argsOf (contextAt abi n start) abi = some (alignDown (contextAt abi n start) - 16) := by
      cases abi with
      | i386 =>
        simp only [argsOf, checkedSub_of_le (show 4 ≤ alignDown (contextAt .i386 n start) by omega), bind_some]
        rw [checkedSub_of_le (by omega), Nat.sub_sub]
      | amd64 => exact checkedSub_of_le (by omega)
    have hcontext : alignDown start - SigInfo.size - extendedSize n abi - UContext.size abi =
        contextAt abi n start := by
      unfold contextAt frameRoom
      omega
    unfold frameRoom at hroom
    simp only [Frame.place, checkedSub_of_le (show SigInfo.size ≤ alignDown start by omega),
      checkedSub_of_le (show extendedSize n abi ≤ alignDown start - SigInfo.size by omega),
      checkedSub_of_le (show UContext.size abi ≤ alignDown start - SigInfo.size - extendedSize n abi by omega),
      hcontext, hargs, checkedSub_of_le (show pointerSize abi ≤ alignDown (contextAt abi n start) - 16 by omega),
      bind_eq_bind, bind_some]
    rfl

lemma Frame.place_laid (h : Frame.place abi n start = some f) :
    f.Laid n ∧ f.abi = abi ∧ f.top ≤ start ∧ start ≤ f.bottom + frameBound abi n := by
  obtain ⟨hroom, rfl⟩ := Frame.place_eq_some.1 h
  have hsize := pointerSize_le abi
  have hstart := le_alignDown start
  have halign := le_alignDown (contextAt abi n start)
  have hle := alignDown_le (contextAt abi n start)
  have huc : 32 ≤ alignDown (contextAt abi n start) := (le_alignDown_iff (c := 32) rfl).2 (by unfold contextAt; omega)
  have hcontext : contextAt abi n start + frameRoom abi n = alignDown start := by
    unfold contextAt
    omega
  unfold frameRoom at hcontext hroom
  refine ⟨⟨?_, ?_, ?_, ?_, ?_⟩, rfl, alignDown_le start, ?_⟩ <;>
    simp only [Frame.below, frameBound, frameRoom] <;> omega

lemma startOf_lt {rsp : BitVec 64} {sigaction : Sigaction} {stack : Stack}
    (h : startOf rsp sigaction stack = some start) : start < 2 ^ 64 := by
  unfold startOf at h
  split at h
  · obtain ⟨hlt, h⟩ := ite_none_right_eq_some.1 h
    cases h
    exact hlt
  · have hsub := checkedSub_eq h
    omega

/-! ## What is stored is read -/

section

lemma sigInfo_length (i : SigInfo) (abi : Abi) : (i.bytes abi).length = SigInfo.size := by
  cases abi <;> cases hf : i.fields <;> simp [SigInfo.bytes, SigInfo.size, hf, pad_length]

variable {xsave b : Bytes} {abi : Abi}

lemma header_length (h : 512 ≤ xsave.length) : (Fpstate32Header.new xsave).bytes.length = Fpstate32Header.size := by
  simp only [Fpstate32Header.bytes, Fpstate32Header.new, Fpstate32Header.size, length_append, pack_length,
    map_cons, map_nil, sum_cons, sum_nil, slice_length]
  omega

lemma fpxSwBytes_length (a b : Nat) : (fpxSwBytes a b).length = 48 := by simp [fpxSwBytes]

lemma pointerBytes_eq {ptr : Nat} (h : pointerBytes ptr abi = some b) : b = leBytes (pointerSize abi) ptr := by
  cases abi with
  | i386 =>
    obtain ⟨-, h⟩ := ite_none_right_eq_some.1 h
    cases h
    rfl
  | amd64 =>
    cases h
    rfl

lemma pointerBytes_length {ptr : Nat} (h : pointerBytes ptr abi = some b) : b.length = pointerSize abi := by
  rw [pointerBytes_eq h, leBytes_length]

lemma ucontext_length {u : UContext} (h : u.bytes abi = some b) : b.length = UContext.size abi := by
  cases abi with
  | i386 =>
    obtain ⟨fs, hfs, rfl⟩ := map_eq_some_iff.1 h
    obtain ⟨-, hfs⟩ := ite_none_right_eq_some.1 hfs
    cases hfs
    rw [pack_length]
    rfl
  | amd64 =>
    cases h
    rw [pack_length]
    rfl

/-- The xsave bytes with the bytes reserved for software filled in. -/
def filled (xsave : Bytes) (abi : Abi) : Bytes :=
  splice xsave 0x1a0 (fpxSwBytes (extendedSize xsave.length abi) xsave.length)

/-- The xsave bytes are stored, then some of them are replaced. -/
lemma readMem_filled {size addr : Nat} (hlen : 512 ≤ xsave.length)
    (hpost : ∀ w ∈ post, addr + xsave.length ≤ w.1 ∨ w.1 + w.2.length ≤ addr) (mem : Nat → UInt8) :
    readMem (stores mem (xsaveStores xsave size addr ++ post)) addr xsave.length =
      splice xsave 0x1a0 (fpxSwBytes size xsave.length) := by
  have hsw := fpxSwBytes_length size xsave.length
  show readMem (stores (writeMem (writeMem mem addr xsave) (addr + 0x1a0) (fpxSwBytes size xsave.length))
    ((addr + xsave.length, fpXstateMagic2) :: post)) addr xsave.length = _
  rw [readMem_stores]
  · exact readMem_writeMem_splice (by omega) (readMem_writeMem mem addr xsave)
  intro w hw
  rcases mem_cons.1 hw with rfl | hw
  · exact .inl (Nat.le_refl _)
  · exact hpost w hw

section

variable {n : Nat} {s : CpuState n} {f : Frame} {sigInfo : SigInfo} {sigaction : Sigaction} {stack : Stack}
  {sigmask : BitVec 64} {ws : List (Nat × Bytes)} {ub restorer : Bytes} {w : Nat × Bytes}

/-- What a return reads of a frame. -/
structure Frame.Contents (f : Frame) (xsave ub : Bytes) (mem : Nat → UInt8) : Prop where
  pointer : readMem mem (f.args + 8) (pointerSize f.abi) = leBytes (pointerSize f.abi) f.ucontextPtr
  ucontext : readMem mem f.ucontextPtr (UContext.size f.abi) = ub
  header : f.abi = .i386 → readMem mem f.fpstatePtr Fpstate32Header.size = (Fpstate32Header.new xsave).bytes
  xsave : readMem mem (f.fpstatePtr + (extendedSize xsave.length f.abi - (xsave.length + 4))) xsave.length =
    filled xsave f.abi

lemma frameStores_eq (h : s.frameStores f sigInfo sigaction stack sigmask = some ws) :
    ∃ ub args restorer, UContext.bytes ⟨stack, s.createSigContext (.ofNat 64 f.fpstatePtr), sigmask⟩ f.abi = some ub ∧
      argStores f sigInfo = some args ∧ restorer.length = pointerSize f.abi ∧
      ws = (f.sigInfoPtr, sigInfo.bytes f.abi) :: (fpstateStores s.xsaveArea.1 f.fpstatePtr f.abi ++
        (f.ucontextPtr, ub) :: (args ++ [(f.bottom, restorer)])) := by
  obtain ⟨ub, hub, h⟩ := bind_eq_some_iff.1 h
  obtain ⟨args, hargs, h⟩ := bind_eq_some_iff.1 h
  obtain ⟨restorer, hres, h⟩ := bind_eq_some_iff.1 h
  cases h
  exact ⟨ub, args, restorer, hub, hargs, pointerBytes_length hres, rfl⟩

variable {args pre : List (Nat × Bytes)}

/-- The stores below the context end below it, and the pointer to it is the
first of them. -/
lemma argStores_eq (h : argStores f sigInfo = some args) :
    ∃ rest, args = (f.args + 8, leBytes (pointerSize f.abi) f.ucontextPtr) :: rest ∧
      ∀ w ∈ rest, f.args ≤ w.1 ∧ w.1 + w.2.length ≤ f.args + 8 := by
  unfold argStores at h
  cases habi : f.abi with
  | i386 =>
    rw [habi] at h
    obtain ⟨up, hup, h⟩ := bind_eq_some_iff.1 h
    obtain ⟨ip, hip, h⟩ := bind_eq_some_iff.1 h
    cases h
    refine ⟨_, by rw [pointerBytes_eq hup], fun w hw => ?_⟩
    have hlen := pointerBytes_length hip
    rcases mem_cons.1 hw with rfl | hw
    · simp only [hlen, pointerSize]
      omega
    rw [mem_singleton.1 hw]
    simp only [leBytes_length]
    omega
  | amd64 =>
    rw [habi] at h
    obtain ⟨up, hup, h⟩ := bind_eq_some_iff.1 h
    cases h
    exact ⟨[], by rw [pointerBytes_eq hup], fun w hw => nomatch hw⟩

/-- The stores of the extended state lie between the context and the signal
information. -/
lemma fpstateStores_within (hn : 512 ≤ s.xsaveArea.1.length) (hw : w ∈ fpstateStores s.xsaveArea.1 f.fpstatePtr f.abi) :
    f.fpstatePtr ≤ w.1 ∧ w.1 + w.2.length ≤ f.fpstatePtr + extendedSize s.xsaveArea.1.length f.abi := by
  have hxs : ∀ size addr, w ∈ xsaveStores s.xsaveArea.1 size addr →
      addr ≤ w.1 ∧ w.1 + w.2.length ≤ addr + (s.xsaveArea.1.length + 4) := fun size addr hw => by
    have hsw := fpxSwBytes_length size s.xsaveArea.1.length
    have hmagic : fpXstateMagic2.length = 4 := leBytes_length ..
    simp only [xsaveStores, mem_cons, not_mem_nil, or_false] at hw
    rcases hw with rfl | rfl | rfl <;> simp only <;> omega
  cases habi : f.abi with
  | i386 =>
    rw [habi] at hw
    simp only [extendedSize]
    rcases mem_cons.1 hw with rfl | hw
    · have hlen := header_length hn
      simp only
      omega
    · have h := hxs _ _ hw
      omega
  | amd64 =>
    rw [habi] at hw
    exact hxs _ _ hw

/-- The stores that follow the context lie below it. -/
lemma below_ucontext (hl : f.Laid n)
    (hargs : argStores f sigInfo = some args) (hres : restorer.length = pointerSize f.abi)
    (hw : w ∈ args ++ [(f.bottom, restorer)]) : f.bottom ≤ w.1 ∧ w.1 + w.2.length ≤ f.ucontextPtr := by
  obtain ⟨rest, rfl, hrest⟩ := argStores_eq hargs
  have hsize := pointerSize_le f.abi
  have h1 := hl.args
  have h2 := hl.bottom
  rcases mem_append.1 hw with hw | hw
  · rcases mem_cons.1 hw with rfl | hw
    · simp only [leBytes_length]
      omega
    · have h := hrest w hw
      omega
  · rw [mem_singleton.1 hw]
    simp only [hres]
    omega

/-- The bytes that are stored: from the context up, and below it the restorer and the arguments or the pointer. -/
def Frame.Stores (f : Frame) (a : Nat) : Prop :=
  f.ucontextPtr ≤ a ∧ a < f.top ∨ f.bottom ≤ a ∧ a < f.args ∨
    match f.abi with
    | .i386 => f.args ≤ a ∧ a < f.args + 12
    | .amd64 => f.args + 8 ≤ a ∧ a < f.args + 16

lemma argStores_covers (h : argStores f sigInfo = some args) :
    (∃ w ∈ args, w.1 ≤ a ∧ a < w.1 + w.2.length) ↔
      match f.abi with
      | .i386 => f.args ≤ a ∧ a < f.args + 12
      | .amd64 => f.args + 8 ≤ a ∧ a < f.args + 16 := by
  unfold argStores at h
  cases habi : f.abi with
  | i386 =>
    rw [habi] at h
    obtain ⟨up, hup, h⟩ := bind_eq_some_iff.1 h
    obtain ⟨ip, hip, h⟩ := bind_eq_some_iff.1 h
    cases h
    have h1 : up.length = 4 := pointerBytes_length hup
    have h2 : ip.length = 4 := pointerBytes_length hip
    simp only [exists_mem_cons_iff, h1, h2, leBytes_length, not_mem_nil, false_and, exists_false, or_false]
    omega
  | amd64 =>
    rw [habi] at h
    obtain ⟨up, hup, h⟩ := bind_eq_some_iff.1 h
    cases h
    have h1 : up.length = 8 := pointerBytes_length hup
    simp only [exists_mem_cons_iff, h1, not_mem_nil, false_and, exists_false, or_false]

/-- The xsave bytes and the magic fill the addresses between them. -/
lemma mem_xsaveStores {xsave : Bytes} {size addr a : Nat} (hlo : addr ≤ a) (hhi : a < addr + (xsave.length + 4)) :
    ∃ w ∈ xsaveStores xsave size addr, w.1 ≤ a ∧ a < w.1 + w.2.length := by
  by_cases hx : a < addr + xsave.length
  · exact ⟨(addr, xsave), mem_cons_self, hlo, hx⟩
  refine ⟨(addr + xsave.length, fpXstateMagic2), by simp [xsaveStores], ?_, ?_⟩
  · omega
  have hmagic : fpXstateMagic2.length = 4 := leBytes_length ..
  simp only [hmagic]
  omega

lemma mem_fpstateStores {xsave : Bytes} {abi : Abi} {addr a : Nat} (hn : 512 ≤ xsave.length) (hlo : addr ≤ a)
    (hhi : a < addr + extendedSize xsave.length abi) :
    ∃ w ∈ fpstateStores xsave addr abi, w.1 ≤ a ∧ a < w.1 + w.2.length := by
  cases abi with
  | i386 =>
    simp only [extendedSize] at hhi
    by_cases hh : a < addr + Fpstate32Header.size
    · refine ⟨(addr, (Fpstate32Header.new xsave).bytes), mem_cons_self, hlo, ?_⟩
      simp only [header_length hn]
      exact hh
    · obtain ⟨w, hw, hin⟩ := @mem_xsaveStores xsave (extendedSize xsave.length .i386) (addr + Fpstate32Header.size) a
        (by omega) (by omega)
      exact ⟨w, mem_cons_of_mem _ hw, hin⟩
  | amd64 => exact mem_xsaveStores hlo hhi

lemma fpstateStores_covers (hn : 512 ≤ n) :
    (∃ w ∈ fpstateStores s.xsaveArea.1 f.fpstatePtr f.abi, w.1 ≤ a ∧ a < w.1 + w.2.length) ↔
      f.fpstatePtr ≤ a ∧ a < f.fpstatePtr + extendedSize n f.abi := by
  have hlen := s.xsaveArea.2
  constructor
  · rintro ⟨w, hw, hlo, hhi⟩
    have hin := fpstateStores_within (hlen.symm ▸ hn) hw
    rw [hlen] at hin
    omega
  · rintro ⟨hlo, hhi⟩
    exact mem_fpstateStores (hlen.symm ▸ hn) hlo (hlen.symm ▸ hhi)

lemma frameStores_covers (hl : f.Laid n) (hn : 512 ≤ n)
    (h : s.frameStores f sigInfo sigaction stack sigmask = some ws) :
    (∃ w ∈ ws, w.1 ≤ a ∧ a < w.1 + w.2.length) ↔ f.Stores a := by
  obtain ⟨ub, args, restorer, hub, hargs, hres, rfl⟩ := frameStores_eq h
  have hub := ucontext_length hub
  have ⟨h1, h2, h3, _, h5⟩ := hl
  simp only [mem_cons, mem_append, or_and_right, exists_or, exists_eq_left, fpstateStores_covers hn,
    argStores_covers hargs, sigInfo_length, hub, hres, not_mem_nil, or_false, Frame.Stores]
  cases habi : f.abi <;> rw [habi] at h2 h3 h5 <;> simp only <;> omega

lemma Frame.Stores.within (hl : f.Laid n) (h : f.Stores a) : f.bottom ≤ a ∧ a < f.top := by
  have ⟨h1, h2, h3, h4, h5⟩ := hl
  have hsize := pointerSize_le f.abi
  unfold Frame.Stores at h
  cases habi : f.abi <;> rw [habi] at h <;> simp only at h <;> omega

/-- The pointer and the context when all is stored. -/
lemma context_of_stores (hl : f.Laid n)
    (hargs : argStores f sigInfo = some args) (hres : restorer.length = pointerSize f.abi)
    (hub : ub.length = UContext.size f.abi) (hws : ws = pre ++ (f.ucontextPtr, ub) :: (args ++ [(f.bottom, restorer)]))
    (mem : Nat → UInt8) :
    readMem (stores mem ws) (f.args + 8) (pointerSize f.abi) = leBytes (pointerSize f.abi) f.ucontextPtr ∧
      readMem (stores mem ws) f.ucontextPtr (UContext.size f.abi) = ub := by
  refine ⟨?_, ?_⟩
  · obtain ⟨rest, rfl, hrest⟩ := argStores_eq hargs
    have hsplit : ws = (pre ++ [(f.ucontextPtr, ub)]) ++
        (f.args + 8, leBytes (pointerSize f.abi) f.ucontextPtr) :: (rest ++ [(f.bottom, restorer)]) := by
      rw [hws, append_assoc]
      rfl
    have hptr := readMem_stores_split hsplit (fun w hw => ?_) mem
    · rwa [leBytes_length] at hptr
    rcases mem_append.1 hw with hw | hw
    · exact .inr (hrest w hw).2
    have hbottom := hl.bottom
    rw [mem_singleton.1 hw]
    simp only [hres]
    omega
  · have huc := readMem_stores_split hws (fun w hw => .inr (below_ucontext hl hargs hres hw).2) mem
    rwa [hub] at huc

lemma fpstate_of_stores (hlen : 512 ≤ xsave.length)
    (hpost : ∀ w ∈ post, w.1 + w.2.length ≤ f.fpstatePtr) (mem : Nat → UInt8) :
    (f.abi = .i386 → readMem (stores mem (fpstateStores xsave f.fpstatePtr f.abi ++ post)) f.fpstatePtr
        Fpstate32Header.size = (Fpstate32Header.new xsave).bytes) ∧
      readMem (stores mem (fpstateStores xsave f.fpstatePtr f.abi ++ post))
        (f.fpstatePtr + (extendedSize xsave.length f.abi - (xsave.length + 4))) xsave.length = filled xsave f.abi := by
  have hheader := header_length hlen
  cases habi : f.abi with
  | i386 =>
    have hsize : extendedSize xsave.length .i386 - (xsave.length + 4) = Fpstate32Header.size := by
      simp only [extendedSize]
      omega
    refine ⟨fun _ => ?_, ?_⟩
    · have hsplit : fpstateStores xsave f.fpstatePtr .i386 ++ post =
          [] ++ (f.fpstatePtr, (Fpstate32Header.new xsave).bytes) ::
            (xsaveStores xsave (extendedSize xsave.length .i386) (f.fpstatePtr + Fpstate32Header.size) ++ post) := rfl
      have h := readMem_stores_split hsplit (fun w hw => ?_) mem
      · rwa [hheader] at h
      rcases mem_append.1 hw with hw | hw
      · rw [hheader]
        simp only [xsaveStores, mem_cons, not_mem_nil, or_false] at hw
        rcases hw with rfl | rfl | rfl <;> simp only <;> omega
      · exact .inr (hpost w hw)
    · rw [hsize]
      refine readMem_filled hlen (fun w hw => ?_) (writeMem mem f.fpstatePtr (Fpstate32Header.new xsave).bytes)
      have h := hpost w hw
      omega
  | amd64 =>
    have hsize : extendedSize xsave.length .amd64 - (xsave.length + 4) = 0 := by
      simp only [extendedSize]
      omega
    rw [hsize]
    exact ⟨nofun, readMem_filled hlen (fun w hw => .inr (hpost w hw)) mem⟩

lemma contents_of_stores (hl : f.Laid n) (hn : 512 ≤ n)
    (h : s.frameStores f sigInfo sigaction stack sigmask = some ws) (mem : Nat → UInt8) :
    ∃ ub, UContext.bytes ⟨stack, s.createSigContext (.ofNat 64 f.fpstatePtr), sigmask⟩ f.abi = some ub ∧
      f.Contents s.xsaveArea.1 ub (stores mem ws) := by
  obtain ⟨ub, args, restorer, hub, hargs, hres, rfl⟩ := frameStores_eq h
  have hlen := s.xsaveArea.2
  have hublen := ucontext_length hub
  have huc := hl.ucontext
  have hbelow : ∀ w ∈ (f.ucontextPtr, ub) :: (args ++ [(f.bottom, restorer)]), w.1 + w.2.length ≤ f.fpstatePtr := by
    intro w hw
    rcases mem_cons.1 hw with rfl | hw
    · simp only [hublen]
      omega
    · have h := below_ucontext hl hargs hres hw
      omega
  have hsplit : (f.sigInfoPtr, sigInfo.bytes f.abi) :: (fpstateStores s.xsaveArea.1 f.fpstatePtr f.abi ++
      (f.ucontextPtr, ub) :: (args ++ [(f.bottom, restorer)])) =
      ((f.sigInfoPtr, sigInfo.bytes f.abi) :: fpstateStores s.xsaveArea.1 f.fpstatePtr f.abi) ++
        (f.ucontextPtr, ub) :: (args ++ [(f.bottom, restorer)]) := rfl
  obtain ⟨hptr, hctx⟩ := context_of_stores hl hargs hres hublen hsplit mem
  obtain ⟨hheader, hxsave⟩ := fpstate_of_stores (hlen.symm ▸ hn) hbelow
    (writeMem mem f.sigInfoPtr (sigInfo.bytes f.abi))
  exact ⟨ub, hub, hptr, hctx, hheader, hxsave⟩

end

end

/-! ## Loading what was stored -/

section

/-- The general registers, the instruction pointer and the flags. -/
def Registers.general (r : Registers) : List (BitVec 64) :=
  [r.rax, r.rbx, r.rcx, r.rdx, r.rsi, r.rdi, r.rsp, r.rbp, r.r8, r.r9, r.r10, r.r11, r.r12, r.r13, r.r14, r.r15, r.rip,
    r.rflags]

def Registers.selectors (r : Registers) : List (BitVec 16) := [r.cs, r.ss, r.fs, r.gs]

/-- The state of a program in a 32-bit code segment: the registers it has are
those of the i386. -/
structure Registers.Narrow (r : Registers) : Prop where
  low : ∀ x ∈ [r.rax, r.rbx, r.rcx, r.rdx, r.rsi, r.rdi, r.rsp, r.rbp, r.rip, r.rflags], x.toNat < 2 ^ 32
  high : ∀ x ∈ [r.r8, r.r9, r.r10, r.r11, r.r12, r.r13, r.r14, r.r15], x = 0

/-- The state of the processor: all but the padding at the end of the `FXSave`. -/
def extended (xsave : Bytes) : Bytes := xsave.take 0x1a0 ++ xsave.drop 0x200

variable {n : Nat} {s : CpuState n} {stack : Stack} {sigmask fpstate x : BitVec 64} {ub xsave new : Bytes} {vm : Vm}
  {f : Frame}

lemma ofNat_field {w m : Nat} (x : BitVec w) (hm : 2 ^ w = m) : ofNat w (x.toNat % m) = x := by
  rw [← hm, Nat.mod_eq_of_lt x.isLt, ofNat_toNat, setWidth_eq]

lemma ofNat_field64 (x : BitVec 64) : ofNat 64 (x.toNat % 256 ^ 8) = x := ofNat_field x rfl

lemma ofNat_field32 (x : BitVec 32) : ofNat 32 (x.toNat % 256 ^ 4) = x := ofNat_field x rfl

lemma ofNat_field16 (x : BitVec 16) : ofNat 16 (x.toNat % 256 ^ 2) = x := ofNat_field x rfl

lemma ofNat_field_low (h : x.toNat < 2 ^ 32) : ofNat 64 (x.toNat % 256 ^ 4) = x := by
  have hlt : x.toNat < 256 ^ 4 := h
  rw [Nat.mod_eq_of_lt hlt, ofNat_toNat, setWidth_eq]

lemma low_eq (h : x.toNat < 2 ^ 32) : low x = x.toNat := Nat.mod_eq_of_lt h

lemma ofBytes_amd64 (h : UContext.bytes ⟨stack, s.createSigContext fpstate, sigmask⟩ .amd64 = some ub) :
    ∃ u, UContext.ofBytes ub .amd64 = some u ∧ u.stack = stack ∧ u.sigmask = sigmask ∧ u.mcontext.fpstate = fpstate ∧
      ∀ s' : CpuState n, (s'.loadSigContext u.mcontext).registers.general = s.registers.general ∧
        (s'.loadSigContext u.mcontext).registers.selectors = s.registers.selectors := by
  cases h
  have hunpack := unpack_pack (UContext.fields64 ⟨stack, s.createSigContext fpstate, sigmask⟩)
  have hw : (UContext.fields64 ⟨stack, s.createSigContext fpstate, sigmask⟩).map Prod.fst = UContext.widths64 := rfl
  rw [hw] at hunpack
  simp only [UContext.ofBytes]
  rw [hunpack]
  refine ⟨_, rfl, ?_, ofNat_field64 sigmask, ofNat_field64 fpstate, fun s' => ⟨?_, ?_⟩⟩
  · simp only [ofNat_field64, ofNat_field32]
  · simp only [CpuState.loadSigContext, Registers.general, CpuState.createSigContext, ofNat_field64]
  · simp only [CpuState.loadSigContext, Registers.selectors, CpuState.createSigContext, ofNat_field16]

lemma ofBytes_i386 (h : UContext.bytes ⟨stack, s.createSigContext fpstate, sigmask⟩ .i386 = some ub)
    (hnarrow : s.registers.Narrow) :
    ∃ u, UContext.ofBytes ub .i386 = some u ∧ u.stack = stack ∧ u.sigmask = sigmask ∧ u.mcontext.fpstate = fpstate ∧
      ∀ s' : CpuState n, (s'.loadSigContext u.mcontext).registers.general = s.registers.general ∧
        (s'.loadSigContext u.mcontext).registers.selectors = s.registers.selectors := by
  obtain ⟨fs, hfs, rfl⟩ := map_eq_some_iff.1 h
  obtain ⟨⟨hsp, hsize, hfp⟩, hfs⟩ := ite_none_right_eq_some.1 hfs
  have hw : fs.map Prod.fst = UContext.widths32 := by
    cases hfs
    rfl
  have hunpack := unpack_pack fs
  rw [hw] at hunpack
  simp only [UContext.ofBytes]
  rw [hunpack]
  cases hfs
  have hlow := hnarrow.low
  have hhigh := hnarrow.high
  simp only [forall_mem_cons, not_mem_nil, false_imp_iff, implies_true, and_true] at hlow hhigh
  obtain ⟨ha, hb, hc, hd, hsi, hdi, hsp', hbp, hip, hfl⟩ := hlow
  obtain ⟨h8, h9, h10, h11, h12, h13, h14, h15⟩ := hhigh
  refine ⟨_, rfl, ?_, ofNat_field64 sigmask, ofNat_field_low hfp, fun s' => ⟨?_, ?_⟩⟩
  · simp only [ofNat_field_low hsp, ofNat_field_low hsize, ofNat_field32]
  · simp only [CpuState.loadSigContext, Registers.general, CpuState.createSigContext, low_eq ha, low_eq hb, low_eq hc,
      low_eq hd, low_eq hsi, low_eq hdi, low_eq hsp', low_eq hbp, low_eq hip, low_eq hfl, ofNat_field_low ha,
      ofNat_field_low hb, ofNat_field_low hc, ofNat_field_low hd, ofNat_field_low hsi, ofNat_field_low hdi,
      ofNat_field_low hsp', ofNat_field_low hbp, ofNat_field_low hip, ofNat_field_low hfl, h8, h9, h10, h11, h12, h13,
      h14, h15]
  · simp only [CpuState.loadSigContext, Registers.selectors, CpuState.createSigContext, ofNat_field16]

/-! ### The extended state -/

lemma filled_length {xsave : Bytes} {abi : Abi} (h : 512 ≤ xsave.length) : (filled xsave abi).length = xsave.length :=
  splice_length (by rw [fpxSwBytes_length]; omega)

lemma extended_splice (h : 512 ≤ xsave.length) (hnew : 0x1a0 + new.length ≤ 0x200) :
    extended (splice xsave 0x1a0 new) = extended xsave := by
  unfold extended
  rw [splice_take (Nat.le_refl _) (by omega), splice_drop hnew (by omega)]

lemma header_ofBytes (h : 512 ≤ xsave.length) :
    Fpstate32Header.ofBytes (Fpstate32Header.new xsave).bytes = Fpstate32Header.new xsave := by
  have hst : (slice xsave 32 128).length = 128 := by
    rw [slice_length]
    omega
  have hdrop : ∀ (w v m : Nat) (b : Bytes), w ≤ m → (leBytes w v ++ b).drop m = b.drop (m - w) := fun w v m b hle => by
    rw [drop_append, drop_of_length_le (by rw [leBytes_length]; exact hle), leBytes_length, nil_append]
  have htake : ∀ (w v : Nat) (b : Bytes), (leBytes w v ++ b).take w = leBytes w v := fun w v b =>
    take_left' (leBytes_length w v)
  simp only [Fpstate32Header.ofBytes, Fpstate32Header.bytes, slice.eq_1 (_ ++ _), pack_cons, pack_nil, append_nil,
    append_assoc]
  simp only [hdrop, htake, drop_zero, Nat.reduceLeDiff, Nat.reduceSub]
  simp only [Fpstate32Header.new]
  rw [take_left' hst, drop_left' hst, htake]
  simp [leNat_leBytes_slice]

/-- The header has what the xsave bytes have, so that storing it back changes nothing. -/
lemma header_restore (h : 512 ≤ xsave.length) :
    (Fpstate32Header.new xsave).restore (splice xsave 0x1a0 new) = splice xsave 0x1a0 new := by
  have hslice : ∀ off len, off + len ≤ 0x1a0 → slice (splice xsave 0x1a0 new) off len = slice xsave off len :=
    fun off len hle => splice_slice hle (by omega)
  have hbytes : ∀ off len, off + len ≤ 160 → leBytes len (leNat (slice xsave off len)) = slice xsave off len :=
    fun off len hle => leBytes_slice (by omega)
  simp only [Fpstate32Header.restore, Fpstate32Header.new]
  rw [hbytes 0 2 (by decide), hbytes 2 2 (by decide), hbytes 4 1 (by decide), hbytes 8 4 (by decide),
    hbytes 12 4 (by decide), hbytes 16 4 (by decide), hbytes 20 4 (by decide), hslice 5 3 (by decide),
    hslice 24 8 (by decide), slice_append, slice_append xsave 0 4, slice_append xsave 0 5, slice_append xsave 0 8,
    slice_append xsave 0 12, slice_append xsave 0 16, slice_append xsave 0 20, slice_append xsave 0 24,
    slice_append xsave 0 32, ← hslice 0 160 (by decide), slice_zero, take_append_drop]

structure Frame.Readable (f : Frame) (vm : Vm) : Prop where
  pointer : ∀ i < pointerSize f.abi, vm.readable (f.args + 8 + i) = true
  rest : ∀ a, f.ucontextPtr ≤ a → a < f.sigInfoPtr → vm.readable a = true

lemma loadXsave_eq (hl : f.Laid xsave.length) (hn : 512 ≤ xsave.length) (hr : f.Readable vm)
    (hc : f.Contents xsave ub vm.mem) :
    ∃ x, loadXsave vm f.fpstatePtr f.abi xsave.length = some x ∧ x.length = xsave.length ∧
      extended x = extended xsave := by
  have hfp := hl.fpstate
  have huc := hl.ucontext
  have hread : ∀ off len, off + len ≤ extendedSize xsave.length f.abi →
      vm.readBytes (f.fpstatePtr + off) len = some (readMem vm.mem (f.fpstatePtr + off) len) := fun off len hle => by
    refine Vm.readBytes_eq fun i hi => hr.rest _ ?_ ?_
    · omega
    · omega
  have hsw := fpxSwBytes_length (extendedSize xsave.length f.abi) xsave.length
  have hxsave := hc.xsave
  unfold loadXsave
  cases habi : f.abi with
  | i386 =>
    rw [habi] at hread hxsave hsw
    have hsize : extendedSize xsave.length .i386 - (xsave.length + 4) = Fpstate32Header.size := by
      simp only [extendedSize]
      omega
    have hheader := hread 0 Fpstate32Header.size (by simp only [extendedSize]; omega)
    rw [Nat.add_zero, hc.header habi] at hheader
    have hbytes := hread Fpstate32Header.size xsave.length (by simp only [extendedSize]; omega)
    rw [hsize] at hxsave
    rw [hxsave] at hbytes
    simp only [hheader, hbytes, bind_eq_bind, bind_some, header_ofBytes hn]
    refine ⟨_, rfl, ?_, ?_⟩
    · rw [filled, header_restore hn]
      exact @filled_length xsave .i386 hn
    · rw [filled, header_restore hn]
      exact extended_splice hn (by omega)
  | amd64 =>
    rw [habi] at hread hxsave hsw
    have hsize : extendedSize xsave.length .amd64 - (xsave.length + 4) = 0 := by
      simp only [extendedSize]
      omega
    have hbytes := hread 0 xsave.length (by simp only [extendedSize]; omega)
    rw [hsize] at hxsave
    rw [hxsave, Nat.add_zero] at hbytes
    simp only [hbytes, bind_eq_bind, bind_some]
    have hlen : (filled xsave .amd64).length = xsave.length := filled_length hn
    refine ⟨_, rfl, ?_, ?_⟩
    · rw [splice_length (by rw [length_replicate]; omega), hlen]
    rw [extended_splice (by omega) (by rw [length_replicate])]
    exact extended_splice hn (by omega)

lemma ofBytes_eq {abi : Abi} (h : UContext.bytes ⟨stack, s.createSigContext fpstate, sigmask⟩ abi = some ub)
    (hnarrow : abi = .i386 → s.registers.Narrow) :
    ∃ u, UContext.ofBytes ub abi = some u ∧ u.stack = stack ∧ u.sigmask = sigmask ∧ u.mcontext.fpstate = fpstate ∧
      ∀ s' : CpuState n, (s'.loadSigContext u.mcontext).registers.general = s.registers.general ∧
        (s'.loadSigContext u.mcontext).registers.selectors = s.registers.selectors := by
  cases abi with
  | i386 => exact ofBytes_i386 h (hnarrow rfl)
  | amd64 => exact ofBytes_amd64 h

lemma ucontextPtr_lt (hl : f.Laid n) (hlt : f.top < 2 ^ 64)
    (h : UContext.bytes ⟨stack, s.createSigContext (.ofNat 64 f.fpstatePtr), sigmask⟩ f.abi = some ub) :
    f.ucontextPtr < 256 ^ pointerSize f.abi := by
  have ⟨h1, h2, h3, _, _⟩ := hl
  cases habi : f.abi with
  | i386 =>
    rw [habi] at h
    obtain ⟨fs, hfs, -⟩ := map_eq_some_iff.1 h
    obtain ⟨⟨-, -, hfp⟩, -⟩ := ite_none_right_eq_some.1 hfs
    have hfp' : (ofNat 64 f.fpstatePtr).toNat < 2 ^ 32 := hfp
    rw [toNat_ofNat, Nat.mod_eq_of_lt (by omega)] at hfp'
    show f.ucontextPtr < 2 ^ 32
    omega
  | amd64 =>
    show f.ucontextPtr < 2 ^ 64
    omega

/-- What a return leaves of the state. -/
structure Restores (s saved : CpuState n) : Prop where
  general : s.registers.general = saved.registers.general
  selectors : s.registers.selectors = saved.registers.selectors
  xsave : extended s.xsaveArea.1 = extended saved.xsaveArea.1

lemma finish_of_contents {cpu : CpuState n} (hn : 512 ≤ n) (hl : f.Laid n) (hlt : f.top < 2 ^ 64)
    (hub : UContext.bytes ⟨stack, s.createSigContext (.ofNat 64 f.fpstatePtr), sigmask⟩ f.abi = some ub)
    (hc : f.Contents s.xsaveArea.1 ub vm.mem) (hr : f.Readable vm) (hnarrow : f.abi = .i386 → s.registers.Narrow)
    (hrsp : cpu.registers.rsp.toNat = f.args) :
    ∃ cpu', cpu.finishSignalHandler vm f.abi = some (cpu', stack, sigmask) ∧ Restores cpu' s ∧
      cpu'.ignoreSyscallResult := by
  have hlen := s.xsaveArea.2
  have ⟨h1, h2, h3, h4, _⟩ := hl
  obtain ⟨u, hu, hstack, hmask, hfp, hload⟩ := ofBytes_eq hub hnarrow
  obtain ⟨x, hx, hxlen, hext⟩ := loadXsave_eq (hlen.symm ▸ hl) (hlen.symm ▸ hn) hr hc
  have hptr : vm.readBytes (f.args + 8) (pointerSize f.abi) = some (leBytes (pointerSize f.abi) f.ucontextPtr) := by
    rw [Vm.readBytes_eq hr.pointer, hc.pointer]
  have hctx : vm.readBytes f.ucontextPtr (UContext.size f.abi) = some ub := by
    rw [Vm.readBytes_eq (fun i hi => hr.rest _ (by omega) (by omega)), hc.ucontext]
  have hfpnat : (ofNat 64 f.fpstatePtr).toNat = f.fpstatePtr := by rw [toNat_ofNat, Nat.mod_eq_of_lt (by omega)]
  have hnonzero : ¬ ofNat 64 f.fpstatePtr = 0 := fun h => by
    rw [h] at hfpnat
    have h0 : f.fpstatePtr = 0 := hfpnat.symm
    omega
  rw [hlen] at hx hxlen
  refine ⟨{ cpu.loadSigContext u.mcontext with xsaveArea := ⟨x, hxlen⟩ }, ?_, ?_, rfl⟩
  · unfold CpuState.finishSignalHandler
    rw [hrsp, if_pos (by omega), hptr]
    simp only [bind_eq_bind, bind_some, leNat_leBytes (ucontextPtr_lt hl hlt hub), hctx, hu, hfp,
      if_neg hnonzero, hfpnat, hx, dif_pos hxlen, hstack, hmask]
  · exact ⟨(hload cpu).1, (hload cpu).2, hext⟩

end

/-! ## Runs -/

/-- A delivery that has not returned: its frame and what it interrupted. -/
structure Live (n : Nat) where
  frame : Frame
  saved : Thread n

structure Nest (n : Nat) where
  thread : Thread n
  live : List (Live n)

inductive Act (n : Nat) where
  | deliver (sigInfo : SigInfo) (sigaction : Sigaction)
  | user (thread : Thread n)
  | sigreturn

section

variable {n : Nat}

/-- The program leaves the live frames alone. -/
def KeepsFrames (s : Nest n) (t : Thread n) : Prop :=
  ∀ l ∈ s.live, ∀ a, l.frame.bottom ≤ a → a < l.frame.top →
    t.vm.mem a = s.thread.vm.mem a ∧ (s.thread.vm.readable a = true → t.vm.readable a = true)

/-- The handler of the delivery has returned to the restorer. -/
def Matches (l : Live n) (t : Thread n) : Prop := t.cpu.registers.rsp.toNat = l.frame.args

/-- Deliveries that succeed, matching returns and the program between them. -/
def nest (n : Nat) : LTS (Nest n) (Act n) where
  init s := s.live = []
  step s a s' :=
    match a with
    | .deliver sigInfo sigaction => ∃ f t, s.thread.cpu.frame sigaction s.thread.sigaltstack = some f ∧
        s.thread.deliver sigInfo sigaction = some t ∧ s' = ⟨t, ⟨f, s.thread⟩ :: s.live⟩
    | .user t => KeepsFrames s t ∧ s' = ⟨t, s.live⟩
    | .sigreturn => ∃ l rest t, s.live = l :: rest ∧ Matches l s.thread ∧
        s.thread.rtSigreturn l.frame.abi = some t ∧ s' = ⟨t, rest⟩

/-- No live frame lies where the delivery puts its own: from the end of the alternate stack or below the red zone
downwards. A 32-bit code segment has the registers of the i386. -/
def Clear (s : Nest n) : Act n → Prop
  | .deliver _ sigaction =>
    (∀ start, startOf s.thread.cpu.registers.rsp sigaction s.thread.sigaltstack = some start →
      ∀ l ∈ s.live, l.frame.top + frameBound s.thread.cpu.abiFromCs n ≤ start ∨ start ≤ l.frame.bottom) ∧
    (s.thread.cpu.abiFromCs = .i386 → s.thread.cpu.registers.Narrow)
  | _ => True

/-- The return will read what the delivery has stored. -/
structure Intact (l : Live n) (vm : Vm) : Prop where
  laid : l.frame.Laid n
  lt : l.frame.top < 2 ^ 64
  narrow : l.frame.abi = .i386 → l.saved.cpu.registers.Narrow
  contents : ∃ ub, UContext.bytes ⟨l.saved.sigaltstack, l.saved.cpu.createSigContext (.ofNat 64 l.frame.fpstatePtr),
    l.saved.sigmask⟩ l.frame.abi = some ub ∧ l.frame.Contents l.saved.cpu.xsaveArea.1 ub vm.mem
  readable : l.frame.Readable vm

variable {f : Frame} {sigInfo : SigInfo} {sigaction : Sigaction} {s : CpuState n} {t t' : Thread n}

lemma Frame.Contents.keep {xsave ub : Bytes} {mem mem' : Nat → UInt8} (h : f.Contents xsave ub mem)
    (hl : f.Laid xsave.length) (hkeep : ∀ a, f.bottom ≤ a → a < f.top → mem' a = mem a) : f.Contents xsave ub mem' := by
  have ⟨h1, h2, h3, h4, h5⟩ := hl
  have hsize := pointerSize_le f.abi
  have hread : ∀ addr len, f.bottom ≤ addr → addr + len ≤ f.top → readMem mem' addr len = readMem mem addr len :=
    fun addr len hlo hhi => readMem_congr fun i hi => hkeep _ (by omega) (by omega)
  have hext : xsave.length + 4 ≤ extendedSize xsave.length f.abi := by
    cases f.abi <;> simp only [extendedSize] <;> omega
  refine ⟨?_, ?_, fun habi => ?_, ?_⟩
  · rw [hread _ _ (by omega) (by omega)]
    exact h.pointer
  · rw [hread _ _ (by omega) (by omega)]
    exact h.ucontext
  · have hheader : Fpstate32Header.size ≤ extendedSize xsave.length f.abi := by
      rw [habi]
      simp only [extendedSize]
      omega
    rw [hread _ _ (by omega) (by omega)]
    exact h.header habi
  · rw [hread _ _ (by omega) (by omega)]
    exact h.xsave

lemma Intact.keep {l : Live n} {vm vm' : Vm} (h : Intact l vm) (hkeep : ∀ a, l.frame.bottom ≤ a → a < l.frame.top →
      vm'.mem a = vm.mem a ∧ (vm.readable a = true → vm'.readable a)) : Intact l vm' := by
  obtain ⟨ub, hub, hc⟩ := h.contents
  have hl := h.laid
  have ⟨h1, h2, h3, h4, h5⟩ := hl
  have hsize := pointerSize_le l.frame.abi
  refine ⟨hl, h.lt, h.narrow, ⟨ub, hub, hc.keep ?_ fun a hlo hhi => (hkeep a hlo hhi).1⟩, ⟨fun i hi => ?_,
    fun a hlo hhi => ?_⟩⟩
  · rw [l.saved.cpu.xsaveArea.2]
    exact hl
  · exact (hkeep _ (by omega) (by omega)).2 (h.readable.pointer i hi)
  · exact (hkeep a (by omega) (by omega)).2 (h.readable.rest a hlo hhi)

lemma readable_of_stores {stack : Stack}
    {sigmask : BitVec 64} {ws : List (Nat × Bytes)} {vm : Vm} (hl : f.Laid n) (hn : 512 ≤ n)
    (h : s.frameStores f sigInfo sigaction stack sigmask = some ws)
    (hread : ∀ w ∈ ws, ∀ i < w.2.length, vm.readable (w.1 + i) = true) : f.Readable vm := by
  have hin : ∀ a, f.Stores a → vm.readable a = true := by
    intro a ha
    obtain ⟨w, hw, hlo, hhi⟩ := (frameStores_covers hl hn h).2 ha
    obtain ⟨i, rfl⟩ := Nat.exists_eq_add_of_le hlo
    exact hread w hw i (by omega)
  refine ⟨fun i hi => hin _ (.inr (.inr ?_)), fun a hlo hhi => hin a (.inl ⟨hlo, ?_⟩)⟩
  · cases habi : f.abi <;> rw [habi] at hi <;> simp only [pointerSize] at hi <;> omega
  · have h1 := hl.sigInfo
    omega

lemma deliver_eq (hf : t.cpu.frame sigaction t.sigaltstack = some f) (h : t.deliver sigInfo sigaction = some t') :
    ∃ ws, t.cpu.frameStores f sigInfo sigaction t.sigaltstack t.sigmask = some ws ∧ t.vm.writeAll ws = some t'.vm := by
  obtain ⟨⟨cpu, vm⟩, hstart, h⟩ := bind_eq_some_iff.1 h
  cases h
  obtain ⟨f', hf', hstart⟩ := bind_eq_some_iff.1 hstart
  obtain ⟨ws, hws, hstart⟩ := bind_eq_some_iff.1 hstart
  obtain ⟨vm', hvm, hstart⟩ := bind_eq_some_iff.1 hstart
  cases hstart
  cases hf.symm.trans hf'
  exact ⟨ws, hws, hvm⟩

def Inv (s : Nest n) : Prop := ∀ l ∈ s.live, Intact l s.thread.vm

lemma Inv.deliver {s : Nest n} (hn : 512 ≤ n) (hi : Inv s) (hc : Clear s (.deliver sigInfo sigaction))
    (hf : s.thread.cpu.frame sigaction s.thread.sigaltstack = some f)
    (h : s.thread.deliver sigInfo sigaction = some t) : Inv ⟨t, ⟨f, s.thread⟩ :: s.live⟩ := by
  obtain ⟨ws, hws, hvm⟩ := deliver_eq hf h
  obtain ⟨hmem, hreadable, hread⟩ := Vm.writeAll_eq hvm
  obtain ⟨start, hstart, hplace⟩ := bind_eq_some_iff.1 hf
  obtain ⟨hlaid, habi, htop, hbound⟩ := Frame.place_laid hplace
  have hlt := startOf_lt hstart
  intro l hl
  rcases mem_cons.1 hl with rfl | hl
  · obtain ⟨ub, hub, hcontents⟩ := contents_of_stores hlaid hn hws s.thread.vm.mem
    refine ⟨hlaid, Nat.lt_of_le_of_lt htop hlt, fun h => hc.2 (habi.symm.trans h), ⟨ub, hub, ?_⟩,
      readable_of_stores hlaid hn hws ?_⟩
    · rw [hmem]
      exact hcontents
    · rw [hreadable]
      exact hread
  -- the stores are below the start and above the bottom, where no live frame is
  refine (hi l hl).keep fun a hlo hhi => ⟨?_, fun hr => ?_⟩
  · rw [hmem]
    refine stores_of_outside (fun w hw => ?_) _
    by_contra hin
    have hwithin := ((frameStores_covers (a := a) hlaid hn hws).1 ⟨w, hw, by omega, by omega⟩).within hlaid
    rcases hc.1 start hstart l hl with hout | hout
    · omega
    · omega
  · show t.vm.readable a
    rw [hreadable]
    exact hr

lemma inductive_intact (hn : 512 ≤ n) : ((nest n).only Clear).Inductive Inv where
  init s hs := by
    intro l hl
    rw [show s.live = [] from hs] at hl
    cases hl
  step s a s' hi h := by
    obtain ⟨hc, hstep⟩ := h
    cases a with
    | deliver sigInfo sigaction =>
      obtain ⟨f, t, hf, ht, rfl⟩ := hstep
      exact hi.deliver hn hc hf ht
    | user t =>
      obtain ⟨hkeep, rfl⟩ := hstep
      exact fun l hl => (hi l hl).keep (hkeep l hl)
    | sigreturn =>
      obtain ⟨l, rest, t, hl, -, ht, rfl⟩ := hstep
      obtain ⟨_, _, hcpu⟩ := bind_eq_some_iff.1 ht
      obtain ⟨_, _, hcpu⟩ := bind_eq_some_iff.1 hcpu
      cases hcpu
      intro l' hl'
      exact hi l' (by rw [hl]; exact mem_cons_of_mem l hl')

/-- The result of the system call is not stored. -/
lemma executeSyscall_ignored (h : s.ignoreSyscallResult) (result : BitVec 64) :
    s.executeSyscall result = some { s with ignoreSyscallResult := false } := by
  unfold CpuState.executeSyscall Cpu.executeSyscall Cpu.setSyscallResult
  rw [h]
  rfl

/-- If no delivery meets a live frame, the innermost return succeeds and restores what was interrupted. -/
theorem frames_nest (hn : 512 ≤ n) {s : Nest n} (hs : ((nest n).only Clear).Reachable s) {l : Live n}
    {rest : List (Live n)} (hl : s.live = l :: rest) (hm : Matches l s.thread) :
    ∃ t, s.thread.rtSigreturn l.frame.abi = some t ∧ Restores t.cpu l.saved.cpu ∧ t.sigmask = l.saved.sigmask ∧
      t.sigaltstack = l.saved.sigaltstack := by
  have hi := (inductive_intact hn).reachable s hs l (by rw [hl]; exact mem_cons_self)
  obtain ⟨ub, hub, hc⟩ := hi.contents
  obtain ⟨cpu, hfinish, hrestores, hignore⟩ := finish_of_contents hn hi.laid hi.lt hub hc hi.readable hi.narrow hm
  refine ⟨⟨{ cpu with ignoreSyscallResult := false }, s.thread.vm, l.saved.sigmask, l.saved.sigaltstack⟩, ?_, ?_, rfl,
    rfl⟩
  · unfold Thread.rtSigreturn
    rw [hfinish]
    simp [executeSyscall_ignored hignore]
  · exact ⟨hrestores.general, hrestores.selectors, hrestores.xsave⟩

end

/-- A 64-bit program with an alternate stack of 64 KiB. -/
def program : Thread 512 where
  cpu :=
    { registers := { Registers.default with rip := 0x1000, rsp := 0x7000 }
      gdt := [0, 0, 0, 1#64 <<< 53]
      xsaveArea := ⟨List.replicate 512 0, length_replicate⟩
      lastExitWasSyscall := false
      ignoreSyscallResult := false }
  vm := ⟨fun _ => 0, fun _ => true, fun _ => true, fun _ _ => rfl⟩
  sigmask := 0
  sigaltstack := ⟨0x10000, 0, 0x10000⟩

def onstackHandler : Sigaction := ⟨0x2000, SigactionFlags.onstack, 0, 0⟩

def usr1 : SigInfo := ⟨⟨10, by decide⟩, 0, .none⟩
def usr2 : SigInfo := ⟨⟨12, by decide⟩, 0, .none⟩

/-- The frame of a delivery to the alternate stack. -/
def altFrame : Frame := ⟨.amd64, 0x20000, 0x1ff80, 0x1fd7c, 0x1fc4c, 0x1fc30, 0x1fc28⟩

/-- The handler returns to the restorer. -/
def Thread.returned {n : Nat} (t : Thread n) (f : Frame) : Thread n :=
  { t with cpu := { t.cpu with registers := { t.cpu.registers with rsp := .ofNat 64 f.args } } }

lemma keeps_returned {n : Nat} {t : Thread n} {live : List (Live n)} (f : Frame) :
    KeepsFrames ⟨t, live⟩ (t.returned f) := fun _ _ _ _ _ => ⟨rfl, id⟩

/-- A second signal is delivered while the first handler runs on the alternate stack: when both have returned, the
program is at the beginning of the handler. -/
theorem alternate_stack_in_use : ∃ s l, (nest 512).Reachable s ∧ s.live = [l] ∧ Matches l s.thread ∧
    l.saved.cpu.registers.rip = 0x1000 ∧
    ∃ t, s.thread.rtSigreturn l.frame.abi = some t ∧ t.cpu.registers.rip = 0x2000 := by
  have hrun : ((program.deliver usr1 onstackHandler).any fun t1 =>
      decide (t1.cpu.frame onstackHandler t1.sigaltstack = some altFrame) &&
        (t1.deliver usr2 onstackHandler).any fun t2 =>
          ((t2.returned altFrame).rtSigreturn .amd64).any fun t3 =>
            ((t3.returned altFrame).rtSigreturn .amd64).any fun t4 => t4.cpu.registers.rip = 0x2000) = true := by
    decide +kernel
  have hframe : program.cpu.frame onstackHandler program.sigaltstack = some altFrame := by decide +kernel
  obtain ⟨t1, h1, hrun⟩ := (any_eq_true _ _).1 hrun
  obtain ⟨hframe', hrun⟩ := Bool.and_eq_true_iff.1 hrun
  obtain ⟨t2, h2, hrun⟩ := (any_eq_true _ _).1 hrun
  obtain ⟨t3, h3, hrun⟩ := (any_eq_true _ _).1 hrun
  obtain ⟨t4, h4, hrip⟩ := (any_eq_true _ _).1 hrun
  have hsteps : (nest 512).Run ⟨program, []⟩
      [.deliver usr1 onstackHandler, .deliver usr2 onstackHandler, .user (t2.returned altFrame), .sigreturn,
        .user (t3.returned altFrame)] ⟨t3.returned altFrame, [⟨altFrame, program⟩]⟩ :=
    .cons ⟨altFrame, t1, hframe, h1, rfl⟩ (.cons ⟨altFrame, t2, of_decide_eq_true hframe', h2, rfl⟩
      (.cons ⟨keeps_returned altFrame, rfl⟩ (.cons ⟨_, _, t3, rfl, rfl, h3, rfl⟩
        (.cons ⟨keeps_returned altFrame, rfl⟩ (.nil _)))))
  exact ⟨_, _, ⟨⟨program, []⟩, _, rfl, hsteps⟩, rfl, rfl, rfl, t4, h4, of_decide_eq_true hrip⟩

/-- The second frame, below the first. -/
def innerFrame : Frame := ⟨.amd64, 0x1fba0, 0x1fb20, 0x1f91c, 0x1f7ec, 0x1f7d0, 0x1f7c8⟩

/-- A second signal is delivered below the frame of the first on the alternate stack. -/
theorem frames_nest_alternate_stack : ∃ s l l' t, ((nest 512).only Clear).Reachable s ∧ s.live = [l, l'] ∧
    Matches l s.thread ∧ l.frame.top ≤ l'.frame.bottom ∧ s.thread.rtSigreturn l.frame.abi = some t ∧
    Restores t.cpu l.saved.cpu ∧ t.sigmask = l.saved.sigmask ∧ t.sigaltstack = l.saved.sigaltstack := by
  have hrun : ((program.deliver usr1 onstackHandler).any fun t1 =>
      decide (t1.cpu.frame ⟨0x3000, 0, 0, 0⟩ t1.sigaltstack = some innerFrame) &&
        decide (startOf t1.cpu.registers.rsp ⟨0x3000, 0, 0, 0⟩ t1.sigaltstack = some 0x1fba8) &&
        decide (t1.cpu.abiFromCs = .amd64) && (t1.deliver usr2 ⟨0x3000, 0, 0, 0⟩).isSome) = true := by
    decide +kernel
  have hframe : program.cpu.frame onstackHandler program.sigaltstack = some altFrame := by decide +kernel
  have habi : program.cpu.abiFromCs = .amd64 := by decide +kernel
  obtain ⟨t1, h1, hrun⟩ := (any_eq_true _ _).1 hrun
  simp only [Bool.and_eq_true, decide_eq_true_eq] at hrun
  obtain ⟨⟨⟨hframe', hstart⟩, habi'⟩, hsome⟩ := hrun
  obtain ⟨t2, h2⟩ := isSome_iff_exists.1 hsome
  have hclear : Clear (n := 512) ⟨program, []⟩ (.deliver usr1 onstackHandler) :=
    ⟨fun _ _ _ hl => (nomatch hl), fun h => (nomatch habi.symm.trans h)⟩
  have hclear' : Clear (n := 512) ⟨t1, [⟨altFrame, program⟩]⟩ (.deliver usr2 ⟨0x3000, 0, 0, 0⟩) := by
    refine ⟨fun start h l hl => .inr ?_, fun h => (nomatch habi'.symm.trans h)⟩
    cases hstart.symm.trans h
    rw [mem_singleton.1 hl]
    decide
  have hsteps : ((nest 512).only Clear).Run ⟨program, []⟩ [.deliver usr1 onstackHandler,
      .deliver usr2 ⟨0x3000, 0, 0, 0⟩, .user (t2.returned innerFrame)]
      ⟨t2.returned innerFrame, [⟨innerFrame, t1⟩, ⟨altFrame, program⟩]⟩ :=
    .cons ⟨hclear, altFrame, t1, hframe, h1, rfl⟩ (.cons ⟨hclear', innerFrame, t2, hframe', h2, rfl⟩
      (.cons ⟨trivial, keeps_returned innerFrame, rfl⟩ (.nil _)))
  have hs : ((nest 512).only Clear).Reachable ⟨t2.returned innerFrame, [⟨innerFrame, t1⟩, ⟨altFrame, program⟩]⟩ :=
    ⟨⟨program, []⟩, _, rfl, hsteps⟩
  have hbelow : innerFrame.top ≤ altFrame.bottom := by decide
  obtain ⟨t, ht⟩ := frames_nest (Nat.le_refl 512) hs rfl rfl
  exact ⟨_, _, _, t, hs, rfl, rfl, hbelow, ht⟩

end Mushroom.L6.Signal
