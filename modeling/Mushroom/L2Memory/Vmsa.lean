import Mushroom.Core.Bytes

/-!
# VMSA register protection

`snp-types/vmsa.rs`. The bytes of a quadword whose bit is set in the tweak bitmap are
stored xor'ed with the nonce, itself the quadword at `0x300`, whose bit is clear.
-/
namespace Mushroom.L2
open Function

abbrev Vmsa := Nat → UInt8

def nonceOffset : Nat := 0x300

abbrev TweakBitmap := { bits : Nat → Bool // bits (nonceOffset / 8) = false }

variable (v : Vmsa) (tweak : TweakBitmap)

/-- What is xor'ed to the byte at `offset`. -/
def vmsaMask (offset : Nat) : UInt8 := if tweak.1 (offset / 8) then v (nonceOffset + offset % 8) else 0

def unmask (i : Nat) : UInt8 := v i ^^^ vmsaMask v tweak i

/-- vmsa.rs:70-78 -/
def readVmsa (offset len : Nat) : Bytes := readMem (unmask v tweak) offset len

/-- vmsa.rs:81-89 -/
def writeVmsa (v : Vmsa) (offset : Nat) : Bytes → Vmsa
  | [] => v
  | b :: bs => writeVmsa (update v offset (b ^^^ vmsaMask v tweak offset)) (offset + 1) bs

/-- vmsa.rs:92-104 -/
def updateNonce (nonce : ByteArr 8) : Vmsa :=
  let v' := writeMem v nonceOffset nonce.1
  fun i => v' i ^^^ (vmsaMask v tweak i ^^^ vmsaMask v' tweak i)

/-- The cast of an accessor (vmsa.rs:30-34) panics on reserved bytes that must be zero and are not. -/
def checkedCast (mbz : Bool) (bytes : Bytes) : Option Bytes := if mbz ∧ ∃ b ∈ bytes, b ≠ 0 then none else some bytes

inductive VmsaOp where
  | set (offset : Nat) (value : Bytes) (h : offset + value.length ≤ nonceOffset ∨ nonceOffset + 8 ≤ offset)
  | updateNonce (nonce : ByteArr 8)

def VmsaOp.apply (v : Vmsa) : VmsaOp → Vmsa
  | set offset value _ => writeVmsa tweak v offset value
  | updateNonce nonce => L2.updateNonce v tweak nonce

/-- The operations on unprotected memory. -/
def VmsaOp.plain (mem : Nat → UInt8) : VmsaOp → Nat → UInt8
  | set offset value _ => writeMem mem offset value
  | updateNonce nonce => writeMem mem nonceOffset nonce.1

variable {v tweak}

lemma vmsaMask_congr {w : Vmsa} (h : ∀ i, nonceOffset ≤ i → i < nonceOffset + 8 → w i = v i) :
    vmsaMask w tweak = vmsaMask v tweak := by
  funext i
  rw [vmsaMask, h _ (by omega) (by omega), vmsaMask]

lemma vmsaMask_nonce {i : Nat} (h : nonceOffset ≤ i) (h' : i < nonceOffset + 8) : vmsaMask v tweak i = 0 := by
  have hi : i / 8 = nonceOffset / 8 := by
    simp only [nonceOffset] at *
    omega
  rw [vmsaMask, hi, tweak.2]
  rfl

lemma unmask_writeVmsa {offset : Nat} {bytes : Bytes}
    (h : offset + bytes.length ≤ nonceOffset ∨ nonceOffset + 8 ≤ offset) :
    unmask (writeVmsa tweak v offset bytes) tweak = writeMem (unmask v tweak) offset bytes := by
  induction bytes generalizing v offset with
  | nil => simp [writeVmsa]
  | cons b bs ih =>
    rw [List.length_cons] at h
    rw [writeVmsa, ih (by omega), ← List.singleton_append, writeMem_append]
    congr 1
    funext i
    have hm : ∀ c, vmsaMask (update v offset c) tweak = vmsaMask v tweak :=
      fun c => vmsaMask_congr fun i _ _ => update_of_ne (by omega) _ _
    rw [unmask, hm, writeMem, List.length_singleton]
    split
    · obtain rfl : i = offset := by omega
      simp
    · rw [update_of_ne (by omega), unmask]

lemma unmask_updateNonce (nonce : ByteArr 8) :
    unmask (updateNonce v tweak nonce) tweak = writeMem (unmask v tweak) nonceOffset nonce.1 := by
  funext i
  have hm : vmsaMask (updateNonce v tweak nonce) tweak = vmsaMask (writeMem v nonceOffset nonce.1) tweak :=
    vmsaMask_congr fun i hi hi' => by simp [updateNonce, vmsaMask_nonce hi hi']
  rw [unmask, hm, updateNonce, writeMem]
  split
  · rw [nonce.2] at *
    rename_i hi
    simp [vmsaMask_nonce hi.1 hi.2, writeMem, hi, nonce.2]
  · rename_i hi
    simp [UInt8.xor_assoc, unmask, writeMem, hi]

/-- The accessors see plain memory, whatever the nonces were. -/
theorem vmsa_run (v : Vmsa) (tweak : TweakBitmap) (ops : List VmsaOp) (offset len : Nat) (mbz : Bool) :
    checkedCast mbz (readVmsa (ops.foldl (VmsaOp.apply tweak) v) tweak offset len) =
      checkedCast mbz (readMem (ops.foldl VmsaOp.plain (unmask v tweak)) offset len) := by
  have hrun : unmask (ops.foldl (VmsaOp.apply tweak) v) tweak = ops.foldl VmsaOp.plain (unmask v tweak) := by
    induction ops generalizing v with
    | nil => rfl
    | cons op ops ih =>
      rw [List.foldl_cons, ih, List.foldl_cons]
      cases op with
      | set offset value h => rw [VmsaOp.apply, unmask_writeVmsa h, VmsaOp.plain]
      | updateNonce nonce => rw [VmsaOp.apply, unmask_updateNonce, VmsaOp.plain]
  rw [readVmsa, hrun]

end Mushroom.L2
