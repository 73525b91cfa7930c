import Mathlib

/-!
# The GHCB MSR protocol

`snp-types/ghcb/msr_protocol.rs`. The low twelve bits name the message, the others are its
payload. `none` is a panic: `PhysAddr::new` takes 52 bits, so a frame number has forty.
-/
namespace Mushroom.L1

abbrev Gfn := Fin (2 ^ 40)

abbrev CpuidRegister := Fin 4

/-- msr_protocol.rs:16-69 -/
inductive GhcbInfo where
  | ghcbGuestPhysicalAddress (address : Gfn)
  | sevInformation (maximum minimum cBitPosition : Fin (2 ^ 8))
  | sevInformationRequest
  | cpuidRequest (function : Fin (2 ^ 32)) (register : CpuidRegister)
  | cpuidResponse (value : Fin (2 ^ 32)) (register : CpuidRegister)
  | apResetHoldRequest | apResetHoldResponse | preferredGhcbGpaRequest
  | preferredGhcbGpaResponse (address : Option Gfn)
  | registerGhcbGpaRequest (address : Gfn)
  | registerGhcbGpaResponse (address : Option Gfn)
  | snpPageStateChangeRequest (shared : Bool) (address : Gfn)
  | snpPageStateChangeResponse (errorCode : Fin (2 ^ 32))
  | hypervisorFeatureSupportRequest
  | hypervisorFeatureSupportResponse (snp apCreation injection timer : Bool)
  | terminationRequest (reasonCodeSet : Fin 16) (reasonCode : Fin (2 ^ 8))

open GhcbInfo

def noGfn : Nat := 0xfffffffffffff

/-- The message and its payload (msr_protocol.rs:71-182). -/
def GhcbInfo.fields : GhcbInfo → Nat × Nat
  | ghcbGuestPhysicalAddress a => (0x000, a)
  | sevInformation max min c => (0x001, c * 2 ^ 12 + min * 2 ^ 20 + max * 2 ^ 36)
  | sevInformationRequest => (0x002, 0)
  | cpuidRequest f r => (0x004, r * 2 ^ 18 + f * 2 ^ 20)
  | cpuidResponse v r => (0x005, r * 2 ^ 18 + v * 2 ^ 20)
  | apResetHoldRequest => (0x006, 0)
  | apResetHoldResponse => (0x007, 1)
  | preferredGhcbGpaRequest => (0x010, 0)
  | preferredGhcbGpaResponse a => (0x011, a.elim noGfn Fin.val)
  | registerGhcbGpaRequest a => (0x012, a)
  | registerGhcbGpaResponse a => (0x013, a.elim noGfn Fin.val)
  | snpPageStateChangeRequest shared a => (0x014, a + (1 + shared.toNat) * 2 ^ 40)
  | snpPageStateChangeResponse e => (0x015, e * 2 ^ 20)
  | hypervisorFeatureSupportRequest => (0x080, 0)
  | hypervisorFeatureSupportResponse a b c d => (0x081, a.toNat + 2 * b.toNat + 4 * c.toNat + 8 * d.toNat)
  | terminationRequest s c => (0x100, s + c * 2 ^ 4)

def GhcbInfo.encode (x : GhcbInfo) : Nat := x.fields.1 + 2 ^ 12 * x.fields.2

/-- `PhysAddr::new`. -/
def frame (gfn : Nat) : Option Gfn := if h : gfn < 2 ^ 40 then some ⟨gfn, h⟩ else none

def optFrame (gfn : Nat) : Option (Option Gfn) := if gfn = noGfn then some none else (frame gfn).map some

/-- A field of a payload. -/
def bits (n lo width : Nat) : Fin (2 ^ width) := ⟨n / 2 ^ lo % 2 ^ width, Nat.mod_lt _ (by positivity)⟩

/-- msr_protocol.rs:187-334; `error` is `ParseError`. -/
def GhcbInfo.ofFields (p : Nat) : Nat → Option (Except Unit GhcbInfo)
  | 0x000 => (frame p).map (.ok ∘ ghcbGuestPhysicalAddress)
  | 0x001 => some (.ok (sevInformation (bits p 36 8) (bits p 20 8) (bits p 12 8)))
  | 0x002 => some (.ok sevInformationRequest)
  | 0x004 => some (if p % 2 ^ 18 = 0 then .ok (cpuidRequest (bits p 20 32) (bits p 18 2)) else .error ())
  | 0x005 => some (if p % 2 ^ 18 = 0 then .ok (cpuidResponse (bits p 20 32) (bits p 18 2)) else .error ())
  | 0x006 => some (if p = 0 then .ok apResetHoldRequest else .error ())
  | 0x007 => some (if p = 0 then .error () else .ok apResetHoldResponse)
  | 0x010 => some (if p = 0 then .error () else .ok preferredGhcbGpaRequest)
  | 0x011 => (optFrame p).map (.ok ∘ preferredGhcbGpaResponse)
  | 0x012 => (frame p).map (.ok ∘ registerGhcbGpaRequest)
  | 0x013 => (optFrame p).map (.ok ∘ registerGhcbGpaResponse)
  | 0x014 => some (match p / 2 ^ 40 with
    | 1 => .ok (snpPageStateChangeRequest false (bits p 0 40))
    | 2 => .ok (snpPageStateChangeRequest true (bits p 0 40))
    | _ => .error ())
  | 0x015 => some (if p % 2 ^ 20 = 0 then .ok (snpPageStateChangeResponse (bits p 20 32)) else .error ())
  | 0x080 => some (if p = 0 then .ok hypervisorFeatureSupportRequest else .error ())
  | 0x081 => some (.ok (hypervisorFeatureSupportResponse (p.testBit 0) (p.testBit 1) (p.testBit 2) (p.testBit 3)))
  | 0x100 => some (.ok (terminationRequest (bits p 0 4) (bits p 4 8)))
  | _ => some (.error ())

def GhcbInfo.decode (msr : Nat) : Option (Except Unit GhcbInfo) := ofFields (msr / 2 ^ 12) (msr % 2 ^ 12)

lemma bits_eq {n lo width : Nat} {x : Fin (2 ^ width)} (h : n / 2 ^ lo % 2 ^ width = x) :
    bits n lo width = x := Fin.ext h

lemma decode_encode (x : GhcbInfo) : decode x.encode = ofFields x.fields.2 x.fields.1 := by
  have h : x.fields.1 < 2 ^ 12 := by cases x <;> simp [fields]
  rw [decode, encode, show (x.fields.1 + 2 ^ 12 * x.fields.2) / 2 ^ 12 = x.fields.2 by omega,
    show (x.fields.1 + 2 ^ 12 * x.fields.2) % 2 ^ 12 = x.fields.1 by omega]

theorem ghcb_codec (x : GhcbInfo) (msr : Nat) :
    (decode x.encode = some (.ok x) ↔ x ≠ preferredGhcbGpaRequest) ∧
      (decode msr = none ↔ 2 ^ 40 ≤ msr / 2 ^ 12 ∧ (msr % 2 ^ 12 = 0 ∨ msr % 2 ^ 12 = 0x12 ∨
        (msr % 2 ^ 12 = 0x11 ∨ msr % 2 ^ 12 = 0x13) ∧ msr / 2 ^ 12 ≠ noGfn)) := by
  constructor
  · rw [decode_encode]
    cases x <;> simp [fields, ofFields, frame, noGfn]
    case sevInformation a b c => refine ⟨bits_eq ?_, bits_eq ?_, bits_eq ?_⟩ <;> omega
    case cpuidRequest f r | cpuidResponse f r =>
      rw [if_pos (by omega), bits_eq (x := f) (by omega), bits_eq (x := r) (by omega)]
    case preferredGhcbGpaResponse a | registerGhcbGpaResponse a =>
      rcases a with _ | a
      · rfl
      · simp [optFrame, frame, noGfn, show (a : Nat) ≠ 4503599627370495 by omega]
    case snpPageStateChangeRequest shared a =>
      rw [bits_eq (x := a) (by omega)]
      cases shared
      · simp [show ((a : Nat) + 1099511627776) / 1099511627776 = 1 by omega]
      · simp [show ((a : Nat) + 2199023255552) / 1099511627776 = 2 by omega]
    case snpPageStateChangeResponse e => exact bits_eq (by omega)
    case hypervisorFeatureSupportResponse a b c d =>
      revert a b c d
      decide
    case terminationRequest s c => exact ⟨bits_eq (by omega), bits_eq (by omega)⟩
  · rw [decode]
    generalize msr / 2 ^ 12 = p
    generalize msr % 2 ^ 12 = n
    unfold ofFields
    split <;> simp [optFrame, frame]
    · split_ifs <;> simp <;> omega
    · split_ifs <;> simp <;> omega
    · tauto

theorem ghcb_decode : decode preferredGhcbGpaRequest.encode = some (.error ()) ∧ decode (2 ^ 52) = none := ⟨rfl, rfl⟩

end Mushroom.L1
