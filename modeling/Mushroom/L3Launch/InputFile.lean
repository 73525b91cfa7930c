import Mushroom.L1Encoding.Input
import Mushroom.L2Memory.File

/-!
# Reading the input

Two readers of the input region: `verify_and_load` of the supervisors, which
takes each page from the host once, checks the hash chain and makes the page
private, and `StaticFile::copy_to` of the kernel, which copies the inputs to a
file.

Every page is taken once, so whatever the host does meanwhile, what the
supervisor sees is a function `host` from offsets to bytes. `verifyAndLoad`
returns how many pages it converted, and the strings it hashed for the
assumptions on the hash functions; `none` is a panic or a fault.
-/
namespace Mushroom.L3

open L1 L2

/-! ## The supervisor -/

/-- Behind the region the private mapping is not there (SNP) or not writable (TDX).
supervisor-snp/input.rs:70-114, supervisor-tdx/input.rs:80-124 -/
def convertToPrivateInPlace (host : Nat → UInt8) (index : Nat) : Option Page :=
  if index < inputPages then some ⟨readMem host (4096 * index) 4096, readMem_length ..⟩ else none

/-- `count` passes over the full pages, and the string hashed.
supervisor-snp/input.rs:44-49 -/
def hashPages (host : Nat → UInt8) : Nat → Nat → Option Bytes
  | 0, _ => some []
  | count + 1, pageIndex =>
    match convertToPrivateInPlace host pageIndex with
    | none => none
    | some inputBytes => (hashPages host count (pageIndex + 1)).map (inputBytes.1 ++ ·)

/-- The pages of an input: the string hashed and the next page index.
supervisor-snp/input.rs:42-60 -/
def hashInput (host : Nat → UInt8) (pageIndex inputLen : Nat) : Option (Bytes × Nat) :=
  match hashPages host (inputLen / 4096) pageIndex with
  | none => none
  | some full =>
    let pageIndex := pageIndex + inputLen / 4096
    let remainingLen := inputLen % 4096
    if remainingLen = 0 then some (full, pageIndex)
    else
      match convertToPrivateInPlace host pageIndex with
      | none => none
      | some inputBytes =>
        -- the page must be zero past the end of the input
        if inputBytes.1.drop remainingLen = List.replicate (4096 - remainingLen) 0 then
          some (full ++ inputBytes.1.take remainingLen, pageIndex + 1)
        else none

variable {host : Nat → UInt8} {pageIndex : Nat}

lemma convert_eq_some {index : Nat} {p : Page} (h : convertToPrivateInPlace host index = some p) :
    index < inputPages ∧ p.1 = readMem host (4096 * index) 4096 := by
  unfold convertToPrivateInPlace at h
  split at h
  · cases h
    exact ⟨‹_›, rfl⟩
  · cases h

lemma hashPages_eq_some {count : Nat} {b : Bytes} (h : hashPages host count pageIndex = some b) :
    b = readMem host (4096 * pageIndex) (4096 * count) ∧ (0 < count → pageIndex + count ≤ inputPages) := by
  induction count generalizing pageIndex b with
  | zero =>
    cases h
    exact ⟨(readMem_zero ..).symm, fun h => absurd h (lt_irrefl 0)⟩
  | succ count ih =>
    unfold hashPages at h
    split at h
    · cases h
    rename_i p hp
    obtain ⟨rest, hrest, rfl⟩ := Option.map_eq_some_iff.1 h
    obtain ⟨hlt, hpage⟩ := convert_eq_some hp
    obtain ⟨rfl, hle⟩ := ih hrest
    refine ⟨?_, fun _ => ?_⟩
    · rw [hpage, show 4096 * (count + 1) = 4096 + 4096 * count by omega, readMem_append]
      rfl
    by_cases hc : count = 0
    · omega
    have := hle (by omega)
    omega

/-- What a pass over an input that does not fail did: it hashed the bytes
behind the header. -/
lemma hashInput_eq_some {inputLen next : Nat} {b : Bytes} (h : hashInput host pageIndex inputLen = some (b, next)) :
    b = readMem host (4096 * pageIndex) inputLen ∧ next = pageIndex + (inputLen + 4095) / 4096 ∧
      (0 < inputLen → next ≤ inputPages) := by
  unfold hashInput at h
  split at h
  · cases h
  rename_i full hfull
  obtain ⟨rfl, hle⟩ := hashPages_eq_some hfull
  simp only at h
  split at h
  · cases h
    have hlen : 4096 * (inputLen / 4096) = inputLen := by omega
    refine ⟨by rw [hlen], by omega, fun h0 => ?_⟩
    have := hle (by omega)
    omega
  split at h
  · cases h
  rename_i p hp
  obtain ⟨hlt, hpage⟩ := convert_eq_some hp
  split at h
  · cases h
    refine ⟨?_, by omega, fun _ => by omega⟩
    have hlen : inputLen = 4096 * (inputLen / 4096) + inputLen % 4096 := by omega
    have haddr : 4096 * (pageIndex + inputLen / 4096) = 4096 * pageIndex + 4096 * (inputLen / 4096) := by omega
    conv => rhs; rw [hlen]
    rw [readMem_append, hpage, readMem_take (by omega), haddr]
  · cases h

/-- The loop over the headers.
supervisor-snp/input.rs:24-66, supervisor-tdx/input.rs:34-76 -/
def verifyLoop (S : Sha) (host : Nat → UInt8) (pageIndex : Nat) (nextHash : ByteArr 32) :
    Option (Nat × List (HashType × Bytes)) :=
  match hp : convertToPrivateInPlace host pageIndex with
  | none => none
  | some headerPageBytes =>
    match Header.read ⟨headerPageBytes.1.take 96, by simp [headerPageBytes.2]⟩ with
    | none => none
    | some header =>
      if header.verify S nextHash = false then none
      else if header = Header.last then some (pageIndex + 1, [(.sha256, header.bytes)])
      else
        match hi : hashInput host (pageIndex + 1) header.inputLen.toNat with
        | none => none
        | some (input, next) =>
          if header.hashType.hash S input = header.hash then
            (verifyLoop S host next header.nextHash).map fun r =>
              (r.1, (.sha256, header.bytes) :: (header.hashType, input) :: r.2)
          else none
termination_by inputPages - pageIndex
decreasing_by
  have hlt := (convert_eq_some hp).1
  have hnext := (hashInput_eq_some hi).2.1
  omega

/-- What the firmware reports for the guest: `host_data`, or `mr_config_id`
under TDX. -/
inductive Attested where
  | snp (hostData : ByteArr 32)
  | tdx (mrConfigId : ByteArr 48)

/-- supervisor-snp/input.rs:19-68, supervisor-tdx/input.rs:26-78 -/
def verifyAndLoad (S : Sha) (host : Nat → UInt8) : Attested → Option (Nat × List (HashType × Bytes))
  | .snp hostData => verifyLoop S host 0 hostData
  | .tdx mrConfigId =>
    if mrConfigId.1.drop 32 = List.replicate 16 0 then
      verifyLoop S host 0 ⟨mrConfigId.1.take 32, by simp [mrConfigId.2]⟩
    else none

/-! ## The kernel -/

structure Region where
  pages : Nat
  byte : Nat → UInt8

/-- `copy_without_kasan`; `none` is an access to a page that is not private. -/
def Region.read (r : Region) (offset len : Nat) : Option Bytes :=
  if offset + len ≤ 4096 * r.pages then some (readMem r.byte offset len) else none

/-- How many items `(0..len).step_by(0x1000)` has. -/
@[irreducible] def stepByCount (len : Nat) : Nat := (len + 0xfff) / 0x1000

lemma stepByCount_eq (len : Nat) : stepByCount len = (len + 4095) / 4096 := by unfold stepByCount; rfl

/-- `steps` passes of the loop over the pages of an input.
kernel/fs.rs:77-92 -/
def copyChunk {F : Type} (ops : FileOps F) (r : Region) (chunkOffset chunkLen : Nat) :
    Nat → Nat → Nat → F → Option (Except Errno Unit × F)
  | 0, _, _, dst => some (.ok (), dst)
  | steps + 1, i, offset, dst =>
    match r.read offset (min (chunkLen - i) 0x1000) with
    | none => none
    | some buffer =>
      match ops.write dst (chunkOffset + i) buffer with
      | (.error e, dst) => some (.error e, dst)
      | (.ok _, dst) => copyChunk ops r chunkOffset chunkLen steps (i + 0x1000) (offset + 0x1000) dst

/-- One pass ends the loop, or leaves the next `offset` and `len`.
fs.rs:46-94 -/
def copyPass {F : Type} (ops : FileOps F) (r : Region) (offset len : Nat) (dst : F) :
    Option (Except Errno (Option (Nat × Nat)) × F) :=
  match r.read offset 8 with
  | none => none
  | some word =>
    let chunkLen := leNat word
    if chunkLen = 2 ^ 64 - 1 then some (.ok none, dst)
    else if 2 ^ 64 ≤ len + chunkLen then none
    else
      match ops.truncate dst (len + chunkLen) with
      | (.error e, dst) => some (.error e, dst)
      | (.ok (), dst) =>
        match copyChunk ops r len chunkLen (stepByCount chunkLen) 0 (offset + 0x1000) dst with
        | none => none
        | some (.error e, dst) => some (.error e, dst)
        | some (.ok (), dst) => some (.ok (some (offset + 0x1000 + 0x1000 * stepByCount chunkLen, len + chunkLen)), dst)

lemma copyPass_lt {F : Type} {ops : FileOps F} {r : Region} {offset len offset' len' : Nat} {dst dst' : F}
    (h : copyPass ops r offset len dst = some (.ok (some (offset', len')), dst')) :
    offset < offset' ∧ offset < 4096 * r.pages := by
  unfold copyPass at h
  split at h
  · cases h
  rename_i word hword
  have hlt : offset < 4096 * r.pages := by
    unfold Region.read at hword
    split at hword
    · omega
    · cases hword
  simp only at h
  split at h
  · cases h
  split at h
  · cases h
  split at h
  · cases h
  split at h
  · cases h
  · cases h
  simp only [Option.some.injEq, Prod.mk.injEq, Except.ok.injEq] at h
  omega

/-- fs.rs:43-96 -/
def copyLoop {F : Type} (ops : FileOps F) (r : Region) (offset len : Nat) (dst : F) : Option (Except Errno Unit × F) :=
  match _hp : copyPass ops r offset len dst with
  | none => none
  | some (.error e, dst) => some (.error e, dst)
  | some (.ok none, dst) => some (.ok (), dst)
  | some (.ok (some (offset', len')), dst) => copyLoop ops r offset' len' dst
termination_by 4096 * r.pages - offset
decreasing_by
  have := copyPass_lt _hp
  omega

/-- fs.rs:42-98 -/
def copyTo {F : Type} (ops : FileOps F) (r : Region) (dst : F) : Option (Except Errno Unit × F) :=
  copyLoop ops r 0 0 dst

end Mushroom.L3
