import Mushroom.Core.Bytes

/-!
# The input of a workload

How the inputs of a workload lie in guest memory (`io/input.rs`), the loader
(`loader/input.rs`) and the hash a verifier computes (`mushroom-verify/lib.rs`):
per input a page that begins with a `Header`, then its bytes in pages that are
zero behind the end; a page with the end header comes last. Each header contains
the hash of the next one.

`Sha` are functions from strings to strings of the digest's length; a hasher that
is updated several times hashes the concatenation.
-/
namespace Mushroom.L1
open List

/-- The hash functions of the `sha2` crate. -/
structure Sha where
  sha256 : Bytes → ByteArr 32
  sha384 : Bytes → ByteArr 48

/-! ## Headers -/

/-- io/input.rs:52-58 -/
inductive HashType where
  | sha256 | sha384
  deriving DecidableEq

namespace HashType

def bits : HashType → Nat
  | .sha256 => 0
  | .sha384 => 1

/-- The bit patterns `CheckedBitPattern` accepts. -/
def ofBits : Nat → Option HashType
  | 0 => some .sha256
  | 1 => some .sha384
  | _ => none

/-- io/input.rs:60-69 -/
def hash (S : Sha) (t : HashType) (data : Bytes) : ByteArr 48 :=
  match t with
  | .sha256 => ⟨pad 48 (S.sha256 data).1, pad_length (by rw [(S.sha256 data).2]; decide)⟩
  | .sha384 => S.sha384 data

@[simp] lemma ofBits_bits (t : HashType) : ofBits t.bits = some t := by cases t <;> rfl

lemma bits_of_ofBits {n : Nat} {t : HashType} (h : ofBits n = some t) : t.bits = n := by
  unfold ofBits at h
  split at h <;> cases h <;> rfl

lemma bits_lt (t : HashType) : t.bits < 256 ^ 8 := by cases t <;> decide

end HashType

/-- io/input.rs:6-13 -/
structure Header where
  inputLen : BitVec 64
  hashType : HashType
  hash : ByteArr 48
  nextHash : ByteArr 32
  deriving DecidableEq

def zeros (n : Nat) : ByteArr n := ⟨List.replicate n 0, length_replicate⟩

namespace Header

/-- `bytes_of`: the fields one behind the other, without padding. -/
def bytes (h : Header) : Bytes := leBytes 8 h.inputLen.toNat ++ leBytes 8 h.hashType.bits ++ h.hash.1 ++ h.nextHash.1

@[simp] lemma bytes_length (h : Header) : h.bytes.length = 96 := by simp [bytes, h.hash.2, h.nextHash.2]

/-- `pod_read_unaligned::<Header>`; `none` is its panic on an unknown hash
type. -/
def read (b : ByteArr 96) : Option Header :=
  match HashType.ofBits (leNat ((b.1.drop 8).take 8)) with
  | none => none
  | some t => some ⟨BitVec.ofNat 64 (leNat (b.1.take 8)), t, ⟨(b.1.drop 16).take 48, by simp [b.2]⟩,
      ⟨b.1.drop 64, by simp [b.2]⟩⟩

/-- io/input.rs:42-44 -/
def digest (S : Sha) (h : Header) : ByteArr 32 := S.sha256 h.bytes

/-- io/input.rs:46-48 -/
def verify (S : Sha) (h : Header) (hash : ByteArr 32) : Bool := h.digest S == hash

/-- io/input.rs:16-23 -/
def new (S : Sha) (bytes : Bytes) (hashType : HashType) (next : Header) : Header :=
  ⟨BitVec.ofNat 64 bytes.length, hashType, hashType.hash S bytes, next.digest S⟩

/-- The end header.
io/input.rs:34-41 -/
def last : Header := ⟨BitVec.allOnes 64, .sha256, zeros 48, zeros 32⟩

lemma bytes_of_read {b : ByteArr 96} {h : Header} (hr : read b = some h) : h.bytes = b.1 := by
  obtain ⟨b, hb⟩ := b
  unfold read at hr
  split at hr
  · cases hr
  rename_i t ht
  cases hr
  have hlen1 : (b.take 8).length = 8 := by simp [hb]
  have hlen2 : ((b.drop 8).take 8).length = 8 := by simp [hb]
  have h1 : leBytes 8 (leNat (b.take 8)) = b.take 8 := by
    have := leBytes_leNat (b.take 8)
    rwa [hlen1] at this
  have h2 : leBytes 8 (leNat ((b.drop 8).take 8)) = (b.drop 8).take 8 := by
    have := leBytes_leNat ((b.drop 8).take 8)
    rwa [hlen2] at this
  have hlt : leNat (b.take 8) < 2 ^ 64 := by
    have := leNat_lt (b.take 8)
    rwa [hlen1] at this
  simp only [bytes, BitVec.toNat_ofNat, Nat.mod_eq_of_lt hlt, HashType.bits_of_ofBits ht, h1, h2]
  calc b.take 8 ++ (b.drop 8).take 8 ++ (b.drop 16).take 48 ++ b.drop 64
      = b.take 8 ++ ((b.drop 8).take 8 ++ (((b.drop 8).drop 8).take 48 ++ ((b.drop 8).drop 8).drop 48)) := by
        simp
    _ = b := by rw [take_append_drop, take_append_drop, take_append_drop]

lemma read_bytes (h : Header) (hb : h.bytes.length = 96) : read ⟨h.bytes, hb⟩ = some h := by
  obtain ⟨len, t, ⟨hash, hhash⟩, ⟨next, hnext⟩⟩ := h
  have ht8 : (leBytes 8 len.toNat).length = 8 := leBytes_length ..
  have ht16 : (leBytes 8 len.toNat ++ leBytes 8 t.bits).length = 16 := by simp
  have ht64 : (leBytes 8 len.toNat ++ leBytes 8 t.bits ++ hash).length = 64 := by simp [hhash]
  have h1 : (leBytes 8 len.toNat ++ leBytes 8 t.bits ++ hash ++ next).take 8 = leBytes 8 len.toNat := by
    rw [append_assoc, append_assoc, take_left' ht8]
  have h2 : ((leBytes 8 len.toNat ++ leBytes 8 t.bits ++ hash ++ next).drop 8).take 8 = leBytes 8 t.bits := by
    rw [append_assoc, append_assoc, drop_left' ht8, take_left' (leBytes_length ..)]
  have h3 : ((leBytes 8 len.toNat ++ leBytes 8 t.bits ++ hash ++ next).drop 16).take 48 = hash := by
    rw [append_assoc, drop_left' ht16, take_left' hhash]
  have h4 : (leBytes 8 len.toNat ++ leBytes 8 t.bits ++ hash ++ next).drop 64 = next :=
    drop_left' ht64
  have hlen : leNat (leBytes 8 len.toNat) = len.toNat := leNat_leBytes len.isLt
  simp only [read, bytes, h1, h2, h3, h4, hlen, leNat_leBytes t.bits_lt, HashType.ofBits_bits,
    BitVec.ofNat_toNat, BitVec.setWidth_eq]

end Header

/-! ## Load commands -/

abbrev Page := ByteArr 4096

/-- loader/lib.rs:25-32 -/
inductive LoadCommandPayload where
  | normal (bytes : Page)
  | zero
  | secrets
  | cpuid (page : Page)
  | shared (bytes : Page)
  deriving DecidableEq

/-- loader/lib.rs:17-22 -/
structure LoadCommand where
  physicalAddress : Nat
  vmpl1Perms : BitVec 8
  payload : LoadCommandPayload
  deriving DecidableEq

/-! ## The loader -/

/-- loader/input.rs:11-15 -/
structure Input where
  bytes : Bytes
  hashType : HashType
  deriving DecidableEq

/-- `INPUT_FILE`: 64 GiB.
constants/physical_address.rs:109-110 -/
def inputFileStart : Nat := 0x40000000000

def inputPages : Nat := 2 ^ 24

lemma page_length {b : Bytes} (h : b.length ≤ 4096) : (pad 4096 b).length = 4096 := pad_length h

/-- The string at the start of a page of zeros. -/
def page (b : Bytes) (h : b.length ≤ 4096) : Page := ⟨pad 4096 b, page_length h⟩

def Header.page (h : Header) : Page := L1.page h.bytes (by rw [h.bytes_length]; decide)

/-- The pages of an input behind its header.
loader/input.rs:42-46 -/
def dataPages (b : Bytes) : List Page := (chunks 4096 b).pmap page fun _ => mem_chunks

/-- The headers, from the last input to the first, and the one left over.
loader/input.rs:20-29 -/
def headers (S : Sha) (inputs : List Input) : List Header × Header :=
  inputs.reverse.foldl (fun r input =>
    let header := Header.new S input.bytes input.hashType r.2
    (header :: r.1, header)) ([], Header.last)

/-- loader/input.rs:31-51 -/
def payloads (S : Sha) (inputs : List Input) : List Page :=
  ((headers S inputs).1.zip inputs).flatMap (fun x => x.1.page :: dataPages x.2.bytes) ++ [Header.last.page]

/-- The commands, at most as many as the region has pages, and `host_data`.
loader/input.rs:17-68 -/
def loadInput (S : Sha) (inputs : List Input) : List LoadCommand × ByteArr 32 :=
  (((List.range inputPages).zip (payloads S inputs)).map fun x => ⟨inputFileStart + 4096 * x.1, 0, .shared x.2⟩,
    (headers S inputs).2.digest S)

/-! ## The verifier's hash -/

/-- mushroom-verify/lib.rs:141-147 -/
structure HashedInput where
  inputLen : BitVec 64
  hashType : HashType
  hash : ByteArr 48
  deriving DecidableEq

/-- mushroom-verify/lib.rs:150-157 -/
def HashedInput.new (S : Sha) (input : Input) : HashedInput :=
  ⟨BitVec.ofNat 64 input.bytes.length, input.hashType, input.hashType.hash S input.bytes⟩

/-- mushroom-verify/lib.rs:175-192 -/
def inputHash (S : Sha) (inputs : List HashedInput) : ByteArr 32 :=
  (inputs.reverse.foldl (fun header input =>
    ⟨input.inputLen, input.hashType, input.hash, header.digest S⟩) Header.last).digest S

end Mushroom.L1
