import Mushroom.Core.Layout
import Mushroom.L1Encoding.Input

/-!
# The launch image

The load commands that `loader/elf.rs` makes of the program headers of an ELF
file. A `PhysAddr` has 52 bits, and sums are checked; `none` is a panic.
-/
namespace Mushroom.L3.Image
open L1 List

/-- `dest[s..=e].copy_from_slice(&src[a..=b])`. -/
def copyInto (dest : Page) (s e : Nat) (src : Bytes) (a b : Nat) : Option Page :=
  if h : s ≤ e + 1 ∧ e < 4096 ∧ a ≤ b + 1 ∧ b < src.length ∧ e + 1 - s = b + 1 - a then
    some ⟨splice dest.1 s (slice src a (b + 1 - a)), by
      rw [splice_length, dest.2]
      rw [slice_length, dest.2]
      omega⟩
  else none

structure ProgramHeader where
  (pType pFlags : BitVec 32)
  (pOffset pPaddr pFilesz pMemsz : Nat)

variable (cpuid : Page) (file : Bytes) (mask : BitVec 8) (ph : ProgramHeader)

namespace ProgramHeader

/-- elf.rs:30-34 -/
def loads : Bool := ph.pType == 1 && !ph.pFlags.getLsbD 31

def cpuidPage : Bool := ph.pFlags.getLsbD 28
def secretsPage : Bool := ph.pFlags.getLsbD 29
def sharedPage : Bool := ph.pFlags.getLsbD 30

/-- elf.rs:66-68 -/
def assertions : Bool :=
  !(ph.cpuidPage && ph.secretsPage) && !(ph.cpuidPage && ph.sharedPage) && !(ph.secretsPage && ph.sharedPage)

/-- elf.rs:43-54 -/
def vmpl1Perms : BitVec 8 :=
  ((if ph.pFlags.getLsbD 0 then 0b1100 else 0) ||| (if ph.pFlags.getLsbD 1 then 0b10 else 0) |||
    (if ph.pFlags.getLsbD 2 then 0b1 else 0)) &&& mask

/-- The last of `size` bytes. elf.rs:56-60 -/
def endInclusive (size : Nat) : Option Nat :=
  if 0 < size ∧ ph.pPaddr + (size - 1) < 2 ^ 52 then some (ph.pPaddr + (size - 1)) else none

end ProgramHeader

/-- elf.rs:76-95 -/
def frameBytes (endFile frame : Nat) : Option Page :=
  if frame ≤ endFile / 4096 then
    let copyStart := max ph.pPaddr (4096 * frame)
    let copyEnd := min endFile (4096 * frame + 4095)
    if ph.pPaddr ≤ copyEnd then
      -- an offset that overflows is out of the bounds of every file
      copyInto (zeros 4096) (copyStart % 4096) (copyEnd % 4096) file (ph.pOffset + (copyStart - ph.pPaddr))
        (ph.pOffset + (copyEnd - ph.pPaddr))
    else none
  else some (zeros 4096)

/-- `cpuid` is what `create_cpuid_page` returns. elf.rs:65-108 -/
def loadFrame (endFile frame : Nat) : Option LoadCommand :=
  let command (payload : LoadCommandPayload) : LoadCommand := ⟨4096 * frame, ph.vmpl1Perms mask, payload⟩
  if !ph.assertions then none
  else if ph.cpuidPage then some (command (.cpuid cpuid))
  else if ph.secretsPage then some (command .secrets)
  else (frameBytes file ph endFile frame).map fun bytes =>
    command (if ph.sharedPage then .shared bytes else .normal bytes)

/-- The iterator over `n` frames computes the one behind `frame` before it yields `frame`. -/
def loadFrames (f : Nat → Option LoadCommand) : Nat → Nat → Option (List LoadCommand)
  | 0, _ => some []
  | n + 1, frame =>
    if frame + 1 < 2 ^ 40 then do
      let c ← f frame
      let cs ← loadFrames f n (frame + 1)
      some (c :: cs)
    else none

/-- elf.rs:56-109 -/
def loadHeader : Option (List LoadCommand) := do
  let endFile ← ph.endInclusive ph.pFilesz
  let endAddr ← ph.endInclusive ph.pMemsz
  loadFrames (loadFrame cpuid file mask ph endFile) (endAddr / 4096 + 1 - ph.pPaddr / 4096) (ph.pPaddr / 4096)

/-- elf.rs:21-110 -/
def load (phs : List ProgramHeader) : Option (List LoadCommand) :=
  (phs.filter (·.loads)).foldlM (fun xs ph => (loadHeader cpuid file mask ph).map (xs ++ ·)) []

/-! ## What the image should be -/

def imageByte (a : Nat) : UInt8 :=
  if ph.pPaddr ≤ a ∧ a < ph.pPaddr + ph.pFilesz then file.getD (ph.pOffset + (a - ph.pPaddr)) 0 else 0

/-- The page of a frame, by the flags of the segment. -/
def PayloadOk (c : LoadCommand) : Prop :=
  if ph.cpuidPage then c.payload = .cpuid cpuid
  else if ph.secretsPage then c.payload = .secrets
  else ∃ page : Page, c.payload = (if ph.sharedPage then .shared page else .normal page) ∧
    ∀ i < 4096, page.1.getD i 0 = imageByte file ph (c.physicalAddress + i)

/-- Each frame with a byte of the segment has one command, in increasing order. -/
structure Exact (cs : List LoadCommand) : Prop where
  sorted : (cs.map (·.physicalAddress)).Pairwise (· < ·)
  frames : ∀ a, a ∈ cs.map (·.physicalAddress) ↔
    4096 ∣ a ∧ ∃ k < ph.pMemsz, a ≤ ph.pPaddr + k ∧ ph.pPaddr + k < a + 4096
  payload : ∀ c ∈ cs, PayloadOk cpuid file ph c

/-- The segment has a byte of the file, ends before the last frame of the 52-bit space, and has at most one of
the flags for special pages. -/
abbrev Fits : Prop := 0 < ph.pFilesz ∧ (ph.pPaddr + (ph.pMemsz - 1)) / 4096 + 1 < 2 ^ 40 ∧ ph.assertions

variable {cpuid file mask ph} {f : Nat → Option LoadCommand} {n a : Nat}

lemma loadFrames_spec {Q : LoadCommand → Prop} (h : ∀ i, a ≤ i → i < a + n →
    i + 1 < 2 ^ 40 ∧ ∃ c, f i = some c ∧ c.physicalAddress = 4096 * i ∧ Q c) :
    ∃ cs, loadFrames f n a = some cs ∧ cs.map (·.physicalAddress) = (List.range' a n).map (4096 * ·) ∧
      ∀ c ∈ cs, Q c := by
  induction n generalizing a with
  | zero => exact ⟨[], rfl, rfl, nofun⟩
  | succ n ih =>
    obtain ⟨hlt, c, hc, haddr, hq⟩ := h a (Nat.le_refl a) (by omega)
    obtain ⟨cs, hcs, hmap, hall⟩ := @ih (a + 1) fun i hi hlt => h i (by omega) (by omega)
    refine ⟨c :: cs, ?_, ?_, forall_mem_cons.2 ⟨hq, hall⟩⟩
    · rw [loadFrames, if_pos hlt, hc]
      simp [hcs]
    · rw [map_cons, haddr, hmap, List.range'_succ, map_cons]

lemma of_loadFrames {cs : List LoadCommand} (h : loadFrames f n a = some cs) {i : Nat} (hi : a ≤ i)
    (hlt : i < a + n) : i + 1 < 2 ^ 40 ∧ f i ≠ none := by
  induction n generalizing a cs with
  | zero => omega
  | succ n ih =>
    rw [loadFrames] at h
    obtain ⟨hnext, h⟩ := Option.ite_none_right_eq_some.1 h
    obtain ⟨c, hc, h⟩ := Option.bind_eq_some_iff.1 h
    obtain ⟨cs', hcs, -⟩ := Option.bind_eq_some_iff.1 h
    rcases Nat.eq_or_lt_of_le hi with rfl | hi
    · exact ⟨hnext, by simp [hc]⟩
    · exact ih hcs hi (by omega)

lemma copyInto_zeros {s e b : Nat} (h : s ≤ e ∧ e < 4096 ∧ b < file.length ∧ b = a + (e - s)) :
    ∃ page, copyInto (zeros 4096) s e file a b = some page ∧
      ∀ i, page.1.getD i 0 = if s ≤ i ∧ i ≤ e then file.getD (a + (i - s)) 0 else 0 := by
  obtain ⟨hs, he, hb, rfl⟩ := h
  refine ⟨_, dif_pos (by omega), fun i => ?_⟩
  simp only [splice, slice, zeros, getD_eq_getElem?_getD, List.getElem?_append, length_append,
    length_take, length_drop, length_replicate, List.getElem?_take, List.getElem?_drop,
    List.getElem?_replicate, Nat.min_eq_left (show s ≤ 4096 by omega)]
  -- inside the copied range the byte is one of the file, outside it is one of the zeros
  split_ifs <;> first | omega | rfl

lemma frameBytes_spec (hpos : 0 < ph.pFilesz) (hfile : ph.pOffset + ph.pFilesz ≤ file.length)
    (ha : ph.pPaddr / 4096 ≤ a) : ∃ page, frameBytes file ph (ph.pPaddr + (ph.pFilesz - 1)) a = some page ∧
      ∀ i < 4096, page.1.getD i 0 = imageByte file ph (4096 * a + i) := by
  unfold frameBytes imageByte
  dsimp only
  by_cases hle : a ≤ (ph.pPaddr + (ph.pFilesz - 1)) / 4096
  · rw [if_pos hle]
    generalize hs : max ph.pPaddr (4096 * a) = s
    generalize he : min (ph.pPaddr + (ph.pFilesz - 1)) (4096 * a + 4095) = e
    obtain ⟨page, hpage, hbytes⟩ := @copyInto_zeros file (ph.pOffset + (s - ph.pPaddr)) (s % 4096) (e % 4096)
      (ph.pOffset + (e - ph.pPaddr)) (by omega)
    refine ⟨page, ?_, fun i hi => ?_⟩
    · rw [if_pos (by omega), hpage]
    rw [hbytes]
    by_cases hin : s % 4096 ≤ i ∧ i ≤ e % 4096
    · rw [if_pos hin, if_pos (by omega)]
      congr 1
      omega
    · rw [if_neg hin, if_neg (by omega)]
  · rw [if_neg hle]
    refine ⟨_, rfl, fun i hi => ?_⟩
    rw [if_neg (by omega), zeros, getD_eq_getElem?_getD, List.getElem?_replicate, if_pos hi]
    rfl

lemma loadFrame_spec (hfit : Fits ph) (hfile : ph.pOffset + ph.pFilesz ≤ file.length) (ha : ph.pPaddr / 4096 ≤ a) :
    ∃ c, loadFrame cpuid file mask ph (ph.pPaddr + (ph.pFilesz - 1)) a = some c ∧
      c.physicalAddress = 4096 * a ∧ PayloadOk cpuid file ph c := by
  obtain ⟨hpos, -, hflags⟩ := hfit
  obtain ⟨page, hpage, hbytes⟩ := frameBytes_spec hpos hfile ha
  unfold loadFrame PayloadOk
  by_cases hcpuid : ph.cpuidPage
  · simp [hflags, hcpuid]
  by_cases hsecrets : ph.secretsPage
  · simp [hflags, hcpuid, hsecrets]
  simp only [hflags, hcpuid, hsecrets, hpage, Bool.not_true, Bool.false_eq_true, if_false, Option.map_some]
  exact ⟨_, rfl, rfl, page, rfl, hbytes⟩

lemma mem_frames {x : Nat} : x ∈ (List.range' (a / 4096) ((a + n) / 4096 + 1 - a / 4096)).map (4096 * ·) ↔
    4096 ∣ x ∧ ∃ k < n + 1, x ≤ a + k ∧ a + k < x + 4096 := by
  simp only [mem_map, mem_range'_1]
  constructor
  · rintro ⟨i, hi, rfl⟩
    exact ⟨Dvd.intro i rfl, max a (4096 * i) - a, by omega, by omega, by omega⟩
  · rintro ⟨⟨i, rfl⟩, k, hk, h⟩
    exact ⟨i, by omega, rfl⟩

lemma loadHeader_exact (hmem : 0 < ph.pMemsz) (hle : ph.pFilesz ≤ ph.pMemsz)
    (hfile : ph.pOffset + ph.pFilesz ≤ file.length) (hfit : Fits ph) :
    ∃ cs, loadHeader cpuid file mask ph = some cs ∧ Exact cpuid file ph cs := by
  have ⟨hpos, hend, _⟩ := hfit
  obtain ⟨cs, hcs, hmap, hall⟩ := @loadFrames_spec (loadFrame cpuid file mask ph (ph.pPaddr + (ph.pFilesz - 1)))
    ((ph.pPaddr + (ph.pMemsz - 1)) / 4096 + 1 - ph.pPaddr / 4096) (ph.pPaddr / 4096) (PayloadOk cpuid file ph)
    fun i hi hlt => ⟨by omega, loadFrame_spec hfit hfile hi⟩
  refine ⟨cs, ?_, ?_, fun a => ?_, hall⟩
  · simp only [loadHeader, ProgramHeader.endInclusive]
    rw [if_pos (by omega), if_pos (by omega)]
    exact hcs
  · rw [hmap]
    exact (pairwise_lt_range' _).map _ (by omega)
  · rw [hmap, mem_frames, Nat.sub_add_cancel hmem]

lemma fits_of_loadHeader {cs : List LoadCommand} (h : loadHeader cpuid file mask ph = some cs) : Fits ph := by
  unfold loadHeader at h
  obtain ⟨endFile, hend, h⟩ := Option.bind_eq_some_iff.1 h
  obtain ⟨endAddr, haddr, h⟩ := Option.bind_eq_some_iff.1 h
  obtain ⟨hfilesz, ⟨⟩⟩ := Option.ite_none_right_eq_some.1 hend
  obtain ⟨hmemsz, ⟨⟩⟩ := Option.ite_none_right_eq_some.1 haddr
  -- the last frame of the range has a command, and the iterator a frame behind it
  obtain ⟨hlast, hsome⟩ := @of_loadFrames _ _ _ _ h ((ph.pPaddr + (ph.pMemsz - 1)) / 4096) (by omega) (by omega)
  refine ⟨hfilesz.1, hlast, ?_⟩
  by_contra hflags
  simp [loadFrame, hflags] at hsome

/-- In every file, behind headers that were loaded: the commands for a `PT_LOAD` header without the no-load flag
are those of the image exactly if its segment fits. -/
theorem load_exact_iff (cpuid : Page) (file : Bytes) (mask : BitVec 8) (phs : List ProgramHeader)
    (xs : List LoadCommand) (hphs : load cpuid file mask phs = some xs) (ph : ProgramHeader) (hph : ph.loads)
    (hmem : 0 < ph.pMemsz) (hle : ph.pFilesz ≤ ph.pMemsz) (hfile : ph.pOffset + ph.pFilesz ≤ file.length) :
    (∃ cs, load cpuid file mask (phs ++ [ph]) = some (xs ++ cs) ∧ Exact cpuid file ph cs) ↔ Fits ph := by
  have hload : load cpuid file mask (phs ++ [ph]) = (loadHeader cpuid file mask ph).map (xs ++ ·) := by
    unfold load at hphs
    simp [load, filter_append, hph, hphs]
  constructor
  · rintro ⟨cs, h, -⟩
    rw [hload] at h
    obtain ⟨cs', hcs, -⟩ := Option.map_eq_some_iff.1 h
    exact fits_of_loadHeader hcs
  · intro hfit
    obtain ⟨cs, hcs, hexact⟩ := loadHeader_exact hmem hle hfile hfit
    exact ⟨cs, by rw [hload, hcs, Option.map_some], hexact⟩

theorem load_exact_one_byte : ∃ cs, load (zeros 4096) [7] 0 [⟨1, 4, 0, 0x1fff, 1, 2⟩] = some cs ∧
    Exact (zeros 4096) [7] ⟨1, 4, 0, 0x1fff, 1, 2⟩ cs :=
  (load_exact_iff (zeros 4096) [7] 0 [] [] rfl ⟨1, 4, 0, 0x1fff, 1, 2⟩ (by decide) (by decide) (by decide)
    (by decide)).2 (by decide)

/-- A segment without bytes in the file, one at the end of the 52-bit space, and one with two flags. -/
theorem load_panics : load (zeros 4096) [7] 0 [⟨1, 6, 0, 0x1000, 0, 0x1000⟩] = none ∧
    load (zeros 4096) [7] 0 [⟨1, 6, 0, 0xffffffffff000, 1, 1⟩] = none ∧
    load (zeros 4096) [7] 0 [⟨1, 0x30000004, 0, 0x1000, 1, 1⟩] = none := by
  decide

end Mushroom.L3.Image
