import Mushroom.L3Launch.InputChain

/-!
# The init binary

Three parties compute where the init binary ends: the loader from its chunks,
the TDX supervisor from the length in the header, and the kernel by walking
the headers. `init_mapping`: the frames the supervisor makes readable are the
loader's, and the kernel reads the binary from these frames alone.
-/
namespace Mushroom.L3
open List L1 L2

/-- `INIT_FILE`: 64 GiB.
common/constants/src/physical_address.rs:107-108 -/
def initFileStart : Nat := 0x30000000000

def initPages : Nat := 2 ^ 24

/-- common/io/src/input.rs:25-32 -/
def withoutHash (bytes : Bytes) : Header := ⟨BitVec.ofNat 64 bytes.length, .sha256, zeros 48, zeros 32⟩

/-- The pages with their permissions for VMPL 1: `READ`, and `EXECUTE_USER` for the binary.
common/loader/src/init.rs:16-35 -/
def initPayloads (init : Bytes) : List (BitVec 8 × Page) :=
  (0b001, (withoutHash init).page) :: ((dataPages init).map fun bytes => (0b101, bytes)) ++ [(0b001, Header.last.page)]

/-- The loader's `load_init`: at most as many commands as the region has pages.
init.rs:11-44 -/
def loadInit (init : Bytes) : List LoadCommand :=
  ((initPayloads init).zip (List.range initPages)).map fun x => ⟨initFileStart + 4096 * x.2, x.1.1, .normal x.1.2⟩

/-- `PhysAddr::new`; `none` is its panic. -/
def physAddr (addr : Nat) : Option Nat := if addr < 2 ^ 52 then some addr else none

/-- The supervisor's `load_init`: the frames whose attributes it sets. `mem` is the region, from its first byte on.
tee/supervisor-tdx/src/input.rs:190-202 -/
def makeReadable (mem : Nat → UInt8) : Option (List Nat) := do
  let inputLen := leNat (readMem mem 0 8)
  let behind ← physAddr (initFileStart + 0x1000 + inputLen)
  let «end» ← physAddr ((behind - 1) / 4096 * 4096 + 4096)
  some ((List.range' (initFileStart / 4096) («end» / 4096 + 1 - initFileStart / 4096)).map (4096 * ·))

/-- What the host does with the load commands, before the first instruction. -/
def Placed (mem : Nat → UInt8) (commands : List LoadCommand) : Prop :=
  ∀ c ∈ commands, ∀ p, c.payload = .normal p → readMem mem (c.physicalAddress - initFileStart) 4096 = p.1

variable {init : Bytes} {mem : Nat → UInt8}

@[simp] lemma initPayloads_length (init : Bytes) : (initPayloads init).length = stepByCount init.length + 2 := by
  simp [initPayloads]

lemma initPayloads_pages (init : Bytes) : (initPayloads init).map Prod.snd =
    (withoutHash init).page :: (dataPages init ++ [Header.last.page]) := by
  simp [initPayloads, Function.comp_def]

lemma loadInit_addresses (hfit : stepByCount init.length + 2 ≤ initPages) :
    (loadInit init).map LoadCommand.physicalAddress =
      (List.range (stepByCount init.length + 2)).map (initFileStart + 4096 * ·) := by
  apply ext_getElem
  · simpa [loadInit] using hfit
  intro i _ _
  simp [loadInit]

section

variable (h : Placed mem (loadInit init)) (hfit : stepByCount init.length + 2 ≤ initPages)
include h hfit

lemma Placed.holds :
    Holds mem 0 (((initPayloads init).map Prod.snd).map Subtype.val) := by
  refine holds_of_pages (k := 0) fun i hi => ?_
  have hi : i < (initPayloads init).length := by simpa using hi
  have hlt : i < initPages := by
    rw [initPayloads_length] at hi
    omega
  have hmem : (⟨initFileStart + 4096 * i, (initPayloads init)[i].1, .normal (initPayloads init)[i].2⟩ : LoadCommand) ∈
      loadInit init := by
    refine mem_map.2 ⟨((initPayloads init)[i], i),
      mem_iff_getElem.2 ⟨i, by simpa using ⟨by simpa using hi, hlt⟩, ?_⟩, rfl⟩
    rw [getElem_zip, getElem_range]
  have := h _ hmem _ rfl
  rw [Nat.add_sub_cancel_left] at this
  simpa using this

lemma Placed.layout :
    Layout mem 0 [init] (4096 * (stepByCount init.length + 2)) := by
  have hcount := stepByCount_eq init.length
  have hpages : 4096 * initPages < 2 ^ 64 - 1 := by decide
  have hpad : (pad (4096 * stepByCount init.length) init).length = 4096 * stepByCount init.length :=
    pad_length (by omega)
  have hholds := h.holds hfit
  rw [initPayloads_pages, map_cons, map_append, holds_cons, holds_append, dataPages_flatten, hpad] at hholds
  obtain ⟨hpage, hdata, hlast⟩ := hholds
  have hdata := hdata.flatten
  rw [dataPages_flatten, hpad] at hdata
  have hlast := headerAt_length (headerAt_page ((holds_cons _ _).1 hlast).1)
  have hlen : (withoutHash init).inputLen.toNat = init.length :=
    (BitVec.toNat_ofNat ..).trans (Nat.mod_eq_of_lt (by omega))
  have hword := headerAt_length (headerAt_page hpage)
  rw [hlen] at hword
  have hinit : readMem mem (0 + 4096) init.length = init := by
    rw [← readMem_take (show init.length ≤ 4096 * stepByCount init.length by omega), hdata, pad, take_left' rfl]
  have hdone := Layout.done hlast
  rw [show 0 + 4096 + 4096 * stepByCount init.length + 4096 = 4096 * (stepByCount init.length + 2) by omega] at hdone
  exact .input (by omega) hword hinit hdone

end

/-- The supervisor's inclusive end is the frame of the end header, also for an empty binary and for full pages. -/
lemma makeReadable_eq (hword : readMem mem 0 8 = leBytes 8 init.length)
    (hfit : stepByCount init.length + 2 ≤ initPages) :
    makeReadable mem = some ((List.range (stepByCount init.length + 2)).map (initFileStart + 4096 * ·)) := by
  have hcount := stepByCount_eq init.length
  unfold initPages at hfit
  have hlen : leNat (leBytes 8 init.length) = init.length := leNat_leBytes (by omega)
  have hframes : ((initFileStart + 0x1000 + init.length - 1) / 4096 * 4096 + 4096) / 4096 + 1 - initFileStart / 4096 =
      stepByCount init.length + 2 := by
    unfold initFileStart
    omega
  unfold makeReadable physAddr
  simp only [hword, hlen]
  rw [if_pos (by unfold initFileStart; omega)]
  simp only [Option.bind_eq_bind, Option.bind_some]
  rw [if_pos (by unfold initFileStart; omega)]
  simp only [Option.bind_some, hframes, Option.some.injEq]
  apply ext_getElem
  · simp
  intro i _ _
  simp only [getElem_map, getElem_range', getElem_range]
  unfold initFileStart
  omega

/-- **The init mapping matches the loader.** For every binary that fits the region, the supervisor makes exactly the
frames readable that the loader has a command for; from a region of these frames the kernel copies exactly the
binary (an access to another frame is a fault). -/
theorem init_mapping (hfit : stepByCount init.length + 2 ≤ initPages) (hload : Placed mem (loadInit init))
    {A : Allocator} {h : Heap} {R : List KernelPage} (ho : Own h R) (hs : Supplies A h) :
    ∃ pages, (loadInit init).map LoadCommand.physicalAddress = (List.range pages).map (initFileStart + 4096 * ·) ∧
      makeReadable mem = some ((loadInit init).map LoadCommand.physicalAddress) ∧
      ∃ b' h', copyTo (bufferFile A) ⟨pages, mem⟩ (Buffer.new, h) = some (.ok (), b', h') ∧
        b'.len = init.length ∧ ∀ i, b'.byte h' i = init.getD i 0 := by
  have haddr := loadInit_addresses hfit
  have hlayout := hload.layout hfit
  refine ⟨stepByCount init.length + 2, haddr, ?_, ?_⟩
  · rw [haddr]
    cases hlayout with
    | input _ hword _ _ => exact makeReadable_eq hword hfit
  obtain ⟨⟨b', h'⟩, hcopy, hb⟩ := copyLoop_layout (bufferFile_spec A R) hlayout le_rfl
    (by unfold initPages at hfit; omega) (Nat.zero_le _) (bufferIs_new ho hs)
  have hflat : [] ++ [init].flatten = init := by simp
  rw [hflat] at hb
  exact ⟨b', h', hcopy, hb.len, hb.byte⟩

/-- A binary of three bytes: a header, one page of data and the end header. -/
def smallInit (a : Nat) : UInt8 :=
  if a < 4096 then (withoutHash [1, 2, 3]).bytes.getD a 0
  else if a < 8192 then [1, 2, 3].getD (a - 4096) 0 else Header.last.bytes.getD (a - 8192) 0

lemma smallInit_placed : Placed smallInit (loadInit [1, 2, 3]) := by
  have hcs : loadInit [1, 2, 3] = [⟨initFileStart, 1, .normal (withoutHash [1, 2, 3]).page⟩,
      ⟨initFileStart + 4096, 5, .normal (page [1, 2, 3] (by decide))⟩,
      ⟨initFileStart + 8192, 1, .normal Header.last.page⟩] := by
    have hrange : List.range initPages = 0 :: 1 :: 2 :: (List.range' 3 (initPages - 3)) := by
      rw [range_eq_range']
      rfl
    unfold loadInit
    rw [hrange]
    rfl
  intro c hc p hp
  rw [hcs] at hc
  simp only [mem_cons, not_mem_nil, or_false] at hc
  rcases hc with rfl | rfl | rfl <;> cases hp
  · apply readMem_page
    intro i hi
    simp [smallInit, hi]
  · apply readMem_page
    intro i hi
    simp [smallInit, show 4096 + i < 8192 by omega]
  · apply readMem_page
    intro i hi
    simp [smallInit, show ¬8192 + i < 4096 by omega]

theorem init_mapping_small : makeReadable smallInit = some ((loadInit [1, 2, 3]).map LoadCommand.physicalAddress) ∧
    ∃ pages b' h', copyTo (bufferFile bump) ⟨pages, smallInit⟩ (Buffer.new, Heap.fresh) = some (.ok (), b', h') ∧
      b'.len = 3 := by
  obtain ⟨pages, -, hframes, b', h', hcopy, hlen, -⟩ := init_mapping (by rw [stepByCount_eq]; decide) smallInit_placed
    own_fresh bump_supplies
  exact ⟨hframes, pages, b', h', hcopy, hlen⟩

end Mushroom.L3
