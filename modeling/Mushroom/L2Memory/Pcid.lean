import Mushroom.Core.LTS

/-!
# Process-context identifiers

`kernel/memory/pagetable.rs:1510-1562`. A `PcidAllocation` holds its PCID until it is
dropped, which flushes it. `dirty` are the PCIDs handed out since their last flush.
-/
namespace Mushroom.L2
open Function List Fin.CommRing

structure PcidAllocations where
  lastIdx : Fin 4096
  inUse : Fin 4096 → Bool

/-- The loop of `allocate` with `n` rounds left; `none` is its failed assertion. -/
def searchPcid (inUse : Fin 4096 → Bool) : Nat → Fin 4096 → Option (Fin 4096)
  | 0, _ => none
  | n + 1, i => if inUse i then searchPcid inUse n (i + 1) else some i

def PcidAllocations.allocate (a : PcidAllocations) : Option (Fin 4096 × PcidAllocations) :=
  (searchPcid a.inUse 4096 a.lastIdx).map fun i => (i, ⟨i + 1, update a.inUse i true⟩)

structure PcidState extends PcidAllocations where
  live : List (Fin 4096)
  dirty : Fin 4096 → Bool

inductive PcidOp where
  | allocate | drop (i : Fin 4096)

def PcidState.step (s : PcidState) : PcidOp → Option PcidState
  | .allocate => s.allocate.map fun (i, a) => ⟨a, i :: s.live, update s.dirty i true⟩
  | .drop i =>
    if i ∈ s.live then
      some ⟨⟨s.lastIdx, update s.inUse i false⟩, s.live.erase i, update s.dirty i false⟩
    else none

def PcidState.new : PcidState := ⟨⟨0, (· = 0)⟩, [], fun _ => false⟩

def pcids : LTS PcidState PcidOp := .ofFn (· = .new) PcidState.step

structure PcidState.Ok (s : PcidState) : Prop where
  used : ∀ i, (s.inUse i ↔ i = 0 ∨ i ∈ s.live) ∧ (s.dirty i → i ∈ s.live)
  nodup : s.live.Nodup
  zero : 0 ∉ s.live

variable {inUse : Fin 4096 → Bool} {n : Nat} {i j : Fin 4096}

lemma searchPcid_some (h : searchPcid inUse n i = some j) : inUse j = false := by
  induction n generalizing i with
  | zero => cases h
  | succ n ih =>
    rw [searchPcid] at h
    split at h
    · exact ih h
    · simp_all

/-- The search looks at `n` PCIDs in a row. -/
lemma searchPcid_none : searchPcid inUse n i = none ↔ ∀ k < n, inUse (i + (k : Fin 4096)) := by
  induction n generalizing i with
  | zero => simp [searchPcid]
  | succ n ih =>
    rw [searchPcid, Nat.forall_lt_succ_left]
    push_cast
    split <;> simp_all [add_left_comm, add_comm]

lemma PcidState.ok : pcids.Inductive PcidState.Ok where
  init s hs := by
    cases hs
    constructor <;> simp [new]
  step s l s' hs hst := by
    have hu := hs.used
    have hn := hs.nodup
    have h0 := hs.zero
    cases l with
    | allocate =>
      obtain ⟨_, ha, rfl⟩ := Option.map_eq_some_iff.1 hst
      obtain ⟨i, hi, rfl⟩ := Option.map_eq_some_iff.1 ha
      have hi := (hu i).1.not.1 (by simp [searchPcid_some hi])
      refine ⟨fun j => ?_, ?_, ?_⟩
      · by_cases hj : j = i <;> simp_all
      · simp_all
      · simpa [h0] using fun h => hi (.inl h.symm)
    | drop i =>
      obtain ⟨hi, he⟩ := Option.ite_none_right_eq_some.1 hst
      cases he
      have hi0 : i ≠ 0 := fun h => h0 (h ▸ hi)
      refine ⟨fun j => ?_, hn.erase i, fun h => h0 (mem_of_mem_erase h)⟩
      by_cases hj : j = i <;> simp_all [hn.mem_erase_iff]

theorem pcid_allocate (s : PcidState) (h : pcids.Reachable s) :
    (∀ i a, s.allocate = some (i, a) → i ≠ 0 ∧ i ∉ s.live ∧ s.dirty i = false) ∧
      (s.allocate = none ↔ ∀ i ≠ 0, i ∈ s.live) := by
  have hs := (PcidState.ok.reachable s h).used
  constructor
  · intro i a ha
    obtain ⟨j, hj, he⟩ := Option.map_eq_some_iff.1 ha
    cases he
    have hi := (hs i).1.not.1 (by simp [searchPcid_some hj])
    have hd := mt (hs i).2
    simp_all
  · rw [PcidAllocations.allocate, Option.map_eq_none_iff, searchPcid_none]
    refine ⟨fun ha i hi => ?_, fun ha k _ => (hs _).1.2 (or_iff_not_imp_left.2 (ha _))⟩
    have hu := (hs i).1.1 (by simpa using ha (i - s.lastIdx).1 (i - s.lastIdx).2)
    exact hu.resolve_left hi

/-- Two are allocated and the first is given back. -/
theorem pcid_allocate_reused : ∃ s, pcids.Reachable s ∧ s.live = [2] ∧
    ∃ i a, s.allocate = some (i, a) ∧ i ≠ 0 ∧ i ∉ s.live ∧ s.dirty i = false := by
  have hrun : ((LTS.runFn PcidState.step .new [.allocate, .allocate, .drop 1]).any fun s =>
      decide (s.live = [2]) && s.allocate.isSome) = true := by decide +kernel
  obtain ⟨s, hs, hp⟩ := (Option.any_eq_true _ _).1 hrun
  obtain ⟨hlive, hsome⟩ := Bool.and_eq_true_iff.1 hp
  obtain ⟨⟨i, a⟩, ha⟩ := Option.isSome_iff_exists.1 hsome
  have hreach : pcids.Reachable s := ⟨_, _, rfl, LTS.runFn_run hs⟩
  exact ⟨s, hreach, of_decide_eq_true hlive, i, a, ha, (pcid_allocate s hreach).1 i a ha⟩

end Mushroom.L2
