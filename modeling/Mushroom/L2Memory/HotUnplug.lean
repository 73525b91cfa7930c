import Mushroom.L2Memory.FrameRuns

/-!
# Hot-unplug of unused chunks

`drop` of a `PrivateState` gives completely unused chunks back. Its loop looks
only at the owner's copies, and these count 512 frames only for a chunk of which
no frame is in use, so what is given back is free (`unplug_clear`). But the test
`self.free < CHUNK_SIZE` is the wrong way round: with an unused chunk among the
copies, `free` is at least 512 and the chunk stays, unless a remote free is
between its two counters; then the chunk is given back and `self.free -=
CHUNK_SIZE` runs below zero (`unplug_exact_iff`).
-/
namespace Mushroom.L2.FrameAlloc
open Option Function Ledger

variable {ι : Type} [Fintype ι] [DecidableEq ι] {A : Slots} {s s' : State ι} {i : ι} {k : After} {st : PrivateState}

/-! ## The loop -/

def Takes (st : PrivateState) (c : ChunkIndex) : Prop := st.free < 512 ∧ st.l1Metadata c = 512

omit [Fintype ι] in
lemma next_other {j : ι} {a : Act} (hj : j ≠ i) (hs : next s (j, a) = some s') : s'.cpus i = s.cpus i := by
  cases a with
  | run slot =>
    obtain ⟨o, -, rfl⟩ := map_eq_some_iff.1 hs
    exact update_of_ne hj.symm ..
  | allocateFrame | releasePrivate =>
    simp only [next, idle_of_call (by simp) hs] at hs
    cases hs
    exact update_of_ne hj.symm ..
  | deallocateFrame f =>
    simp only [next, idle_of_call (by simp) hs] at hs
    split at hs
    · cases hs
      exact update_of_ne hj.symm ..
    · cases hs

omit [Fintype ι] in
/-- A step of the loop: a chunk is given back and the CPU stops, or nothing is done. -/
lemma unplug_step {n : Nat} {a : Act} (hpc : (s.cpus i).pc = .unplug k st n) (hs : next s (i, a) = some s') :
    (∃ c : ChunkIndex, c.val = n ∧ Takes st c ∧ (s'.cpus i).pc = .panicked (st.plugOut c) ∧
      s'.mem = s.mem.setPlugged (st.physicalAddresses c) false) ∨
    (s'.mem = s.mem ∧ (∀ c : ChunkIndex, c.val = n → ¬Takes st c) ∧
      (s'.cpus i).pc = if n < 8 then .unplug k st (n + 1) else .storeSlot k st 0) := by
  cases a with
  | run slot =>
    obtain ⟨o, ho, rfl⟩ := map_eq_some_iff.1 hs
    simp only [exec, hpc, Out.into, update_self] at ho ⊢
    split at ho
    · rename_i hn
      split at ho
      · rename_i htakes
        rw [if_neg (by omega)] at ho
        cases ho
        exact .inl ⟨⟨n, hn⟩, rfl, htakes, rfl, rfl⟩
      rename_i hno
      cases ho
      refine .inr ⟨rfl, fun c hc => ?_, (if_pos hn).symm⟩
      have he : c = ⟨n, hn⟩ := Fin.ext hc
      rw [he]
      exact hno
    · rename_i hn
      cases ho
      refine .inr ⟨rfl, fun c hc => absurd c.isLt (by omega), (if_neg hn).symm⟩
  | allocateFrame | releasePrivate | deallocateFrame f =>
    have hidle := idle_of_call (by simp) hs
    rw [hpc] at hidle
    cases hidle

omit [Fintype ι] in
lemma unplug_next {n : Nat} (hpc : (s.cpus i).pc = .unplug k st n) : ∃ s', next s (i, .run 0) = some s' := by
  simp only [next, exec, hpc, Out.at]
  split
  · split <;> exact ⟨_, rfl⟩
  · exact ⟨_, rfl⟩

/-- The steps of the CPU are those of the loop; the other CPUs do what they like. -/
def InLoop (i : ι) (s : State ι) (l : ι × Act) : Prop := l.1 = i → ∃ k st n, (s.cpus i).pc = .unplug k st n

/-- Where the CPU is in the loop: at a chunk, behind the last one, or stopped. -/
inductive LoopAt (k : After) (st : PrivateState) : Pc → Prop where
  | chunk (n : Nat) : (∀ c : ChunkIndex, c.val < n → ¬Takes st c) → LoopAt k st (.unplug k st n)
  | finished : (∀ c, ¬Takes st c) → LoopAt k st (.storeSlot k st 0)
  | stopped (c : ChunkIndex) : Takes st c → LoopAt k st (.panicked (st.plugOut c))

omit [Fintype ι] in
lemma LoopAt.step {l : ι × Act} (hat : LoopAt k st (s.cpus i).pc) (hin : InLoop i s l) (hs : next s l = some s') :
    LoopAt k st (s'.cpus i).pc := by
  obtain ⟨j, a⟩ := l
  by_cases hj : j = i
  · subst hj
    obtain ⟨k', st', n, hpc⟩ := hin rfl
    rw [hpc] at hat
    cases hat with
    | chunk _ hbefore =>
      rcases unplug_step hpc hs with ⟨c, -, htakes, hpc', -⟩ | ⟨-, hno, hpc'⟩
      · rw [hpc']
        exact .stopped c htakes
      have hupto : ∀ c : ChunkIndex, c.val < n + 1 → ¬Takes st c := fun c hc =>
        (Nat.lt_succ_iff_lt_or_eq.1 hc).elim (hbefore c) (hno c)
      rw [hpc']
      split
      · exact .chunk _ hupto
      · exact .finished fun c => hupto c (by omega)
  · rw [next_other hj hs]
    exact hat

omit [Fintype ι] in
lemma LoopAt.run {ls : List (ι × Act)} (hat : LoopAt k st (s.cpus i).pc)
    (hrun : ((frames ι).only (InLoop i)).Run s ls s') : LoopAt k st (s'.cpus i).pc := by
  refine hrun.keeps (P := fun s => LoopAt k st (s.cpus i).pc) ?_ hat
  rintro s l s' hat ⟨hin, hs⟩
  exact hat.step hin hs

omit [Fintype ι] in
/-- The loop ends, behind the last chunk or with a panic. -/
lemma loop_ends {n : Nat} (hpc : (s.cpus i).pc = .unplug k st n) (hn : n ≤ 8) :
    ∃ ls s', ((frames ι).only (InLoop i)).Run s ls s' ∧
      ((s'.cpus i).pc = .storeSlot k st 0 ∨ ∃ c, (s'.cpus i).pc = .panicked (st.plugOut c)) := by
  induction hm : 8 - n generalizing s n with
  | zero =>
    obtain ⟨s1, hs⟩ := unplug_next hpc
    refine ⟨[(i, .run 0)], s1, .cons ⟨fun _ => ⟨k, st, n, hpc⟩, hs⟩ (.nil _), ?_⟩
    rcases unplug_step hpc hs with ⟨c, -, -, hpc', -⟩ | ⟨-, -, hpc'⟩
    · exact .inr ⟨c, hpc'⟩
    rw [if_neg (by omega)] at hpc'
    exact .inl hpc'
  | succ m ih =>
    obtain ⟨s1, hs⟩ := unplug_next hpc
    have hstep : ((frames ι).only (InLoop i)).step s (i, .run 0) s1 := ⟨fun _ => ⟨k, st, n, hpc⟩, hs⟩
    rcases unplug_step hpc hs with ⟨c, -, -, hpc', -⟩ | ⟨-, -, hpc'⟩
    · exact ⟨[(i, .run 0)], s1, .cons hstep (.nil _), .inr ⟨c, hpc'⟩⟩
    rw [if_pos (by omega)] at hpc'
    obtain ⟨ls, s', hrun, hend⟩ := ih hpc' (by omega) (by omega)
    exact ⟨_, s', .cons hstep hrun, hend⟩

/-! ## What is given back -/

def Unused (m : Memory) (g : GroupIndex) (c : ChunkIndex) : Prop := ∀ j, m.bits g c j = false

omit [DecidableEq ι] in
/-- A chunk that the loop takes out is free: no caller has a frame of its slot. -/
lemma unplug_clear (h : Inv A s) {n : Nat} {c : ChunkIndex} (hpc : (s.cpus i).pc = .unplug k st n)
    (htakes : Takes st c) : Unused s.mem st.groupIdx c ∧ ∀ j, s.live ⟨st.physicalAddresses c, j⟩ = none := by
  have hx : s.cpus i = ⟨(s.cpus i).guard, .unplug k st n⟩ := by rw [← hpc]
  obtain ⟨hA, hclear, -⟩ := h.full_chunk hx htakes.2
  refine ⟨hclear, fun j => ?_⟩
  have hused := h.uses.used _ _ _ hA j
  rw [hclear j, Bool.toNat_false] at hused
  cases hl : s.live ⟨st.physicalAddresses c, j⟩ with
  | none => rfl
  | some p =>
    rw [hl] at hused
    simp at hused

/-- Every free frame of the group is in the owner's copies: no remote free is on its way or has come since
`refresh`. -/
structure Collected (s : State ι) (g : GroupIndex) : Prop where
  l1 : ∀ c, s.mem.l1 g c = 0
  l2 : freeBits (s.mem.l2 g) = 0
  addL1 : ∀ j c, (s.cpus j).pc ≠ .addL1 g c
  addL2 : ∀ j full, (s.cpus j).pc ≠ .addL2 g full

/-- What is given back is free, the count does not run below zero, and if all free frames are in the copies
every unused chunk is given back. -/
structure UnplugsExactly (s : State ι) (i : ι) (k : After) (st : PrivateState) : Prop where
  unused : ∀ ls s₁ slot s₂, ((frames ι).only (InLoop i)).Run s ls s₁ → InLoop i s₁ (i, .run slot) →
    next s₁ (i, .run slot) = some s₂ → ∀ p, s₁.mem.plugged p = true → s₂.mem.plugged p = false →
    ∀ j, s₁.live ⟨p, j⟩ = none
  subtracts : ∀ ls s₁ st', ((frames ι).only (InLoop i)).Run s ls s₁ → (s₁.cpus i).pc ≠ .panicked st'
  all : Collected s st.groupIdx → ∀ ls s₁ st', ((frames ι).only (InLoop i)).Run s ls s₁ →
    (s₁.cpus i).pc = .storeSlot k st' 0 →
    ∀ c : ChunkIndex, st.allocatedBitmask.getLsbD c = true → Unused s.mem st.groupIdx c →
    st'.allocatedBitmask.getLsbD c = false

/-- **Hot-unplug.** For any number of CPUs, in every interleaving: when `drop` has refreshed its copies, its loop
does what it should exactly if there is nothing to do. A remote free is still on its way or each plugged
chunk has a frame in use, and no chunk has all its frames in `l1_metadata` while `free` is below 512. -/
theorem unplug_exact_iff {ι : Type} [Fintype ι] [DecidableEq ι] (s : State ι) (hr : (frames ι).Reachable s) (i : ι)
    (k : After) (st : PrivateState) (hpc : (s.cpus i).pc = .unplug k st 0) : UnplugsExactly s i k st ↔
      ((Collected s st.groupIdx → ∀ c : ChunkIndex, st.allocatedBitmask.getLsbD c = true →
          ∃ j, s.mem.bits st.groupIdx c j = true) ∧ (st.free < 512 → ∀ c, st.l1Metadata c ≠ 512)) := by
  have hat : LoopAt k st (s.cpus i).pc := by
    rw [hpc]
    exact .chunk 0 fun c hc => absurd hc (Nat.not_lt_zero _)
  constructor
  · intro hex
    obtain ⟨ls, s1, hrun, hend⟩ := loop_ends hpc (Nat.zero_le 8)
    have hover : (s1.cpus i).pc = .storeSlot k st 0 :=
      hend.resolve_right fun ⟨c, hc⟩ => hex.subtracts ls s1 _ hrun hc
    refine ⟨fun hcol c hc => ?_, fun hfree c hfull => ?_⟩
    · by_contra hno
      have hunused : Unused s.mem st.groupIdx c := fun j => by
        by_contra hj
        exact hno ⟨j, by simpa using hj⟩
      have hout := hex.all hcol ls s1 st hrun hover c hc hunused
      rw [hc] at hout
      cases hout
    · have hend := hat.run hrun
      rw [hover] at hend
      cases hend with
      | finished hnone => exact hnone c ⟨hfree, hfull⟩
  rintro ⟨hused, hfull⟩
  have hnone : ∀ c, ¬Takes st c := fun c htakes => hfull htakes.1 c htakes.2
  refine ⟨fun ls s1 slot s2 hrun hin hs p hp hout j => ?_, fun ls s1 st' hrun hpanic => ?_,
    fun hcol ls s1 st' hrun hover c hc hunused => ?_⟩
  · obtain ⟨k', st', n, hpc'⟩ := hin rfl
    obtain ⟨A, h⟩ := inv_reachable (hr.run hrun.of_only)
    rcases unplug_step hpc' hs with ⟨c, -, htakes, -, hmem⟩ | ⟨hmem, -⟩
    · have he : p = st'.physicalAddresses c := by
        by_contra hne
        have hsame : s2.mem.plugged p = s1.mem.plugged p := by
          rw [hmem]
          exact update_of_ne hne ..
        rw [hsame, hp] at hout
        cases hout
      rw [he]
      exact (unplug_clear h hpc' htakes).2 j
    · rw [hmem, hp] at hout
      cases hout
  · have hend := hat.run hrun
    rw [hpanic] at hend
    cases hend with
    | stopped c htakes => exact hnone c htakes
  · obtain ⟨j, hj⟩ := hused hcol c hc
    rw [hunused j] at hj
    cases hj

/-! ## Fixed runs -/

def loopStart : Pc → Option PrivateState
  | .unplug .done st 0 => some st
  | _ => none

lemma loopStart_eq {pc : Pc} (h : loopStart pc = some st) : pc = .unplug .done st 0 := by
  unfold loopStart at h
  split at h
  · cases h
    rfl
  · cases h

def runs (i : Bool) (n : Nat) : List (Bool × Act) := List.replicate n (i, .run 0)

/-- The first CPU allocates a frame; the calls `ls` follow, and it drops its private state. -/
def allocateThen (ls : List (Bool × Act)) : Option (State Bool) :=
  LTS.runFn next (claiming false .isFree 0) (runs false 36 ++ (ls ++ ((false, .releasePrivate) :: runs false 10)))

lemma allocateThen_reachable {ls : List (Bool × Act)} {s : State Bool} (h : allocateThen ls = some s) :
    (frames Bool).Reachable s := (claiming_reachable false).run (LTS.runFn_run h)

/-- The frame is still in use: the loop has nothing to do. -/
theorem unplug_exact_used : ∃ (s : State Bool) (st : PrivateState), (frames Bool).Reachable s ∧
    (s.cpus false).pc = .unplug .done st 0 ∧ st.allocatedBitmask.getLsbD 0 = true ∧
      UnplugsExactly s false .done st := by
  have hrun : ((allocateThen []).any fun s => (loopStart (s.cpus false).pc).any fun st =>
      st.allocatedBitmask == 1 && s.mem.bits st.groupIdx 0 0 && (List.finRange 8).all fun c => st.l1Metadata c != 512) =
        true := by decide +kernel
  obtain ⟨s, hs, hst⟩ := (any_eq_true _ _).1 hrun
  obtain ⟨st, hloop, hc⟩ := (any_eq_true _ _).1 hst
  simp only [Bool.and_eq_true, beq_iff_eq, List.all_eq_true, List.mem_finRange, forall_const, bne_iff_ne] at hc
  obtain ⟨⟨hmask, hbit⟩, hfull⟩ := hc
  have hr := allocateThen_reachable hs
  refine ⟨s, st, hr, loopStart_eq hloop, by rw [hmask]; rfl, ?_⟩
  refine (unplug_exact_iff s hr false .done st (loopStart_eq hloop)).2 ⟨fun _ c hc => ?_, fun _ => hfull⟩
  have h0 : c = 0 := by
    rw [hmask] at hc
    revert hc
    revert c
    decide
  exact ⟨0, by rw [h0]; exact hbit⟩

/-- The owner frees its only frame and drops the group: the unused chunk is not given back. Another CPU frees
it instead, with the drop between the two counters: the chunk is given back, and the count runs below zero. -/
theorem unplug_keeps_or_panics :
    (∃ (s s₁ : State Bool) (st : PrivateState) (ls : List (Bool × Act)), (frames Bool).Reachable s ∧
      (s.cpus false).pc = .unplug .done st 0 ∧ Collected s st.groupIdx ∧ st.allocatedBitmask.getLsbD 0 = true ∧
      Unused s.mem st.groupIdx 0 ∧ ((frames Bool).only (InLoop false)).Run s ls s₁ ∧
      (s₁.cpus false).pc = .storeSlot .done st 0) ∧
    ∃ (s s₁ : State Bool) (st : PrivateState) (slot : SlotIndex), (frames Bool).Reachable s ∧
      (s.cpus false).pc = .unplug .done st 0 ∧ next s (false, .run 0) = some s₁ ∧ s.mem.plugged slot = true ∧
      s₁.mem.plugged slot = false ∧ (s₁.cpus false).pc = .panicked (st.plugOut 0) := by
  constructor
  · have hrun : ((allocateThen ((false, .deallocateFrame ⟨0, 0⟩) :: runs false 2)).any fun s =>
        (loopStart (s.cpus false).pc).any fun st => st.groupIdx == 0 && decide (512 ≤ st.free) &&
          st.allocatedBitmask.getLsbD 0 && (s.cpus true).pc.isIdle && (freeBits (s.mem.l2 0) == 0) &&
          ((List.finRange 8).all fun c => s.mem.l1 0 c == 0) &&
          (List.finRange 512).all fun j => !s.mem.bits 0 0 j) = true := by decide +kernel
    obtain ⟨s, hs, hst⟩ := (any_eq_true _ _).1 hrun
    obtain ⟨st, hloop, hc⟩ := (any_eq_true _ _).1 hst
    simp only [Bool.and_eq_true, beq_iff_eq, decide_eq_true_eq, List.all_eq_true, List.mem_finRange, forall_const,
      Bool.not_eq_true', Pc.isIdle_iff] at hc
    obtain ⟨⟨⟨⟨⟨⟨hg, hfree⟩, hmask⟩, hidle⟩, hl2⟩, hl1⟩, hbits⟩ := hc
    have hpc := loopStart_eq hloop
    have hcol : Collected s st.groupIdx := by
      rw [hg]
      refine ⟨hl1, hl2, fun j c hj => ?_, fun j full hj => ?_⟩ <;> cases j <;> simp [hpc, hidle] at hj
    obtain ⟨ls, s₁, hloop, hend⟩ := loop_ends hpc (Nat.zero_le 8)
    have hat : LoopAt .done st (s.cpus false).pc := by
      rw [hpc]
      exact .chunk 0 fun c hc => absurd hc (Nat.not_lt_zero _)
    refine ⟨s, s₁, st, ls, allocateThen_reachable hs, hpc, hcol, hmask, by rw [hg]; exact hbits, hloop, ?_⟩
    refine hend.resolve_right fun ⟨c, hc⟩ => ?_
    have hstop := hat.run hloop
    obtain ⟨out, hout⟩ : ∃ out, (s₁.cpus false).pc = .panicked out := ⟨_, hc⟩
    rw [hout] at hstop
    cases hstop with
    | stopped _ htakes => exact absurd htakes.1 (by omega)
  · have hrun : ((allocateThen ((true, .deallocateFrame ⟨0, 0⟩) :: runs true 3)).any fun s =>
        (loopStart (s.cpus false).pc).any fun st => decide (st.free < 512) && (st.l1Metadata 0 == 512) &&
          s.mem.plugged (st.physicalAddresses 0)) = true := by decide +kernel
    obtain ⟨s, hs, hst⟩ := (any_eq_true _ _).1 hrun
    obtain ⟨st, hloop, hc⟩ := (any_eq_true _ _).1 hst
    simp only [Bool.and_eq_true, beq_iff_eq, decide_eq_true_eq] at hc
    obtain ⟨⟨hfree, hfull⟩, hplugged⟩ := hc
    have hpc := loopStart_eq hloop
    obtain ⟨s₁, hs1⟩ := unplug_next hpc
    rcases unplug_step hpc hs1 with ⟨c, hc, -, hpanic, hmem⟩ | ⟨-, hno, -⟩
    · have h0 : c = 0 := Fin.ext hc
      subst h0
      refine ⟨s, s₁, st, _, allocateThen_reachable hs, hpc, hs1, hplugged, ?_, hpanic⟩
      rw [hmem]
      exact update_self ..
    · exact absurd ⟨hfree, hfull⟩ (hno 0 rfl)

end Mushroom.L2.FrameAlloc
