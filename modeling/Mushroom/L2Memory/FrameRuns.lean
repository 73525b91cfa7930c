import Mushroom.L2Memory.FrameSteps

/-!
# Runs of the frame allocator

The invariant holds in every reachable state, for any number of CPUs and any
interleaving of their steps. Two readings: no frame is in use twice
(`frames_exclusive`), and between operations the counters of the three levels
and of the owners agree with the bitmap (`frames_accounted`).
-/
namespace Mushroom.L2.FrameAlloc
open Option Function Ledger

variable {ι : Type} [Fintype ι] [DecidableEq ι] {A : Slots} {s s' : State ι} {i : ι}

/-! ## Calls -/

/-- `allocate_frame` and `release_private` take the private state out of `guard`. -/
lemma Inv.take (h : Inv A s) {none : Pc} {some : PrivateState → Pc} (hidle : (s.cpus i).pc = .idle)
    (hnone : (∀ k, none.weigh k = 0) ∧ ∀ m, none.Ok A m)
    (hsome : ∀ st, (∀ k, (some st).weigh k = st.weigh k) ∧ (st.Ok A → ∀ m, (some st).Ok A m)) :
    Inv A { s with cpus := update s.cpus i ⟨.none, (s.cpus i).guard.elim none some⟩ } := by
  have hi := h.cpus i
  rcases hx : s.cpus i with ⟨guard, pc⟩
  rw [hx] at hidle hi
  cases hidle
  cases guard with
  | none =>
    refine h.quiet (fun k => ?_) ⟨nofun, fun _ => rfl, hnone.2 _⟩
    rw [hx]
    exact congrArg (0 + ·) (hnone.1 k)
  | some st =>
    refine h.quiet (fun k => ?_) ⟨nofun, fun _ => rfl, (hsome st).2 (hi.guard st rfl) _⟩
    rw [hx]
    exact (congrArg (0 + ·) ((hsome st).1 k)).trans (Nat.add_comm ..)

/-- The caller's frame becomes a pending deallocation. -/
lemma Inv.deallocateFrame (h : Inv A s) (hidle : (s.cpus i).pc = .idle) {f : Frame} (hf : (s.live f).isSome) :
    Inv A { s with
      live := update s.live f none
      cpus := update s.cpus i ⟨(s.cpus i).guard, .reverseGet f⟩ } := by
  have hi := h.cpus i
  rcases hx : s.cpus i with ⟨guard, pc⟩
  rw [hx] at hidle hi
  cases hidle
  have hb : ∀ k, books (update s.cpus i ⟨guard, .reverseGet f⟩) k = books s.cpus k + one (.pending f) k :=
    fun k => books_pc hx (.reverseGet f) k
  have hsame : ∀ k, k ≠ .pending f → books (update s.cpus i ⟨guard, .reverseGet f⟩) k = books s.cpus k := by
    intro k hk
    rw [hb, one, if_neg hk, Nat.add_zero]
  have hframe : ∀ f', (update s.live f none f').isSome.toNat + one (.pending f) (.pending f') =
      (s.live f').isSome.toNat := by
    intro f'
    by_cases he : f' = f
    · subst he
      rw [update_self, hf, one, if_pos rfl]
      rfl
    · rw [update_of_ne he, one, if_neg fun hk => he (Key.pending.inj hk), Nat.add_zero]
  refine h.move ?_ ⟨h.uses.spare, fun g c slot hA j => ?_, fun slot hno j => ?_, fun f' g c hf' => ?_⟩
    (h.plugs.congr rfl rfl (fun slot => hsame _ (by simp)) h.plugs.unowned) (fun j _ => .congr A _ rfl rfl rfl)
    ⟨hi.guard, by simp [Pc.allocating], trivial⟩
  · exact ⟨fun g => by rw [hsame _ (by simp)]; exact h.counts.owned g,
      fun g c => by rw [hsame _ (by simp)]; exact h.counts.count g c,
      fun g => by rw [hsame _ (by simp), hsame _ (by simp)]; exact h.counts.free g⟩
  · have hused := h.uses.used g c slot hA j
    have hlive := hframe ⟨slot, j⟩
    rw [hb]
    omega
  · obtain ⟨hl, hp⟩ := h.uses.unused slot hno j
    have hne : (⟨slot, j⟩ : Frame) ≠ f := by
      rintro rfl
      rw [hl] at hf
      cases hf
    rw [hsame _ fun hk => hne (Key.pending.inj hk), update_of_ne hne]
    exact ⟨hl, hp⟩
  · have hne : f' ≠ f := by
      rintro rfl
      rw [update_self] at hf'
      cases hf'
    rw [update_of_ne hne] at hf'
    exact h.uses.origin f' g c hf'

omit [Fintype ι] in
lemma idle_of_call {a : Act} (ha : ∀ slot, a ≠ .run slot) (hs : next s (i, a) = some s') : (s.cpus i).pc = .idle := by
  cases a with
  | run slot => exact absurd rfl (ha slot)
  | allocateFrame | releasePrivate | deallocateFrame f =>
    cases hpc : (s.cpus i).pc <;> simp [FrameAlloc.next, hpc] at hs ⊢

lemma Inv.next (h : Inv A s) {l : ι × Act} (hs : next s l = some s') : ∃ A', Inv A' s' := by
  obtain ⟨i, a⟩ := l
  cases a with
  | run slot =>
    obtain ⟨o, ho, rfl⟩ := map_eq_some_iff.1 hs
    exact (h.exec ho).2
  | allocateFrame | releasePrivate =>
    have hidle := idle_of_call (by simp) hs
    simp only [FrameAlloc.next, hidle] at hs
    cases hs
    exact ⟨A, h.take hidle ⟨fun _ => rfl, fun _ => trivial⟩ fun st => ⟨fun _ => rfl, fun hst _ => hst⟩⟩
  | deallocateFrame f =>
    have hidle := idle_of_call (by simp) hs
    simp only [FrameAlloc.next, hidle] at hs
    split at hs
    · rename_i hf
      cases hs
      exact ⟨A, h.deallocateFrame hidle hf⟩
    · cases hs

omit [DecidableEq ι] in
lemma inv_new : Inv (fun _ _ => none) (State.new : State ι) := by
  have hb : ∀ k, books (State.new : State ι).cpus k = 0 := fun k => (total_eq_zero_iff _ _).2 fun _ => rfl
  have hmask : ∀ g, slotsOf (l1AllocatedBits (Memory.new.l2 g)) (Memory.new.physicalAddresses g) = fun _ => none := by
    intro g
    funext c
    refine if_neg ?_
    simp [Memory.new, l1AllocatedBits]
  refine ⟨⟨fun g => ?_, fun g c => ?_, fun g => ?_⟩, ⟨fun g c _ j => ?_, fun g c slot hA => ?_, fun slot _ j => ?_, ?_⟩,
    ⟨fun g c slot hA => ?_, fun slot => ?_, fun g _ => (hmask g).symm⟩,
    fun i => ⟨fun st hst => ?_, fun _ => rfl, trivial⟩⟩
  · have hword : ownedBit 0 = false := by decide
    rw [hb]
    exact congrArg Bool.toNat hword
  · rw [hb]
    rfl
  · have hzero : total id ((State.new : State ι).mem.l1 g) = 0 := (total_eq_zero_iff _ _).2 fun _ => rfl
    rw [hb, hb, hzero]
    rfl
  · simp [Memory.bits, State.new, Memory.new]
  · cases hA
  · exact ⟨rfl, hb _⟩
  · simp [State.new]
  · cases hA
  · rw [hb]
    exact ⟨Nat.zero_le _, fun hp => absurd hp (lt_irrefl 0)⟩
  · cases hst

lemma inv_reachable (hr : (frames ι).Reachable s) : ∃ A, Inv A s := by
  have hind : (frames ι).Inductive fun s => ∃ A, Inv A s := by
    refine ⟨fun s hs => ⟨_, hs ▸ inv_new⟩, fun s l s' hinv hs => ?_⟩
    obtain ⟨A, h⟩ := hinv
    exact h.next hs
  exact hind.reachable s hr

/-- The counters fit their widths (`u16` and `u32`). -/
theorem counters_le (hr : (frames ι).Reachable s) :
    (∀ g c, s.mem.l1 g c ≤ 512) ∧ (∀ i g c, (s.cpus i).weigh (.count g c) ≤ 512) ∧
      ∀ i g, (s.cpus i).weigh (.free g) ≤ 4608 := by
  obtain ⟨A, h⟩ := inv_reachable hr
  have hchunk : ∀ g c, s.mem.l1 g c + books s.cpus (.count g c) ≤ 512 := by
    intro g c
    rw [h.counts.count g c]
    split
    · exact s.mem.clearBits_le g c
    · exact Nat.zero_le _
  refine ⟨fun g c => ?_, fun i g c => ?_, fun i g => ?_⟩
  · have := hchunk g c
    omega
  · have := hchunk g c
    have := le_books s.cpus i (.count g c)
    omega
  · have := h.counts.free_le g
    have := le_books s.cpus i (.free g)
    omega

/-! ## A first allocation -/

def Pc.isIdle : Pc → Bool
  | idle => true
  | _ => false

lemma Pc.isIdle_iff {pc : Pc} : pc.isIdle ↔ pc = .idle := by cases pc <;> simp [Pc.isIdle]

/-- One CPU inspects the groups for the first time, and the others are idle. -/
def claiming (i : ι) (check : Check) (g : GroupIndex) : State ι :=
  ⟨.new, fun _ => none, update (fun _ => ⟨none, .idle⟩) i ⟨none, .claimLoad check g⟩⟩

omit [Fintype ι] in
lemma claiming_next (i : ι) (g : GroupIndex) : (frames ι).step (claiming i .isPartial g) (i, .run 0)
      (if h : g.val + 1 < 4096 then claiming i .isPartial ⟨g + 1, h⟩ else claiming i .isFree 0) := by
  have hfull : claimable .isPartial 0 = false := by decide
  have hpc : claimSeen .isPartial g 0 =
      if h : g.val + 1 < 4096 then .claimLoad .isPartial ⟨g + 1, h⟩ else .claimLoad .isFree 0 := by
    rw [claimSeen, if_neg (by rw [hfull]; simp), claimNext, if_neg (by simp)]
  have hstep : next (claiming i .isPartial g) (i, .run 0) = some ⟨.new, fun _ => none,
      update (fun _ => ⟨none, .idle⟩) i ⟨none, claimSeen .isPartial g 0⟩⟩ := by
    simp only [next, claiming, update_self, exec, Out.at, map_some, Out.into, update_idem]
    rfl
  change next _ _ = some _
  rw [hstep, hpc]
  split <;> rfl

omit [Fintype ι] in
lemma claiming_run (i : ι) (n : Nat) (hn : n < 4096) :
    ∃ ls, (frames ι).Run (claiming i .isPartial 0) ls (claiming i .isPartial ⟨n, hn⟩) := by
  induction n with
  | zero => exact ⟨[], .nil _⟩
  | succ n ih =>
    obtain ⟨ls, hrun⟩ := ih (by omega)
    have hstep := claiming_next i ⟨n, by omega⟩
    rw [dif_pos hn] at hstep
    exact ⟨ls ++ [(i, .run 0)], hrun.append (.cons hstep (.nil _))⟩

omit [Fintype ι] in
/-- A CPU that is the first to allocate comes to claim the first group. -/
lemma claiming_reachable (i : ι) : (frames ι).Reachable (claiming i .isFree 0) := by
  have hcall : (frames ι).step .new (i, .allocateFrame) (claiming i .isPartial 0) := rfl
  obtain ⟨ls, hrun⟩ := claiming_run i 4095 (by decide)
  have hnext := claiming_next i ⟨4095, by decide⟩
  rw [dif_neg (by decide)] at hnext
  exact ⟨.new, _, rfl, .cons hcall (hrun.append (.cons hnext (.nil _)))⟩

/-- One of two CPUs claims the first group, plugs in its first chunk and gets the first frame of it. -/
lemma first_frame : ∃ s, (frames Bool).Reachable s ∧ s.live ⟨0, 0⟩ = some (0, 0) ∧ ∀ i, (s.cpus i).pc = .idle := by
  have hrest : ((LTS.runFn next (claiming false .isFree 0) (List.replicate 36 (false, .run 0))).any fun s =>
      (s.live ⟨0, 0⟩ == some (0, 0)) && ((s.cpus false).pc.isIdle && (s.cpus true).pc.isIdle)) = true := by
    decide +kernel
  obtain ⟨s, hs, hp⟩ := (any_eq_true _ _).1 hrest
  simp only [Bool.and_eq_true, beq_iff_eq, Pc.isIdle_iff] at hp
  exact ⟨s, (claiming_reachable false).run (LTS.runFn_run hs), hp.1, Bool.forall_bool.2 hp.2⟩

theorem counters_le_first : ∃ s : State Bool, (frames Bool).Reachable s ∧ s.live ⟨0, 0⟩ = some (0, 0) ∧
    s.mem.l1 0 0 ≤ 512 := by
  obtain ⟨s, hr, hlive, -⟩ := first_frame
  exact ⟨s, hr, hlive, (counters_le hr).1 0 0⟩

/-! ## Exclusive use -/

/-- `allocate_frame` of CPU `i` returns `f`, from chunk `c` of group `g`. -/
def Returns (s : State ι) (i : ι) (f : Frame) (g : GroupIndex) (c : ChunkIndex) (s' : State ι) : Prop :=
  ∃ slot o, exec s.mem (s.cpus i) slot = some o ∧ o.returned = some (f, g, c) ∧ s' = o.into s i

/-- The chunk has the slot now: its owner says so, and the supervisor has not
got it back. -/
def PluggedIn (s : State ι) (g : GroupIndex) (c : ChunkIndex) (slot : SlotIndex) : Prop :=
  s.mem.plugged slot = true ∧ ∃ i st, (s.cpus i).guard = some st ∧ st.groupIdx = g ∧
    st.allocatedBitmask.getLsbD c = true ∧ st.physicalAddresses c = slot

omit [Fintype ι] in
lemma live_step {l : ι × Act} {f : Frame} (hs : (frames ι).step s l s') (hl : l.2 ≠ .deallocateFrame f)
    (hf : (s.live f).isSome) : (s'.live f).isSome := by
  obtain ⟨i, a⟩ := l
  have hs : next s (i, a) = some s' := hs
  cases a with
  | run slot =>
    obtain ⟨o, -, rfl⟩ := map_eq_some_iff.1 hs
    cases hret : o.returned with
    | none =>
      simp only [Out.into, hret]
      exact hf
    | some p =>
      simp only [Out.into, hret]
      by_cases he : f = p.1
      · rw [he, update_self]
        rfl
      · rw [update_of_ne he]
        exact hf
  | allocateFrame | releasePrivate =>
    simp only [FrameAlloc.next, idle_of_call (by simp) hs] at hs
    cases hs
    exact hf
  | deallocateFrame f' =>
    simp only [FrameAlloc.next, idle_of_call (by simp) hs] at hs
    split at hs
    · cases hs
      have he : f ≠ f' := by
        rintro rfl
        exact hl rfl
      simp only [update_of_ne he]
      exact hf
    · cases hs

omit [Fintype ι] in
lemma live_run {ls : List (ι × Act)} {f : Frame} (hrun : (frames ι).Run s ls s')
    (hl : ∀ k, (k, .deallocateFrame f) ∉ ls) (hf : (s.live f).isSome) : (s'.live f).isSome := by
  induction hrun with
  | nil => exact hf
  | cons hstep _ ih =>
    rename_i l ls _
    refine ih (fun k hk => hl k (List.mem_cons_of_mem _ hk)) (live_step hstep (fun he => ?_) hf)
    exact hl l.1 (by rw [← he]; exact List.mem_cons_self)

/-- Only the last step of `allocate_frame` returns a frame. -/
lemma findOr_of_returned {m : Memory} {x : Cpu} {slot : SlotIndex} {o : Out} {f : Frame} {g : GroupIndex}
    {c : ChunkIndex} (ho : exec m x slot = some o) (hf : o.returned = some (f, g, c)) :
    ∃ st w t, x.pc = .findOr st c w t ∧ g = st.groupIdx ∧ f.slot = st.physicalAddresses c ∧
      o.cpu.guard = some (st.take c) ∧ o.mem.plugged = m.plugged := by
  have hat : ∀ {m' : Memory} {guard : Option PrivateState} {pc : Pc}, Out.at m' guard pc = some o → False := by
    intro m' guard pc hat
    cases hat
    cases hf
  cases hpc : x.pc with
  | findOr st c' w t =>
    simp only [exec, hpc] at ho
    cases ho
    cases hf
    exact ⟨st, w, t, rfl, rfl, rfl, rfl, rfl⟩
  | clear f' g' c' =>
    simp only [exec, hpc] at ho
    cases ho
    cases hf
  | _ =>
    simp only [exec, hpc] at ho
    first
      | exact (hat ho).elim
      | cases ho
      | (split at ho <;> first
        | exact (hat ho).elim
        | cases ho
        | (split at ho <;> exact (hat ho).elim))

/-- For any number of CPUs and in every interleaving of `allocate_frame`, `deallocate_frame` and
`release_private`: a frame that is returned lies in a plugged chunk and is not returned again before it is
deallocated, `REVERSE_MAP` leads from its slot to the group and chunk it came from, and `find_free` never
runs off its end. -/
theorem frames_exclusive {ι : Type} [Fintype ι] [DecidableEq ι] (s : State ι) (hr : (frames ι).Reachable s) :
    (∀ i f g c s', Returns s i f g c s' → PluggedIn s' g c f.slot ∧
      ∀ ls s₁, (frames ι).Run s' ls s₁ → ∀ j g' c' s₂, Returns s₁ j f g' c' s₂ → ∃ k, (k, .deallocateFrame f) ∈ ls) ∧
    (∀ f g c, s.live f = some (g, c) → ReverseMap.decode (s.mem.reverseMap f.slot) = (g, c)) ∧
    ∀ i st, (s.cpus i).pc ≠ .unreachable st := by
  obtain ⟨A, h⟩ := inv_reachable hr
  refine ⟨fun i f g c s' hret => ?_, fun f g c hf => ?_, fun i st hpc => ?_⟩
  · obtain ⟨slot, o, ho, hf, rfl⟩ := hret
    obtain ⟨st, w, t, hpc, rfl, hslot, hguard, hplugged⟩ := findOr_of_returned ho hf
    have hA := ((h.exec ho).1 f _ c hf).2
    refine ⟨⟨?_, i, st.take c, ?_, rfl, ?_, hslot.symm⟩, fun ls s₁ hrun j g' c' s₂ hret' => ?_⟩
    · exact (congrFun hplugged f.slot).trans (h.plugs.reverse _ _ _ hA).2
    · simp only [Out.into, update_self]
      exact hguard
    · -- the owner's bitmask says what is plugged in
      have hok := (h.cpus i).pc
      rw [hpc] at hok
      have hmask := congrFun hok.1 c
      rw [hA, slotsOf] at hmask
      by_contra hno
      have hno : ¬st.allocatedBitmask.getLsbD c = true := hno
      rw [if_neg hno] at hmask
      cases hmask
    by_contra hnone
    have hlive : ((o.into s i).live f).isSome := by
      simp only [Out.into, hf, update_self]
      rfl
    have hstill := live_run hrun (fun k hk => hnone ⟨k, hk⟩) hlive
    obtain ⟨slot', o', ho', hf', rfl⟩ := hret'
    have hstep : (frames ι).step s (i, .run slot) (o.into s i) := map_eq_some_iff.2 ⟨o, ho, rfl⟩
    obtain ⟨A', h'⟩ := inv_reachable ((hr.run (.cons hstep (.nil _))).run hrun)
    rw [((h'.exec ho').1 f g' c' hf').1] at hstill
    cases hstill
  · exact (h.plugs.reverse g c f.slot (h.uses.origin f g c hf)).1
  · have hok := (h.cpus i).pc
    rwa [hpc] at hok

/-- After the first allocation `REVERSE_MAP` leads to the first chunk of the first group, also while the other CPU
allocates. -/
theorem frames_exclusive_first : ∃ s : State Bool, (frames Bool).Reachable s ∧ s.live ⟨0, 0⟩ = some (0, 0) ∧
    (s.cpus true).pc ≠ .idle ∧ ReverseMap.decode (s.mem.reverseMap 0) = (0, 0) := by
  obtain ⟨s, hr, hlive, hidle⟩ := first_frame
  have hstep : (frames Bool).step s (true, .allocateFrame) ⟨s.mem, s.live, update s.cpus true
      ⟨none, (s.cpus true).guard.elim (.claimLoad .isPartial 0) .search⟩⟩ := by
    change next _ _ = some _
    simp only [next, hidle true]
  have hr' := hr.run (.cons hstep (.nil _))
  refine ⟨_, hr', hlive, ?_, (frames_exclusive _ hr').2.1 _ _ _ hlive⟩
  cases hguard : (s.cpus true).guard <;> simp

/-! ## Accounts -/

/-- The private `free` count of the group, if the CPU owns it. -/
def ownerFree (g : GroupIndex) (x : Cpu) : Nat := x.guard.elim 0 fun st => if g = st.groupIdx then st.free else 0

def ownerL1 (g : GroupIndex) (c : ChunkIndex) (x : Cpu) : Nat :=
  x.guard.elim 0 fun st => if g = st.groupIdx then st.l1Metadata c else 0

def Owns (x : Cpu) (g : GroupIndex) : Prop := ∃ st, x.guard = some st ∧ st.groupIdx = g

/-- The chunk is plugged in, by the owner's bitmask or by the word of a group without owner. -/
def HasSlot (s : State ι) (g : GroupIndex) (c : ChunkIndex) : Prop :=
  (∃ i st, (s.cpus i).guard = some st ∧ st.groupIdx = g ∧ st.allocatedBitmask.getLsbD c = true) ∨
    (∀ i, ¬Owns (s.cpus i) g) ∧ (l1AllocatedBits (s.mem.l2 g)).getLsbD c = true

lemma slotsOf_isSome (mask : BitVec 8) (addresses : ChunkIndex → SlotIndex) (c : ChunkIndex) :
    (slotsOf mask addresses c).isSome = mask.getLsbD c := by
  rw [slotsOf]
  split
  · rename_i h
    rw [h]
    rfl
  rename_i h
  rw [Bool.not_eq_true] at h
  rw [h]
  rfl

omit [DecidableEq ι] in
lemma books_idle (hidle : ∀ i, (s.cpus i).pc = .idle) (k : Key) :
    books s.cpus k = total (fun x : Cpu => guardWeigh x.guard k) s.cpus :=
  total_congr _ _ fun i => by rw [Cpu.weigh, hidle i]; rfl

omit [DecidableEq ι] in
/-- Between operations the owner bit is set for the groups that a CPU holds. -/
lemma Inv.owned_iff (h : Inv A s) (hidle : ∀ i, (s.cpus i).pc = .idle) (g : GroupIndex) :
    ownedBit (s.mem.l2 g) ↔ ∃ i, Owns (s.cpus i) g := by
  have howned := h.counts.owned g
  rw [books_idle hidle] at howned
  constructor
  · intro hbit
    by_contra hno
    have hzero : total (fun x : Cpu => guardWeigh x.guard (.own g)) s.cpus = 0 := by
      refine (total_eq_zero_iff _ _).2 fun i => ?_
      cases hg : (s.cpus i).guard with
      | none => rfl
      | some st => exact if_neg fun he => hno ⟨i, st, hg, he.symm⟩
    rw [hzero, hbit] at howned
    cases howned
  · rintro ⟨i, st, hst, rfl⟩
    exact h.owned (Cpu.own_pos (.inl hst))

omit [DecidableEq ι] in
lemma Inv.hasSlot_iff (h : Inv A s) (hidle : ∀ i, (s.cpus i).pc = .idle) (g : GroupIndex) (c : ChunkIndex) :
    HasSlot s g c ↔ (A g c).isSome := by
  by_cases hex : ∃ i, Owns (s.cpus i) g
  · obtain ⟨i, st, hst, rfl⟩ := hex
    have hA : ∀ i' st', (s.cpus i').guard = some st' → st'.groupIdx = st.groupIdx →
        (A st.groupIdx c).isSome = st'.allocatedBitmask.getLsbD c := by
      intro i' st' hst' he
      rw [← he, (h.cpus i').guard st' hst', slotsOf_isSome]
    constructor
    · rintro (⟨i', st', hst', he, hmask⟩ | ⟨hno, -⟩)
      · rw [hA i' st' hst' he, hmask]
      · exact absurd ⟨st, hst, rfl⟩ (hno i)
    · intro hsome
      exact .inl ⟨i, st, hst, rfl, (hA i st hst rfl).symm.trans hsome⟩
  · have hbit : ownedBit (s.mem.l2 g) = false := by
      rw [← Bool.not_eq_true, h.owned_iff hidle]
      exact hex
    rw [h.plugs.unowned g hbit, slotsOf_isSome]
    constructor
    · rintro (⟨i', st', hst', he, -⟩ | ⟨-, hmask⟩)
      · exact absurd ⟨i', st', hst', he⟩ hex
      · exact hmask
    · intro hmask
      exact .inr ⟨fun i' ho => hex ⟨i', ho⟩, hmask⟩

/-- Whenever no CPU is inside an operation: the `l2` count of a group is the sum of its `l1` counts, owner's
copies included; the count of a chunk is the number of its clear bits, 0 if it is not plugged in; the owner
bit says whether a CPU holds the group. The field of the free frames never runs over, inside operations as well. -/
theorem frames_accounted {ι : Type} [Fintype ι] [DecidableEq ι] (s : State ι) (hr : (frames ι).Reachable s) :
    ((∀ i, (s.cpus i).pc = .idle) → (∀ g, freeBits (s.mem.l2 g) + ∑ i, ownerFree g (s.cpus i) =
        ∑ c, (s.mem.l1 g c + ∑ i, ownerL1 g c (s.cpus i))) ∧
      (∀ g c, (HasSlot s g c → s.mem.l1 g c + ∑ i, ownerL1 g c (s.cpus i) = s.mem.clearBits g c) ∧
        (¬HasSlot s g c → s.mem.l1 g c + ∑ i, ownerL1 g c (s.cpus i) = 0)) ∧
      ∀ g, ownedBit (s.mem.l2 g) = true ↔ ∃ i, Owns (s.cpus i) g) ∧
    (∀ i g full, (s.cpus i).pc = .addL2 g full → freeBits (s.mem.l2 g) + 1 < 2 ^ 13) ∧
    ∀ i k st bits, (s.cpus i).pc = .dropExchange k st bits → freeBits bits + st.free < 2 ^ 13 := by
  obtain ⟨A, h⟩ := inv_reachable hr
  refine ⟨fun hidle => ⟨fun g => ?_, fun g c => ?_, h.owned_iff hidle⟩, fun i g full _ => ?_, fun i k st bits hpc => ?_⟩
  · have hfree := h.counts.free g
    have hsum : books s.cpus (.sum g) = ∑ c, ∑ i, ownerL1 g c (s.cpus i) := by
      rw [books_idle hidle, Finset.sum_comm]
      refine Finset.sum_congr rfl fun i _ => ?_
      cases hg : (s.cpus i).guard with
      | none => simp [guardWeigh, ownerL1, hg]
      | some st => simpa [guardWeigh, ownerL1, hg, PrivateState.weigh] using st.weigh_sum g
    rw [hsum, books_idle hidle] at hfree
    rw [Finset.sum_add_distrib]
    exact hfree
  · have hcount := h.counts.count g c
    rw [books_idle hidle] at hcount
    rw [h.hasSlot_iff hidle]
    exact ⟨fun hsome => by rw [if_pos hsome] at hcount; exact hcount,
      fun hnone => by rw [if_neg hnone] at hcount; exact hcount⟩
  · have hbound := h.counts.free_le g
    omega
  · have hx : s.cpus i = ⟨(s.cpus i).guard, .dropExchange k st bits⟩ := by rw [← hpc]
    exact h.dropExchange_fits hx

/-- The counters agree after the first allocation. -/
theorem frames_accounted_first : ∃ s : State Bool, (frames Bool).Reachable s ∧ s.live ⟨0, 0⟩ = some (0, 0) ∧
    ∀ g, freeBits (s.mem.l2 g) + ∑ i, ownerFree g (s.cpus i) = ∑ c, (s.mem.l1 g c + ∑ i, ownerL1 g c (s.cpus i)) := by
  obtain ⟨s, hr, hlive, hidle⟩ := first_frame
  exact ⟨s, hr, hlive, ((frames_accounted s hr).1 hidle).1⟩

end Mushroom.L2.FrameAlloc
