import Mushroom.L2Memory.Resolve

/-!
# `mprotect` and `discard_pages`

`mprotectPages_spec`: the loop of `mprotect` changes the permissions of
exactly the mapped pages of the range, or fails and changes nothing.
`discardPages_spec`: the loop of `discard_pages` only empties slots of the
range. Neither needs disjoint mappings.
-/
namespace Mushroom.L2
open List OrdMap

/-! ## `mprotect` -/

/-- What a page at `p` becomes when the pages up to `stop` get `perms`. -/
def protectSlot (stop : Nat) (perms : MemoryPermissions) (p : Nat) (x : Slot) : Slot :=
  if p ≤ stop then x.setPerms perms else x

variable {stop start : Nat} {m : Mapping} {L' before : Mappings} {r : Except Errno Unit}

lemma protectSlot_of_le {p : Nat} (perms : MemoryPermissions) (h : p ≤ stop) :
    protectSlot stop perms p = (·.setPerms perms) := funext fun _ => if_pos h

lemma protectSlot_of_gt {p : Nat} (perms : MemoryPermissions) (h : stop < p) :
    protectSlot stop perms p = id := funext fun _ => if_neg (Nat.not_le.2 h)

lemma PartOf.setPerms (page : Nat) (m : Mapping) (p : MemoryPermissions) : PartOf (page, m.setPerms p) (page, m) := by
  have hmem : ∀ u ∈ (m.setPerms p).resident, ∃ v ∈ m.resident, v.setPerms p = u := by
    intro u hu
    rw [Mapping.setPerms_resident] at hu
    exact mem_map.1 hu
  refine ⟨le_rfl, by simp, rfl, rfl, fun ht u hu => ?_, fun u hu => ?_⟩
  · obtain ⟨v, hv, rfl⟩ := hmem u hu
    exact ⟨rfl, (ht v hv).2⟩
  · obtain ⟨v, hv, rfl⟩ := hmem u hu
    exact ⟨v, hv, rfl, rfl⟩

structure Prot (stop : Nat) (perms : MemoryPermissions) (B B' : Mappings) : Prop where
  sorted : Sorted B'
  nonempty : Nonempty B'
  found : ∀ p, (getLE B' p).isSome = (getLE B p).isSome
  resolves : ∀ p, resolve B' p = (resolve B p).map (protectSlot stop perms p)
  parts : Parts B' B
  handles : (resident B').map UserPage.page = (resident B).map UserPage.page
  disjoint : Disjoint B → Disjoint B'

variable {perms : MemoryPermissions} {B rest B' : Mappings} {page q : Nat}

lemma Prot.refl (hs : Sorted B) (hn : Nonempty B) (ha : ∀ y ∈ B, stop < y.1) : Prot stop perms B B := by
  refine ⟨hs, hn, fun _ => rfl, fun p => ?_, .refl B, rfl, id⟩
  by_cases hp : p ≤ stop
  · rw [resolve_of_gt fun y hy => by have := ha y hy; omega]; rfl
  · rw [protectSlot_of_gt perms (Nat.not_le.1 hp), Option.map_id]; rfl

lemma Prot.set (hs : Sorted ((page, m) :: rest)) (hm : 0 < m.len) (he : page + m.len ≤ stop + 1)
    (h : Prot stop perms rest B') : Prot stop perms ((page, m) :: rest) ((page, m.setPerms perms) :: B') := by
  have hpage := (sorted_cons.1 hs).1
  refine ⟨sorted_cons.2 ⟨fun y hy => ?_, h.sorted⟩, ?_, fun p => ?_, fun p => ?_, ?_, ?_, fun hd => ?_⟩
  · obtain ⟨z, hz, hle, -, -⟩ := h.parts y hy
    exact lt_of_lt_of_le (hpage z hz) hle
  · intro y hy
    rcases mem_cons.1 hy with rfl | hy
    · simpa using hm
    · exact h.nonempty y hy
  · rw [getLE_cons_isSome, getLE_cons_isSome, h.found]
  · rw [resolve_cons, resolve_cons, h.found, h.resolves]
    split
    · rfl
    split
    · rw [Mapping.setPerms_slot]
      by_cases hp : p ≤ stop
      · rw [protectSlot_of_le perms hp]
      · rw [Mapping.slot_eq_none.2 (by omega)]; rfl
    · rfl
  · exact .cons (.setPerms page m perms) h.parts
  · simp only [resident_cons, map_append, h.handles, Mapping.setPerms_resident, map_map]
    rfl
  · obtain ⟨hd1, hd2⟩ := Disjoint.cons.1 hd
    refine Disjoint.cons.2 ⟨fun b hb => ?_, h.disjoint hd2⟩
    obtain ⟨z, hz, hle, -, -⟩ := h.parts b hb
    have := hd1 z hz
    rw [Mapping.setPerms_len]; omega

lemma Prot.split {m1 m2 : Mapping} (hs : Sorted ((page, m) :: rest)) (hn : Nonempty ((page, m) :: rest))
    (hp : page ≤ stop) (he : stop + 1 < page + m.len) (hsplit : m.splitOff (stop - page + 1) = some (m1, m2))
    (hins : ∀ y ∈ rest, stop + 1 < y.1) :
    Prot stop perms ((page, m) :: rest) ((page, m1.setPerms perms) :: (stop + 1, m2) :: rest) := by
  rw [show stop - page + 1 = stop + 1 - page by omega] at hsplit
  -- first the split alone, then the permissions of the left part
  have hsp := SplitAt.of_splitOff (A := []) hs hn (by omega) (by omega) hins hsplit
  obtain ⟨hl1, hl2, -⟩ := Mapping.splitOff_len hsplit
  have habove : ∀ y ∈ (stop + 1, m2) :: rest, stop < y.1 := by
    rw [forall_mem_cons]
    exact ⟨Nat.lt_succ_self _, fun y hy => by have := hins y hy; omega⟩
  have hrefl : Prot stop perms ((stop + 1, m2) :: rest) ((stop + 1, m2) :: rest) :=
    Prot.refl (sorted_cons.1 hsp.sorted).2
      (fun y hy => hsp.nonempty y (mem_cons_of_mem _ hy)) habove
  have hset := hrefl.set hsp.sorted (by omega) (by omega)
  refine ⟨hset.sorted, hset.nonempty, fun p => ?_, fun p => ?_, hset.parts.trans hsp.parts, ?_,
    fun hd => hset.disjoint (hsp.disjoint hd)⟩
  · simp only [hset.found, getLE_cons_isSome]
    have : decide (stop + 1 ≤ p) = true → decide (page ≤ p) = true := by simp only [decide_eq_true_eq]; omega
    revert this
    cases (getLE rest p).isSome <;> cases decide (stop + 1 ≤ p) <;> cases decide (page ≤ p) <;> simp
  · rw [hset.resolves]; exact congrArg _ (hsp.resolves p)
  · rw [hset.handles]; exact congrArg _ hsp.resident

lemma lastPageExcl_eq_some (h : lastPageExcl page m = some q) : q + 1 = page + m.len := by
  unfold lastPageExcl at h
  obtain ⟨r, hr, hq⟩ := Option.bind_eq_some_iff.1 h
  obtain ⟨-, rfl⟩ := pageAdd_eq_some.1 hr
  unfold pageSub at hq
  split at hq
  · rename_i hc
    simp only [Option.some.injEq] at hq; omega
  · simp at hq

lemma mprotectVisit_spec {next : Mappings → Changed}
    (hnext : ∀ {b L1 r1}, next b = some (r1, L1) → r1 = .ok () ∧ ∃ B', L1 = b.reverse ++ B' ∧ Prot stop perms rest B')
    (hs : Sorted ((page, m) :: rest)) (hn : Nonempty ((page, m) :: rest))
    (h : mprotectVisit stop perms before page m rest next = some (r, L')) :
    r = .ok () ∧ ∃ B', L' = before.reverse ++ B' ∧ Prot stop perms ((page, m) :: rest) B' := by
  obtain ⟨hpage, hrest⟩ := sorted_cons.1 hs
  unfold mprotectVisit at h
  split at h
  · simp at h
  rename_i mappingEnd hend
  have hlen := lastPageExcl_eq_some hend
  split at h
  · rename_i hgt
    cases h
    refine ⟨rfl, _, rfl, Prot.refl hs hn fun y hy => ?_⟩
    rcases mem_cons.1 hy with rfl | hy
    · exact hgt
    · exact lt_trans hgt (hpage y hy)
  split at h
  · obtain ⟨rfl, B', rfl, hprot⟩ := hnext h
    exact ⟨rfl, _, by simp, hprot.set hs (hn _ (mem_cons_self ..)) (by omega)⟩
  split at h
  · rename_i m1 m2 k hsplit hk
    obtain ⟨-, rfl⟩ := pageAdd_eq_some.1 hk
    split at h
    · rename_i hins
      cases h
      refine ⟨rfl, (page, m1.setPerms perms) :: (stop + 1, m2) :: rest, by simp, ?_⟩
      exact Prot.split hs hn (by omega) (by omega) hsplit (insertable_after hrest hins)
    · simp at h
  · simp at h

lemma mprotectLoop_spec (hB : ∀ y ∈ B, start ≤ y.1) (hs : Sorted B) (hn : Nonempty B)
    (h : mprotectLoop start stop perms B before = some (r, L')) :
    r = .ok () ∧ ∃ B', L' = before.reverse ++ B' ∧ Prot stop perms B B' := by
  induction B generalizing before L' r with
  | nil =>
    cases h
    exact ⟨rfl, [], by simp, Prot.refl hs hn (by simp)⟩
  | cons x rest ih =>
    obtain ⟨page, m⟩ := x
    have hpage : ¬ page < start := Nat.not_lt.2 (hB (page, m) (mem_cons_self ..))
    simp only [mprotectLoop, if_neg hpage] at h
    refine mprotectVisit_spec (fun hnext => ?_) hs hn h
    exact ih (fun y hy => hB y (mem_cons_of_mem _ hy)) (sorted_cons.1 hs).2
      (fun y hy => hn y (mem_cons_of_mem _ hy)) hnext

structure ProtectSpec (start stop : Nat) (perms : MemoryPermissions) (L L' : Mappings) : Prop where
  sorted : Sorted L'
  nonempty : Nonempty L'
  resolves : ∀ p, resolve L' p = (resolve L p).map fun x => if start ≤ p ∧ p ≤ stop then x.setPerms perms else x
  parts : Parts L' L
  handles : (resident L').map UserPage.page = (resident L).map UserPage.page
  disjoint : Disjoint L → Disjoint L'

lemma ProtectSpec.of_prot {L A : Mappings} (ho : Opened start L A B) (h : Prot stop perms B B') :
    ProtectSpec start stop perms L (A ++ B') := by
  have hsp := ho.split
  obtain ⟨hsA, hsB, hAB⟩ := sorted_append.1 hsp.sorted
  refine ⟨sorted_append.2 ⟨hsA, h.sorted, ?_⟩, ?_, fun p => ?_, ?_, ?_, fun hd => ?_⟩
  · intro a ha b hb
    obtain ⟨z, hz, hle, -, -⟩ := h.parts b hb
    exact lt_of_lt_of_le (hAB a ha z hz) hle
  · intro y hy
    rcases mem_append.1 hy with hy | hy
    · exact hsp.nonempty y (mem_append_left _ hy)
    · exact h.nonempty y hy
  · rw [← hsp.resolves, resolve_append, resolve_append, h.found]
    by_cases hp : start ≤ p
    · have hfun : (fun x : Slot => if start ≤ p ∧ p ≤ stop then x.setPerms perms else x) =
          protectSlot stop perms p := by
        funext x; simp [protectSlot, hp]
      rw [hfun, h.resolves]
      split
      · rfl
      rename_i hnot
      rcases ho.head with rfl | ⟨b, hb, hbs⟩
      · rfl
      · exact absurd (getLE_isSome_of_mem hb (by omega)) hnot
    · rw [getLE_eq_none.2 fun y hy => by have := ho.above y hy; omega]
      simp only [hp, false_and, if_false, Option.isSome_none, Bool.false_eq_true]
      exact Option.map_id'.symm
  · exact ((Parts.refl A).append h.parts).trans hsp.parts
  · rw [← hsp.resident, resident_append, resident_append, map_append, map_append, h.handles]
  · obtain ⟨hdA, hdB, hdAB⟩ := Disjoint.append.1 (hsp.disjoint hd)
    refine Disjoint.append.2 ⟨hdA, h.disjoint hdB, fun a ha b hb => ?_⟩
    obtain ⟨z, hz, hle, -, -⟩ := h.parts b hb
    exact le_trans (hdAB a ha z hz) hle

variable {L : Mappings}

section

variable (hs : Sorted L) (hn : Nonempty L) (h : mprotectPages L start stop perms = some (r, L'))
include hs hn h

/-- The loop fails at a gap behind the entry below `start`, and succeeds from where it splits that entry. -/
lemma mprotectPages_cases :
    (r = .error .fault ∧ L' = L ∧ ∃ x, getLE L start = some x ∧ x.1 + x.2.len ≤ start) ∨
      r = .ok () ∧ ∃ A B B', Opened start L A B ∧ Prot stop perms B B' ∧ L' = A ++ B' := by
  have hopened : ∀ {A B : Mappings}, Opened start L A B → mprotectLoop start stop perms B A.reverse = some (r, L') →
      r = .ok () ∧ ∃ A B B', Opened start L A B ∧ Prot stop perms B B' ∧ L' = A ++ B' := fun ho h => by
    obtain ⟨rfl, B', rfl, hprot⟩ := mprotectLoop_spec ho.above ho.sorted ho.nonempty h
    exact ⟨rfl, _, _, B', ho, hprot, by rw [reverse_reverse]⟩
  obtain ⟨A, B, hseek, hL, ho | ⟨page, m, rest, rfl, hlt, hget, -, hsplits⟩⟩ := seekLE_opened hs hn start
  all_goals simp only [mprotectPages, hseek] at h
  · exact .inr (hopened ho h)
  simp only [mprotectLoop, if_pos hlt] at h
  split at h
  · simp at h
  rename_i mappingEnd hend
  have hlen := lastPageExcl_eq_some hend
  split at h
  · simp only [reverse_reverse, Option.some.injEq, Prod.mk.injEq] at h
    exact .inl ⟨h.1.symm, by rw [← h.2, hL], _, hget, by simp only; omega⟩
  split at h
  · simp at h
  rename_i m1 m2 hsplit
  split at h
  · refine .inr (hopened (hsplits m1 m2 (by omega) hsplit) ?_)
    rw [reverse_append, mprotectLoop, if_neg (lt_irrefl start)]
    exact h
  · simp at h

/-- **What `mprotect` does**: it sets the permissions of the mapped pages, or fails and changes nothing. -/
lemma mprotectPages_spec :
    (r = .ok () ∧ ProtectSpec start stop perms L L') ∨ (r = .error .fault ∧ L' = L) := by
  rcases mprotectPages_cases hs hn h with ⟨hr, hL, -⟩ | ⟨hr, A, B, B', ho, hprot, rfl⟩
  · exact .inr ⟨hr, hL⟩
  · exact .inl ⟨hr, .of_prot ho hprot⟩

end

/-! ## `discard_pages` -/

def Slot.discard (x : Slot) : Slot := { x with page := none }

structure DiscardSpec (start stop : Nat) (B B' : Mappings) (dropped : List UserPage) : Prop where
  shape : shape B' = shape B
  resolves : ∀ p, resolve B' p = resolve B p ∨ (start ≤ p ∧ p < stop ∧ resolve B' p = (resolve B p).map Slot.discard)
  parts : Parts B' B
  resident : (resident B).Perm (dropped ++ resident B')

lemma discard_resident (pages : List (Option UserPage)) (a b : Nat) :
    (pages.filterMap id).Perm (((pages.drop a).take (b - a)).filterMap id ++
      (pages.mapIdx fun i p => if a ≤ i ∧ i < b then none else p).filterMap id) := by
  induction pages generalizing a b with
  | nil => simp
  | cons q rest ih =>
    rw [mapIdx_cons]
    cases b with
    | zero =>
      have := ih 0 0
      cases q <;> simpa using this
    | succ b =>
      cases a with
      | zero =>
        have := ih 0 b
        cases q <;> simpa using this
      | succ a =>
        have := ih a b
        cases q with
        | none => simpa using this
        | some u =>
          simp only [Nat.add_le_add_iff_right, Nat.add_lt_add_iff_right, drop_succ_cons, Nat.reduceSubDiff]
          refine (this.cons u).trans ?_
          simpa using perm_middle.symm

lemma getLE_isSome_of_shape (h : shape B' = shape B) (p : Nat) : (getLE B' p).isSome = (getLE B p).isSome := by
  have hkeys := keys_of_shape h
  have hall : ∀ L : Mappings, getLE L p = none ↔ ∀ k ∈ L.map Prod.fst, p < k := fun L => by rw [getLE_eq_none]; simp
  rw [Bool.eq_iff_iff, Option.isSome_iff_ne_none, Option.isSome_iff_ne_none, ne_eq, ne_eq, hall, hall, hkeys]

lemma DiscardSpec.refl (start stop : Nat) (B : Mappings) : DiscardSpec start stop B B [] :=
  ⟨rfl, fun _ => .inl rfl, .refl B, by simp⟩

lemma PartOf.discard (page : Nat) (m : Mapping) (a b : Nat) : PartOf (page, (m.discard a b).1) (page, m) := by
  have hmem : ∀ u ∈ (m.discard a b).1.resident, u ∈ m.resident := fun u hu =>
    (discard_resident m.pages a b).mem_iff.2 (mem_append_right _ hu)
  exact ⟨le_rfl, by simp, rfl, rfl, fun ht u hu => ht u (hmem u hu), fun u hu => ⟨u, hmem u hu, rfl, rfl⟩⟩

variable {dropped acc : List UserPage}

lemma DiscardSpec.cons {start' n : Nat} {rest' : Mappings} (hpage : page ≤ start) (hstart : start ≤ start')
    (hn : page + n ≤ stop) (h : DiscardSpec start' stop rest rest' dropped) : DiscardSpec start stop ((page, m) :: rest)
      ((page, (m.discard (start - page) n).1) :: rest') ((m.discard (start - page) n).2 ++ dropped) := by
  refine ⟨by simp [shape_cons, h.shape], fun p => ?_, .cons (.discard ..) h.parts, ?_⟩
  · rw [resolve_cons, resolve_cons, getLE_isSome_of_shape h.shape]
    split
    · rcases h.resolves p with hp | ⟨h1, h2, hp⟩
      · exact .inl hp
      · exact .inr ⟨by omega, h2, hp⟩
    split
    · rw [Mapping.discard_slot]
      by_cases hi : start - page ≤ p - page ∧ p - page < n
      · refine .inr ⟨by omega, by omega, ?_⟩
        simp only [hi, and_self, if_true]
        rfl
      · left; simp only [hi, if_false, Option.map_id']
    · exact .inl rfl
  · simp only [resident_cons]
    refine ((discard_resident m.pages (start - page) n).append h.resident).trans ?_
    simp only [Mapping.resident, Mapping.discard, append_assoc]
    exact List.Perm.append_left _ (perm_append_comm_assoc ..)

lemma discardLoop_spec (hle : start ≤ stop) (h : discardLoop stop B before start acc = some (r, L', dropped)) :
    ∃ B' d, L' = before.reverse ++ B' ∧ dropped = acc ++ d ∧ DiscardSpec start stop B B' d := by
  induction B generalizing start before acc with
  | nil =>
    cases h
    exact ⟨[], [], by simp, by simp, .refl ..⟩
  | cons x rest ih =>
    obtain ⟨page, m⟩ := x
    unfold discardLoop at h
    split at h
    · cases h
      exact ⟨_, [], rfl, by simp, .refl ..⟩
    split at h
    · cases h
      exact ⟨_, [], rfl, by simp, .refl ..⟩
    rename_i hpage
    split at h
    · cases h
      exact ⟨_, [], rfl, by simp, .refl ..⟩
    rename_i hoff
    simp only at h
    split at h
    · simp at h
    rename_i start' hadd
    obtain ⟨-, rfl⟩ := pageAdd_eq_some.1 hadd
    obtain ⟨B', d, rfl, rfl, hd⟩ := ih (by omega) h
    have hcons := hd.cons (m := m) (not_not.1 hpage) (by omega)
      (by omega : page + min (stop - page) m.len ≤ stop)
    exact ⟨_, _, by simp, by simp, hcons⟩

/-- **What `discard_pages` does**: it empties slots of the range only, whether or not it finds a gap. -/
lemma discardPages_spec (hle : start ≤ stop) (hs : Sorted L)
    (h : discardPages L start stop = some (r, L', dropped)) : DiscardSpec start stop L L' dropped := by
  obtain ⟨A, B, hseek, rfl, -⟩ := seekLE_cases hs start
  simp only [discardPages, hseek] at h
  obtain ⟨B', d, rfl, rfl, hd⟩ := discardLoop_spec hle h
  rw [reverse_reverse]
  have hshape : shape (A ++ B') = shape (A ++ B) := by
    have := hd.shape
    unfold shape at this ⊢
    rw [map_append, map_append, this]
  refine ⟨hshape, fun p => ?_, (Parts.refl A).append hd.parts, ?_⟩
  · rw [resolve_append, resolve_append, getLE_isSome_of_shape hd.shape]
    split
    · exact hd.resolves p
    · exact .inl rfl
  · rw [resident_append, resident_append]
    exact (List.Perm.append_left _ hd.resident).trans (perm_append_comm_assoc ..)

end Mushroom.L2
