import Mushroom.L2Memory.Resolve

/-!
# `unmap`

`unmapPages_spec` says what the cursor loop does: the keys stay in order, what is
mapped outside the range resolves as before, and the resident pages are those
left and those removed. The loop splits the entry below the range (`SplitAt`),
then removes or trims the entries from there on (`Cut`).

It gives up when the entry below `start_page` ends before it, also when another
mapping begins inside the range (`GapSkip`); only without that the range is
empty afterwards.
-/
namespace Mushroom.L2
open List OrdMap

/-! ## The second pass -/

/-- The second pass of `unmap` leaves `B'` of the entries `B` at or above `start` and removes `gone`. -/
structure Cut (stop : Nat) (B B' : Mappings) (gone : List Mapping) : Prop where
  sorted : Sorted B'
  nonempty : Nonempty B'
  above : ∀ y ∈ B', stop < y.1
  behind : ∀ p, stop < p → resolve B' p = resolve B p
  resident : resident B = residents gone ++ resident B'
  parts : Parts B' B
  disjoint : Disjoint B → Disjoint B'

variable {B rest B' L' before : Mappings} {stop page start q : Nat} {gone g : List Mapping} {m : Mapping}

lemma Cut.refl (hs : Sorted B) (hn : Nonempty B) (ha : ∀ y ∈ B, stop < y.1) : Cut stop B B [] :=
  ⟨hs, hn, ha, fun _ _ => rfl, by simp [residents], .refl B, id⟩

lemma Cut.remove (he : page + m.len ≤ stop + 1) (h : Cut stop rest B' gone) :
    Cut stop ((page, m) :: rest) B' (m :: gone) := by
  refine ⟨h.sorted, h.nonempty, h.above, fun p hp => ?_, ?_, h.parts.cons_right, fun hd => ?_⟩
  · rw [h.behind p hp, resolve_cons]
    split
    · rfl
    rename_i hr
    rw [resolve_of_not_found hr]
    split
    · exact (Mapping.slot_eq_none.2 (by omega)).symm
    · rfl
  · rw [resident_cons, h.resident]; simp [residents]
  · exact h.disjoint (Disjoint.cons.1 hd).2

lemma Cut.split {m1 m2 : Mapping} (hs : Sorted ((page, m) :: rest)) (hn : Nonempty ((page, m) :: rest))
    (hp : page ≤ stop) (he : stop + 1 < page + m.len) (hsplit : m.splitOff (stop - page + 1) = some (m1, m2))
    (hins : ∀ y ∈ rest, stop + 1 < y.1) : Cut stop ((page, m) :: rest) ((stop + 1, m2) :: rest) [m1] := by
  obtain ⟨hl1, hl2, hle⟩ := Mapping.splitOff_len hsplit
  obtain ⟨-, hrest⟩ := sorted_cons.1 hs
  have hend : stop + 1 + m2.len = page + m.len := by omega
  refine ⟨sorted_cons.2 ⟨hins, hrest⟩, ?_, ?_, fun p hp' => ?_, ?_, ?_, fun hd => ?_⟩
  · intro y hy
    rcases mem_cons.1 hy with rfl | hy
    · show 0 < m2.len; omega
    · exact hn y (mem_cons_of_mem _ hy)
  · intro y hy
    rcases mem_cons.1 hy with rfl | hy
    · exact Nat.lt_succ_self _
    · have := hins y hy; omega
  · simp only [resolve_cons]
    split
    · rfl
    rw [if_pos (by omega), if_pos (by omega), Mapping.splitOff_slot_right hsplit]
    congr 1; omega
  · simp only [resident_cons, Mapping.splitOff_resident hsplit]
    simp [residents]
  · rw [show stop - page + 1 = stop + 1 - page by omega] at hsplit
    exact .cons (PartOf.splitOff (by omega) hsplit).2 (.refl rest)
  · obtain ⟨h1, h2⟩ := Disjoint.cons.1 hd
    exact Disjoint.cons.2 ⟨fun b hb => by have := h1 b hb; omega, h2⟩

lemma lastPage_eq_some (h : lastPage page m = some q) : q + 1 = page + m.len := by
  unfold lastPage at h
  split at h
  · simp at h
  · have := (pageAdd_eq_some.1 h).2; omega

/-- One pass of the loop, given what the rest of it does. -/
lemma unmapVisit_spec {next : Mappings → List Mapping → Unmapped}
    (hnext : ∀ {b g1 L1 g2}, next b g1 = some (L1, g2) → ∃ B' g0, L1 = b.reverse ++ B' ∧ g2 = g1 ++ g0 ∧
      Cut stop rest B' g0)
    (hs : Sorted ((page, m) :: rest)) (hn : Nonempty ((page, m) :: rest))
    (h : unmapVisit stop before gone page m rest next = some (L', g)) :
    ∃ B' g0, L' = before.reverse ++ B' ∧ g = gone ++ g0 ∧ Cut stop ((page, m) :: rest) B' g0 := by
  obtain ⟨hpage, hrest⟩ := sorted_cons.1 hs
  unfold unmapVisit at h
  split at h
  · simp at h
  rename_i mappingEnd hend
  have hlen := lastPage_eq_some hend
  split at h
  · rename_i hgt
    cases h
    refine ⟨_, [], rfl, by simp, Cut.refl hs hn fun y hy => ?_⟩
    rcases mem_cons.1 hy with rfl | hy
    · exact hgt
    · exact lt_trans hgt (hpage y hy)
  split at h
  · rename_i hle
    obtain ⟨B', g0, rfl, rfl, hcut⟩ := hnext h
    exact ⟨B', m :: g0, rfl, by simp, hcut.remove (by omega)⟩
  split at h
  · rename_i m1 m2 k hsplit hk
    obtain ⟨-, rfl⟩ := pageAdd_eq_some.1 hk
    split at h
    · rename_i hins
      cases h
      refine ⟨(stop + 1, m2) :: rest, [m1], by simp, rfl, ?_⟩
      exact Cut.split hs hn (by omega) (by omega) hsplit (insertable_after hrest hins)
    · simp at h
  · simp at h

/-- The loop from an entry at or above `start` on. -/
lemma unmapLoop_spec (hB : ∀ y ∈ B, start ≤ y.1) (hs : Sorted B)
    (hn : Nonempty B) (h : unmapLoop start stop B before gone = some (L', g)) :
    ∃ B' g0, L' = before.reverse ++ B' ∧ g = gone ++ g0 ∧ Cut stop B B' g0 := by
  induction B generalizing before gone L' g with
  | nil =>
    cases h
    exact ⟨[], [], by simp, by simp, Cut.refl hs hn (by simp)⟩
  | cons x rest ih =>
    obtain ⟨page, m⟩ := x
    have hpage : ¬ page < start := Nat.not_lt.2 (hB (page, m) (mem_cons_self ..))
    simp only [unmapLoop, if_neg hpage] at h
    refine unmapVisit_spec (fun hnext => ?_) hs hn h
    exact ih (fun y hy => hB y (mem_cons_of_mem _ hy)) (sorted_cons.1 hs).2
      (fun y hy => hn y (mem_cons_of_mem _ hy)) hnext

/-! ## The whole loop -/

/-- A mapping begins further up in the range, but the entry below `start` ends before it. -/
def GapSkip (L : Mappings) (start stop : Nat) : Prop :=
  ∃ x, getLE L start = some x ∧ x.1 + x.2.len ≤ start ∧ ∃ y ∈ L, start < y.1 ∧ y.1 ≤ stop

instance (L : Mappings) (start stop : Nat) : Decidable (GapSkip L start stop) :=
  match h : getLE L start with
  | none => isFalse (by rintro ⟨x, hx, -⟩; rw [h] at hx; cases hx)
  | some x =>
    if hx : x.1 + x.2.len ≤ start ∧ ∃ y ∈ L, start < y.1 ∧ y.1 ≤ stop then
      isTrue ⟨x, h, hx⟩
    else isFalse (by rintro ⟨x', hx', hy⟩; rw [h] at hx'; cases hx'; exact hx hy)

/-- Only the last two facts ask for disjoint mappings, and only the last for a range without gap. -/
structure UnmapSpec (start stop : Nat) (L L' : Mappings) (gone : List Mapping) : Prop where
  sorted : Sorted L'
  nonempty : Nonempty L'
  fresh : ∀ y ∈ L', y.1 ≠ start
  below : ∀ p, p < start → resolve L' p = resolve L p
  above : ∀ p, stop < p → ∀ x, resolve L p = some x →
    ∃ y, getLE L' p = some y ∧ start < y.1 ∧ y.2.slot (p - y.1) = some x
  resident : (resident L).Perm (residents gone ++ resident L')
  parts : Parts L' L
  disjoint : Disjoint L → Disjoint L'
  exact : Disjoint L → ∀ p, ¬ (start ≤ p ∧ p ≤ stop) → resolve L' p = resolve L p
  clear : Disjoint L → ¬ GapSkip L start stop → ∀ y ∈ L', y.1 + y.2.len ≤ start ∨ stop < y.1

variable {L A : Mappings}

/-- The second pass leaves the entries below `start` alone. -/
lemma UnmapSpec.of_cut (hle : start ≤ stop) (ho : Opened start L A B) (hcut : Cut stop B B' gone) :
    UnmapSpec start stop L (A ++ B') gone := by
  have hsp := ho.split
  have hAB' : ∀ a ∈ A, ∀ b ∈ B', a.1 < b.1 := fun a ha b hb => by have := ho.below a ha; have := hcut.above b hb; omega
  -- below `start` the entries of `B` and `B'` play no part
  have hlow : ∀ p, p < start → resolve (A ++ B') p = resolve L p := fun p hp => by
    rw [← hsp.resolves, resolve_append_of_gt fun y hy => by have := hcut.above y hy; omega,
      resolve_append_of_gt fun y hy => by have := ho.above y hy; omega]
  -- behind `stop` they decide the lookup
  have hhigh : ∀ p, stop < p → resolve L p = resolve B' p := fun p hp => by
    rw [← hsp.resolves, hcut.behind p hp]
    rcases ho.head with rfl | ⟨b, hb, hbs⟩
    · rfl
    · rw [resolve_append, if_pos (getLE_isSome_of_mem hb (by omega))]
  have hends : Disjoint L → ∀ a ∈ A, a.1 + a.2.len ≤ start := fun hd a ha => by
    rcases ho.head with rfl | ⟨b, hb, hbs⟩
    · simp at ha
    · exact hbs ▸ (Disjoint.append.1 (hsp.disjoint hd)).2.2 a ha b hb
  refine ⟨?_, ?_, ?_, hlow, ?_, ?_, ?_, fun hd => ?_, fun hd p hp => ?_, fun hd _ y hy => ?_⟩
  · exact sorted_append.2 ⟨(sorted_append.1 hsp.sorted).1, hcut.sorted, hAB'⟩
  · intro y hy
    rcases mem_append.1 hy with hy | hy
    · exact hsp.nonempty y (mem_append_left _ hy)
    · exact hcut.nonempty y hy
  · intro y hy
    rcases mem_append.1 hy with hy | hy
    · exact (ho.below y hy).ne
    · have := hcut.above y hy; omega
  · intro p hp x hx
    rw [hhigh p hp] at hx
    obtain ⟨y, hy, hslot⟩ := Option.bind_eq_some_iff.1 hx
    refine ⟨y, by rw [getLE_append, hy]; rfl, ?_, hslot⟩
    have := hcut.above y (getLE_mem hy).1
    omega
  · rw [← hsp.resident, resident_append, resident_append, hcut.resident]
    exact perm_append_comm_assoc ..
  · exact ((Parts.refl A).append hcut.parts).trans hsp.parts
  · obtain ⟨hdA, hdB, -⟩ := Disjoint.append.1 (hsp.disjoint hd)
    refine Disjoint.append.2 ⟨hdA, hcut.disjoint hdB, fun a ha b hb => ?_⟩
    have := hends hd a ha; have := hcut.above b hb; omega
  · by_cases hps : p < start
    · exact hlow p hps
    rw [hhigh p (by omega), resolve_append]
    split
    · rfl
    rename_i hr
    rw [resolve_of_not_found hr]
    exact resolve_eq_none_of_le fun a ha => by have := hends hd a ha; omega
  · rcases mem_append.1 hy with hy | hy
    · exact .inl (hends hd y hy)
    · exact .inr (hcut.above y hy)

lemma UnmapSpec.of_gap (hs : Sorted (A ++ (page, m) :: B))
    (hn : Nonempty (A ++ (page, m) :: B)) (hle : start ≤ stop) (hlt : page < start)
    (hend : page + m.len ≤ start) (hB : ∀ b ∈ B, start < b.1) :
    UnmapSpec start stop (A ++ (page, m) :: B) (A ++ (page, m) :: B) [] := by
  have hA : ∀ a ∈ A, a.1 < page := fun a ha => (sorted_append.1 hs).2.2 a ha (page, m) (mem_cons_self ..)
  refine ⟨hs, hn, ?_, fun _ _ => rfl, fun p hp x hx => ?_, by simp [residents], .refl _, id,
    fun _ _ _ => rfl, fun hd hgap y hy => ?_⟩
  · intro y hy
    simp only [mem_append, mem_cons] at hy
    rcases hy with hy | rfl | hy
    · have := hA y hy; omega
    · exact hlt.ne
    · exact (hB y hy).ne'
  · obtain ⟨y, hy, hslot⟩ := Option.bind_eq_some_iff.1 hx
    refine ⟨y, hy, ?_, hslot⟩
    -- the entry `(page, m)` has no slot for `p`
    rw [getLE_append, getLE_cons, if_pos (by simp only; omega)] at hy
    cases hb : getLE B p with
    | none =>
      rw [hb] at hy
      cases hy
      rw [Mapping.slot_eq_none.2 (by simp only; omega)] at hslot
      cases hslot
    | some z =>
      rw [hb] at hy
      cases hy
      exact hB _ (getLE_mem hb).1
  · by_contra hc
    refine hgap ⟨(page, m), getLE_of_split hlt.le hB, hend, y, hy, ?_⟩
    simp only [mem_append, mem_cons] at hy
    obtain ⟨-, -, hdA⟩ := Disjoint.append.1 hd
    rcases hy with hy | rfl | hy
    · have := hdA y hy (page, m) (mem_cons_self ..); simp only at this; omega
    · exact absurd (.inl hend) hc
    · have := hB y hy; omega

/-- **What `unmap` does**, over all positions of the range and the mappings. -/
lemma unmapPages_spec (hle : start ≤ stop) (hs : Sorted L) (hn : Nonempty L)
    (h : unmapPages L start stop = some (L', gone)) : UnmapSpec start stop L L' gone := by
  have hopened : ∀ {A B : Mappings}, Opened start L A B → unmapLoop start stop B A.reverse [] = some (L', gone) →
      UnmapSpec start stop L L' gone := fun ho h => by
    obtain ⟨B', g, rfl, rfl, hcut⟩ := unmapLoop_spec ho.above ho.sorted ho.nonempty h
    rw [reverse_reverse]
    exact .of_cut hle ho hcut
  obtain ⟨A, B, hseek, hL, ho | ⟨page, m, rest, rfl, hlt, -, hrest, hsplits⟩⟩ := seekLE_opened hs hn start
  all_goals simp only [unmapPages, hseek] at h
  · exact hopened ho h
  simp only [unmapLoop, if_pos hlt] at h
  split at h
  · simp at h
  rename_i mappingEnd hend
  have hlen := lastPage_eq_some hend
  split at h
  · simp only [reverse_reverse, Option.some.injEq, Prod.mk.injEq] at h
    obtain ⟨rfl, rfl⟩ := h
    subst hL
    exact UnmapSpec.of_gap hs hn hle hlt (by omega) hrest
  split at h
  · simp at h
  rename_i m1 m2 hsplit
  split at h
  · refine hopened (hsplits m1 m2 (by omega) hsplit) ?_
    rw [reverse_append, unmapLoop, if_neg (lt_irrefl start)]
    exact h
  · simp at h

end Mushroom.L2
