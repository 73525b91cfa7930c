import Mushroom.L2Memory.Clone

/-!
# The invariant of the world

`WorldOk`: the resident pages of all address spaces and the kernel's own pages
are all the pointers to frames, every address space keeps its invariant, and
pages of non-shared anonymous mappings are isolated. `step_ok` proves that
every step keeps it, and that an isolated page keeps its bytes unless its own
address space stores to it or maps it anew.
-/
namespace Mushroom.L2
open List Option OrdMap UserPage World

/-! ## Slots of the world -/

def residentsOf : Option Space → List UserPage
  | none => []
  | some s => resident s.state.mappings

variable {j q f : Nat} {u : UserPage} {x y : Slot} {us' us : List UserPage} {g : Kernel} {A : Allocator}
  {L : Mappings}

namespace World

def residents (w : World) : List UserPage := w.spaces.flatMap residentsOf

def slot (w : World) (j q : Nat) : Option Slot := (w.space j).bind fun s => resolve s.state.mappings q

section

variable {w : World} {i : Nat} {s : Space}

lemma space_eq_some : w.space i = some s ↔ w.spaces[i]? = some (some s) := by
  unfold space
  cases w.spaces[i]? with
  | none => simp
  | some o => simp

lemma space_setSpace_ne (g : Kernel) (s' : Option Space) (hj : j ≠ i) : (w.setSpace g i s').space j = w.space j := by
  simp only [space, setSpace, List.getElem?_set_ne hj.symm]

lemma slot_setSpace_ne (g : Kernel) (s' : Option Space) (hj : j ≠ i) (q : Nat) :
    (w.setSpace g i s').slot j q = w.slot j q := by
  unfold slot
  rw [space_setSpace_ne g s' hj]

lemma slot_setSpace (hi : w.space i = some s) (g : Kernel) (s' : Space) (q : Nat) :
    (w.setSpace g i (some s')).slot i q = resolve s'.state.mappings q := by
  unfold slot
  rw [space_setSpace hi]
  rfl

lemma residents_split (hi : w.space i = some s) : ∃ R, w.residents.Perm (resident s.state.mappings ++ R) ∧
      (∀ g s', (w.setSpace g i s').residents.Perm (residentsOf s' ++ R)) ∧
      ∀ j t, j ≠ i → w.space j = some t → ∀ u ∈ resident t.state.mappings, u ∈ R := by
  obtain ⟨hlt, he⟩ := List.getElem?_eq_some_iff.1 (space_eq_some.1 hi)
  refine ⟨(w.spaces.eraseIdx i).flatMap residentsOf, ?_, fun g s' => ?_, fun j t hj ht u hu => ?_⟩
  · have h := (getElem_cons_eraseIdx_perm hlt).symm.flatMap_right residentsOf
    rwa [he] at h
  · exact (set_perm_cons_eraseIdx hlt s').flatMap_right residentsOf
  obtain ⟨hjlt, hje⟩ := List.getElem?_eq_some_iff.1 (space_eq_some.1 ht)
  refine mem_flatMap.2 ⟨some t, ?_, hu⟩
  rw [mem_eraseIdx_iff_getElem]
  exact ⟨j, hjlt, hj, hje⟩

lemma mem_residents (hx : w.slot j q = some x) (hu : x.page = some u) : u ∈ w.residents := by
  obtain ⟨s, hs, hres⟩ := bind_eq_some_iff.1 hx
  exact mem_flatMap.2 ⟨some s, mem_of_getElem? (space_eq_some.1 hs), mem_resident_of_resolve hres hu⟩

end

end World

lemma Iso.perm (hp : us.Perm us') (h : Iso g us f) : Iso g us' f :=
  h.mono rfl fun u hu => ⟨u, hp.mem_iff.2 hu, rfl, rfl⟩

lemma Slot.Isolated.perm (hp : us.Perm us') (h : x.Isolated g us) : x.Isolated g us' :=
  ⟨h.shared, h.zero, fun u hu => (h.frame u hu).perm hp⟩

lemma AnonIsolated.perm (hp : us.Perm us') (h : AnonIsolated g us L) : AnonIsolated g us' L :=
  fun y hy hb hs u hu => (h y hy hb hs u hu).perm hp

/-! ## The invariant -/

structure WorldOk (w : World) : Prop where
  own : Own w.kernel.heap (w.kernel.pages ++ w.residents.map page)
  distinct : Distinct w.kernel.pages
  ok : ∀ i s, w.space i = some s → SpaceOk s
  anon : ∀ i s, w.space i = some s → AnonIsolated w.kernel w.residents s.state.mappings

/-- Page `q` of address space `j` stays isolated and keeps its bytes. -/
def Keeps (w w' : World) (j q : Nat) : Prop :=
  ∀ x, w.slot j q = some x → x.Isolated w.kernel w.residents →
    ∃ x', w'.slot j q = some x' ∧ x'.Isolated w'.kernel w'.residents ∧ x'.bytes w'.kernel = x.bytes w.kernel

namespace WorldOk

variable {w : World} {g' : Kernel} {s : Space} {i page offset : Nat} {r : Except Errno Space} {val : UInt8}

lemma space_step (hw : WorldOk w) {s' : Space} {touched : Nat → Prop} (hi : w.space i = some s)
    (h : SpaceStep touched w.kernel s g' s') : WorldOk (w.setSpace g' i (some s')) ∧
      ∀ j q, (j = i → ¬ touched q) → Keeps w (w.setSpace g' i (some s')) j q := by
  obtain ⟨R, hres, hset, hothers⟩ := residents_split hi
  have hset : (w.setSpace g' i (some s')).residents.Perm (resident s'.state.mappings ++ R) :=
    hset g' (some s')
  have o : Own w.kernel.heap (w.kernel.pages ++ (s.handles ++ R.map page)) := by
    refine hw.own.perm (List.Perm.append_left _ ((hres.map _).trans ?_))
    rw [map_append]
    exact List.Perm.refl _
  have hspace : ∀ j t, j ≠ i → (w.setSpace g' i (some s')).space j = some t → w.space j = some t := by
    intro j t hj ht
    rwa [space_setSpace_ne g' (some s') hj] at ht
  refine ⟨⟨?_, h.distinct _ o hw.distinct, ?_, ?_⟩, ?_⟩
  · refine (h.own _ o).perm (List.Perm.append_left _ ((List.Perm.trans ?_ (hset.map _).symm)))
    rw [map_append]
    exact List.Perm.refl _
  · intro j t ht
    by_cases hj : j = i
    · subst hj
      rw [space_setSpace hi] at ht
      cases ht
      exact h.ok (hw.ok j s hi)
    · exact hw.ok j t (hspace j t hj ht)
  · intro j t ht
    by_cases hj : j = i
    · subst hj
      rw [space_setSpace hi] at ht
      cases ht
      exact (h.anon R o ((hw.anon j s hi).perm hres)).perm hset.symm
    · intro y hy hb hs u hu
      have htj := hspace j t hj ht
      have hiso := (hw.anon j t htj y hy hb hs u hu).perm hres
      exact (h.others R o u (hothers j t hj htj u (mem_resident hy hu)) hiso).1.perm hset.symm
  intro j q hq x hx hiso
  by_cases hj : j = i
  · subst hj
    have hx' : resolve s.state.mappings q = some x := by
      unfold slot at hx
      rwa [hi] at hx
    obtain ⟨x', hres', hiso', hbytes⟩ := h.isolated R o q x (hq rfl) hx' (hiso.perm hres)
    refine ⟨x', ?_, hiso'.perm hset.symm, hbytes⟩
    rw [slot_setSpace hi]
    exact hres'
  · refine ⟨x, ?_, ?_⟩
    · rw [slot_setSpace_ne g' (some s') hj]
      exact hx
    obtain ⟨t, ht, hxt⟩ := bind_eq_some_iff.1 hx
    refine Slot.Isolated.like (.refl x) (fun u hu hi' => ?_) hiso
    obtain ⟨h1, h2⟩ := h.others R o u (hothers j t hj ht u (mem_resident_of_resolve hxt hu))
      (hi'.perm hres)
    exact ⟨h1.perm hset.symm, h2⟩

lemma kernel_step (hw : WorldOk w) (h : KernelStep w.kernel g' []) :
    WorldOk { w with kernel := g' } ∧ ∀ j q, Keeps w { w with kernel := g' } j q := by
  have hown : Own g'.heap (g'.pages ++ w.residents.map page) := h.own _ hw.own
  have hkeep : ∀ u ∈ w.residents, Iso w.kernel w.residents u.page.content → Iso g' w.residents u.page.content ∧
        g'.heap.bytes u.page.content = w.kernel.heap.bytes u.page.content := fun u hu hi =>
    hi.kernel h hw.own hown
      (hw.own.live (mem_append_right _ (mem_map_of_mem hu))) fun v hv => .inr hv
  refine ⟨⟨hown, KernelStep.distinct_pages h hw.own hw.distinct, hw.ok, ?_⟩, ?_⟩
  · intro i s hi y hy hb hs u hu
    have hmem : u ∈ w.residents := mem_flatMap.2 ⟨some s, mem_of_getElem? (space_eq_some.1 hi), mem_resident hy hu⟩
    exact (hkeep u hmem (hw.anon i s hi y hy hb hs u hu)).1
  · intro j q x hx hiso
    exact ⟨x, hx, Slot.Isolated.like (.refl x)
      (fun u hu => hkeep u (mem_residents hx hu)) hiso⟩

lemma new_step (hw : WorldOk w) : WorldOk { w with spaces := w.spaces ++ [some .new] } ∧
      ∀ j q, Keeps w { w with spaces := w.spaces ++ [some .new] } j q := by
  have hres : (World.residents { w with spaces := w.spaces ++ [some .new] }) = w.residents := by
    simp only [World.residents, flatMap_append]
    exact append_nil _
  have hspace : ∀ j t, space { w with spaces := w.spaces ++ [some .new] } j = some t →
      w.space j = some t ∨ t = .new := by
    intro j t ht
    rw [space_eq_some, List.getElem?_append] at ht
    split at ht
    · exact .inl (space_eq_some.2 ht)
    have := mem_of_getElem? ht
    simp only [mem_singleton, Option.some.injEq] at this
    exact .inr this
  refine ⟨⟨by rw [hres]; exact hw.own, hw.distinct, ?_, ?_⟩, ?_⟩
  · intro j t ht
    rcases hspace j t ht with h | rfl
    · exact hw.ok j t h
    · exact spaceOk_new
  · intro j t ht
    rw [hres]
    rcases hspace j t ht with h | rfl
    · exact hw.anon j t h
    · nofun
  intro j q x hx hiso
  refine ⟨x, ?_, by rw [hres]; exact hiso, rfl⟩
  obtain ⟨t, ht, hxt⟩ := bind_eq_some_iff.1 hx
  obtain ⟨hlt, -⟩ := List.getElem?_eq_some_iff.1 (space_eq_some.1 ht)
  refine bind_eq_some_iff.2 ⟨t, space_eq_some.2 ?_, hxt⟩
  rw [List.getElem?_append_left hlt]
  exact space_eq_some.1 ht

lemma drop_step (hw : WorldOk w) (hi : w.space i = some s) (h : s.drop w.kernel = some g') :
    WorldOk (w.setSpace g' i none) ∧ ∀ j q, j ≠ i → Keeps w (w.setSpace g' i none) j q := by
  have hstep : SpaceStep (fun _ => True) w.kernel s g' .new :=
    L2.drop_step (hw.ok i s hi) h fun _ => trivial
  obtain ⟨hok, hkeep⟩ := hw.space_step hi hstep
  obtain ⟨hlt, -⟩ := List.getElem?_eq_some_iff.1 (space_eq_some.1 hi)
  -- an empty place has as few pages as an empty address space
  have hres : (w.setSpace g' i none).residents.Perm (w.setSpace g' i (some .new)).residents :=
    ((set_perm_cons_eraseIdx hlt none).flatMap_right residentsOf).trans
      ((set_perm_cons_eraseIdx hlt (some Space.new)).flatMap_right residentsOf).symm
  have hspace : ∀ j t, (w.setSpace g' i none).space j = some t → (w.setSpace g' i (some .new)).space j = some t := by
    intro j t ht
    have hj : j ≠ i := by
      rintro rfl
      rw [space_setSpace hi] at ht
      cases ht
    rw [space_setSpace_ne _ _ hj] at ht ⊢
    exact ht
  refine ⟨⟨hok.own.perm (List.Perm.append_left _ (hres.symm.map _)), hok.distinct, fun j t ht => ?_,
    fun j t ht => ?_⟩, ?_⟩
  · exact hok.ok j t (hspace j t ht)
  · exact (hok.anon j t (hspace j t ht)).perm hres.symm
  intro j q hj x hx hiso
  obtain ⟨x', hx', hiso', hbytes⟩ := hkeep j q (fun h => absurd h hj) x hx hiso
  rw [slot_setSpace_ne _ _ hj] at hx'
  refine ⟨x', ?_, hiso'.perm hres.symm, hbytes⟩
  rw [slot_setSpace_ne _ _ hj]
  exact hx'

lemma addClone_residents (w : World) (r : Except Errno Space) : (w.addClone r).residents = w.residents ++ kids r := by
  cases r with
  | ok this => simp [World.addClone, World.residents, kids, residentsOf]
  | error e => simp [addClone, kids]

lemma addClone_space {t : Space} (h : (w.addClone r).space j = some t) : w.space j = some t ∨ r = .ok t := by
  cases r with
  | error e => exact .inl h
  | ok this =>
    rw [space_eq_some, addClone, List.getElem?_append] at h
    split at h
    · exact .inl (space_eq_some.2 h)
    have := mem_of_getElem? h
    simp only [mem_singleton, Option.some.injEq] at this
    rw [this]
    exact .inr rfl

lemma addClone_space_of {t : Space} (h : w.space j = some t) : (w.addClone r).space j = some t := by
  cases r with
  | error e => exact h
  | ok this =>
    obtain ⟨hlt, -⟩ := List.getElem?_eq_some_iff.1 (space_eq_some.1 h)
    rw [space_eq_some, addClone, List.getElem?_append_left hlt]
    exact space_eq_some.1 h

lemma clone_step (hw : WorldOk w) {s' : Space} (hi : w.space i = some s)
    (h : s.clone A w.kernel = some (r, g', s')) : WorldOk ((w.setSpace g' i (some s')).addClone r) ∧
      ∀ j q, Keeps w ((w.setSpace g' i (some s')).addClone r) j q := by
  set w' := (w.setSpace g' i (some s')).addClone r with hw'
  have hstep := L2.clone_step (hw.ok i s hi) h
  obtain ⟨R, hres, hset, hothers⟩ := residents_split hi
  have hres' : w'.residents.Perm (resident s'.state.mappings ++ (kids r ++ R)) := by
    rw [hw', addClone_residents]
    refine ((hset g' (some s')).append_right (kids r)).trans ?_
    rw [append_assoc]
    exact List.Perm.append_left _ perm_append_comm
  have o : Own w.kernel.heap (w.kernel.pages ++ (s.handles ++ R.map UserPage.page)) := by
    refine hw.own.perm (List.Perm.append_left _ ((hres.map _).trans ?_))
    rw [map_append]
    exact List.Perm.refl _
  have hkernel : w'.kernel = g' := by rw [hw']; cases r <;> rfl
  have hframe : ∀ u ∈ resident s'.state.mappings ++ R, Iso w.kernel w.residents u.page.content →
      Iso g' w'.residents u.page.content ∧ g'.heap.bytes u.page.content = w.kernel.heap.bytes u.page.content := by
    intro u hu hiso
    obtain ⟨h1, h2⟩ := hstep.frames R o u hu (hiso.perm hres)
    exact ⟨h1.perm hres'.symm, h2⟩
  -- mappings up to reference counts are as isolated as before
  have hanon : AnonIsolated g' w'.residents s'.state.mappings := by
    intro y hy hb hs u hu
    obtain ⟨z, hz, hzy⟩ := mem_of_blur hstep.self hy
    obtain ⟨hb', hs', -, hpages⟩ := Mapping.of_blur hzy
    obtain ⟨v, hv, hvu⟩ := hpages u hu
    have hiso := hw.anon i s hi z hz (hb' ▸ hb) (hs' ▸ hs) v hv
    rw [(UserPage.blur_inj hvu).1] at hiso
    exact (hframe u (mem_append_left _ (mem_resident hy hu)) hiso).1
  have hspace : ∀ j t, w'.space j = some t →
      (t.state.mappings = s'.state.mappings ∧ SpaceOk t) ∨ (j ≠ i ∧ w.space j = some t) := by
    intro j t ht
    rcases addClone_space ht with ht | ht
    · by_cases hj : j = i
      · subst hj
        rw [space_setSpace hi] at ht
        cases ht
        exact .inl ⟨rfl, hstep.ok⟩
      · rw [space_setSpace_ne _ _ hj] at ht
        exact .inr ⟨hj, ht⟩
    · obtain ⟨h1, h2, -⟩ := hstep.child t ht
      exact .inl ⟨h1, h2⟩
  refine ⟨⟨?_, by rw [hkernel]; exact hstep.distinct _ o hw.distinct, fun j t ht => ?_, fun j t ht => ?_⟩, ?_⟩
  · rw [hkernel]
    refine (hstep.own R o).perm (List.Perm.append_left _ ((List.Perm.trans ?_ (hres'.map _).symm)))
    rw [map_append, map_append]
    exact List.Perm.refl _
  · rcases hspace j t ht with ⟨-, hok⟩ | ⟨-, ht⟩
    · exact hok
    · exact hw.ok j t ht
  · rw [hkernel]
    rcases hspace j t ht with ⟨heq, -⟩ | ⟨hj, ht⟩
    · rw [heq]; exact hanon
    intro y hy hb hs u hu
    exact (hframe u (mem_append_right _ (hothers j t hj ht u (mem_resident hy hu)))
      (hw.anon j t ht y hy hb hs u hu)).1
  intro j q x hx hiso
  obtain ⟨t, ht, hxt⟩ := bind_eq_some_iff.1 hx
  rw [hkernel]
  by_cases hj : j = i
  · subst hj
    rw [hi] at ht
    cases ht
    obtain ⟨x', hx', hblur⟩ := resolve_of_blur hstep.self hxt
    refine ⟨x', ?_, Slot.Isolated.like (Slot.like_of_blur hblur) (fun u hu hi' => ?_) hiso⟩
    · exact bind_eq_some_iff.2 ⟨s', addClone_space_of (space_setSpace hi _), hx'⟩
    have hpage : x'.page.map UserPage.blur = x.page.map UserPage.blur := congrArg Slot.page hblur
    rw [hu] at hpage
    obtain ⟨u', hu', huu⟩ := map_eq_some_iff.1 hpage
    rw [← (UserPage.blur_inj huu).1] at hi' ⊢
    exact hframe u' (mem_append_left _ (mem_resident_of_resolve hx' hu')) hi'
  · refine ⟨x, ?_, Slot.Isolated.like (.refl x) (fun u hu => ?_) hiso⟩
    · refine bind_eq_some_iff.2 ⟨t, addClone_space_of ?_, hxt⟩
      rw [space_setSpace_ne _ _ hj]
      exact ht
    · exact hframe u (mem_append_right _
        (hothers j t hj ht u (mem_resident_of_resolve hxt hu)))

/-! ## Stores -/

/-- Writable entries of non-shared mappings are the only pointers to their frames. -/
lemma entry (hw : WorldOk w) {i : Nat} {s : Space} {e : Pte} (hi : w.space i = some s)
    (he : s.pagetables page = some e) :
    ∃ x u, resolve s.state.mappings page = some x ∧ x.page = some u ∧ e.frame = u.page.content ∧
      u.perms = x.permissions ∧ u.shared = x.shared ∧ (e.executable = true → x.permissions.execute) ∧
      (e.writable = true → x.permissions.write ∧ u.page.content ≠ Heap.zeroFrame ∧ (x.shared = false →
          holders (w.kernel.pages ++ w.residents.map UserPage.page) u.page.content = 1)) := by
  have hok := hw.ok i s hi
  obtain ⟨-, x, u, hx, hu, hfor⟩ := hok.coherent page e he
  obtain ⟨hperms, hshared⟩ := hok.tidy_slot hx hu
  refine ⟨x, u, hx, hu, hfor.frame, hperms, hshared, fun h => hperms ▸ hfor.executable h, fun h => ?_⟩
  obtain ⟨hwrite, hmut⟩ := hfor.writable h
  have hmem : u.page ∈ w.kernel.pages ++ w.residents.map UserPage.page :=
    mem_append_right _ (mem_map_of_mem (mem_residents
      (bind_eq_some_iff.2 ⟨s, hi, hx⟩) hu))
  unfold KernelPage.mutable at hmut
  rw [Bool.and_eq_true, Bool.not_eq_true', Bool.or_eq_true, isNone_iff_eq_none] at hmut
  obtain ⟨cell, o⟩ := hw.own
  have h0 : u.page.content ≠ Heap.zeroFrame := by
    intro h0
    have hcell := o.ptr u.page hmem
    rw [h0, o.zeroCell] at hcell
    have := hmut.1
    simp [KernelPage.isZeroPage, hcell, h0] at this
  refine ⟨hperms ▸ hwrite, h0, fun hns => ?_⟩
  have hnone : u.page.referenceCount = none := hmut.2.resolve_right (by rw [hshared, hns]; decide)
  have hle := o.unique u.page.content ((o.ptr u.page hmem).symm.trans hnone) h0
  have hpos := holders_pos hmem
  omega

lemma resolve_ne_mem {v : UserPage} (hs : Sorted L)
    (hx : resolve L page = some x) (hu : x.page = some u) (hq : q ≠ page) (hy : resolve L q = some y)
    (hv : y.page = some v) : ∃ R, (resident L).Perm (u :: R) ∧ v ∈ R := by
  -- with another page than `v` in the slot of `page`, `v` is still there
  obtain ⟨R, h1, h2⟩ := setSlot_resident hs hx { v with page := ⟨v.page.content + 1, none⟩ }
  rw [hu] at h1
  refine ⟨R, h1, ?_⟩
  have hmem : v ∈ resident (setSlot L page { v with page := ⟨v.page.content + 1, none⟩ }) :=
    mem_resident_of_resolve (by rw [resolve_setSlot hs hx, if_neg hq]; exact hy) hv
  rcases mem_cons.1 (h2.mem_iff.1 hmem) with heq | hmem
  · have := congrArg (fun u : UserPage => u.page.content) heq
    simp only at this
    omega
  · exact hmem

/-- A frame with one pointer to it, that of page `page` of address space `i`. -/
lemma alone (hw : WorldOk w) (hi : w.space i = some s)
    (hx : resolve s.state.mappings page = some x) (hu : x.page = some u)
    (h1 : holders (w.kernel.pages ++ w.residents.map UserPage.page) u.page.content = 1) :
    (∀ k ∈ w.kernel.pages, k.content ≠ u.page.content) ∧ (∀ v ∈ w.residents, v.page.content = u.page.content → v = u) ∧
      ∀ j q y v, (j, q) ≠ (i, page) → w.slot j q = some y → y.page = some v → v.page.content ≠ u.page.content := by
  obtain ⟨R, hres, -, hothers⟩ := residents_split hi
  have hsorted := (hw.ok i s hi).sorted
  -- once the pointer of `u` is taken out, none is left
  have hrest : ∀ R0 : List UserPage, (resident s.state.mappings).Perm (u :: R0) →
      ∀ k ∈ w.kernel.pages ++ (R0 ++ R).map UserPage.page, k.content ≠ u.page.content := by
    intro R0 hR0
    rw [← holders_eq_zero]
    have hperm : (w.kernel.pages ++ w.residents.map UserPage.page).Perm
        (u.page :: (w.kernel.pages ++ (R0 ++ R).map UserPage.page)) := by
      refine (List.Perm.append_left _ ((hres.trans (hR0.append_right R)).map UserPage.page)).trans ?_
      exact perm_middle
    rw [holders_perm hperm, holders_cons_self] at h1
    omega
  obtain ⟨R0, h0, -⟩ := setSlot_resident hsorted hx u
  rw [hu] at h0
  refine ⟨fun k hk => hrest R0 h0 k (mem_append_left _ hk), fun v hv hc => ?_, ?_⟩
  · rcases mem_cons.1 ((hres.trans (h0.append_right R)).mem_iff.1 hv) with heq | hv
    · exact heq
    · exact absurd hc (hrest R0 h0 v.page (mem_append_right _ (mem_map_of_mem hv)))
  intro j q y v hne hy hv
  obtain ⟨t, ht, hyt⟩ := bind_eq_some_iff.1 hy
  by_cases hj : j = i
  · subst hj
    rw [hi] at ht
    cases ht
    obtain ⟨R1, h₁, hmem⟩ := resolve_ne_mem hsorted hx hu (fun hq => hne (by rw [hq])) hyt hv
    exact hrest R1 h₁ v.page (mem_append_right _
      (mem_map_of_mem (mem_append_left _ hmem)))
  · exact hrest R0 h0 v.page (mem_append_right _ (mem_map_of_mem
      (mem_append_right _ (hothers j t hj ht v (mem_resident_of_resolve hyt hv)))))

lemma store_eq_some (h : s.store g page offset val = some g') :
    ∃ e, s.pagetables page = some e ∧ e.writable ∧ offset < 4096 ∧
      g' = { g with heap := g.heap.store e.frame offset val } := by
  unfold Space.store at h
  split at h
  · cases h
  rename_i e he
  split at h
  · rename_i hc
    cases h
    exact ⟨e, he, hc.1, hc.2, rfl⟩
  · cases h

/-- A store is noticed only by the page it goes to, as far as isolated pages
are concerned. -/
lemma store_step (hw : WorldOk w) (hi : w.space i = some s) (h : s.store w.kernel page offset val = some g') :
    WorldOk { w with kernel := g' } ∧ (∀ j q, (j, q) ≠ (i, page) → Keeps w { w with kernel := g' } j q) ∧
      ∀ x, w.slot i page = some x → x.Isolated w.kernel w.residents → x.Isolated g' w.residents ∧
          x.bytes g' = fun o => if o = offset then val else x.bytes w.kernel o := by
  obtain ⟨e, he, hwr, -, rfl⟩ := store_eq_some h
  obtain ⟨x, u, hx, hu, hframe, -, hshared, -, hwritable⟩ := hw.entry hi he
  obtain ⟨-, h0, hholders⟩ := hwritable hwr
  rw [hframe]
  have hmem : u ∈ w.residents := mem_residents (bind_eq_some_iff.2 ⟨s, hi, hx⟩) hu
  refine ⟨⟨hw.own.setBytes h0 _, hw.distinct, hw.ok, hw.anon⟩, ?_, ?_⟩
  · intro j q hne y hy hiso
    refine ⟨y, hy, Slot.Isolated.like (.refl y) (fun v hv hi' => ⟨hi', ?_⟩) hiso⟩
    have hvne : v.page.content ≠ u.page.content := by
      intro hc
      rcases hi' with hz | ⟨-, hns⟩
      · exact h0 (hc ▸ hz)
      -- the frame is then not shared, and `u` is the only pointer to it
      have hxs : x.shared = false := hshared ▸ hns u hmem hc.symm
      exact (hw.alone hi hx hu (hholders hxs)).2.2 j q y v hne hy hv hc
    simp only [Heap.store, Heap.setBytes, if_neg hvne]
  · intro y hy hiso
    have hyx : y = x := by
      rw [slot, hi, bind_some, hx] at hy
      exact (Option.some.inj hy).symm
    subst hyx
    refine ⟨⟨hiso.shared, hiso.zero, hiso.frame⟩, ?_⟩
    funext o
    simp only [Slot.bytes, hu, Heap.store, Heap.setBytes, if_true]

end WorldOk

/-! ## Every step -/

/-- The step empties page `q` of address space `j` or maps it anew. -/
def World.Act.Remaps (w : World) (j q : Nat) : World.Act → Prop
  | .drop i => i = j
  | .vm i op => i = j ∧ ∃ s r st eff, w.space i = some s ∧ vmCall s.state op = some (r, st, eff) ∧
      op.Remaps eff q
  | _ => False

def World.Act.StoresTo (j q : Nat) : World.Act → Prop
  | .store i page .. => i = j ∧ page = q
  | _ => False

lemma kernelStep_create (g : Kernel) : KernelStep g { g with files := g.files ++ [.new] } [] := by
  have hpages : Kernel.pages { g with files := g.files ++ [.new] } = g.pages := by simp [Kernel.pages, Buffer.new]
  unfold KernelStep
  rw [hpages]
  exact .refl

/-- **Every step** keeps the invariant and the bytes of isolated pages that are not its target. -/
lemma step_ok {w w' : World} {a : World.Act} (hw : WorldOk w) (h : step A w a = some w') :
    WorldOk w' ∧ ∀ j q, ¬ a.Remaps w j q → ¬ a.StoresTo j q → Keeps w w' j q := by
  have lift (h : WorldOk w' ∧ ∀ j q, Keeps w w' j q) :
      WorldOk w' ∧ ∀ j q, ¬ a.Remaps w j q → ¬ a.StoresTo j q → Keeps w w' j q := ⟨h.1, fun j q _ _ => h.2 j q⟩
  cases a with
  | fault i page required tables =>
    obtain ⟨s, hi, h⟩ := bind_eq_some_iff.1 h
    obtain ⟨⟨r, g', s'⟩, hmap, rfl⟩ := map_eq_some_iff.1 h
    have hstep : SpaceStep (fun _ => False) w.kernel s g' s' := mapPage_step (hw.ok i s hi) hmap
    obtain ⟨hok, hkeep⟩ := hw.space_step hi hstep
    exact ⟨hok, fun j q _ _ => hkeep j q fun _ => id⟩
  | store i page offset val =>
    obtain ⟨s, hi, h⟩ := bind_eq_some_iff.1 h
    obtain ⟨g', hst, rfl⟩ := map_eq_some_iff.1 h
    obtain ⟨hok, hkeep, -⟩ := hw.store_step hi hst
    refine ⟨hok, fun j q _ hq => hkeep j q fun heq => hq ?_⟩
    cases heq
    exact ⟨rfl, rfl⟩
  | clone i =>
    obtain ⟨s, hi, h⟩ := bind_eq_some_iff.1 h
    obtain ⟨⟨r, g', s'⟩, hc, rfl⟩ := map_eq_some_iff.1 h
    exact lift (hw.clone_step hi hc)
  | drop i =>
    obtain ⟨s, hi, h⟩ := bind_eq_some_iff.1 h
    obtain ⟨g', hd, rfl⟩ := map_eq_some_iff.1 h
    obtain ⟨hok, hkeep⟩ := hw.drop_step hi hd
    exact ⟨hok, fun j q hq _ => hkeep j q (Ne.symm hq)⟩
  | vm i op =>
    obtain ⟨s, hi, h⟩ := bind_eq_some_iff.1 h
    obtain ⟨⟨r, g', s'⟩, hvm, rfl⟩ := map_eq_some_iff.1 h
    obtain ⟨eff, hcall, hstep⟩ := vm_step (hw.ok i s hi) hvm
    obtain ⟨hok, hkeep⟩ := hw.space_step hi hstep
    refine ⟨hok, fun j q hq _ => hkeep j q fun hj hremap => hq ?_⟩
    exact ⟨hj.symm, s, r, s'.state, eff, hi, hcall, hremap⟩
  | new =>
    cases h
    exact lift hw.new_step
  | create =>
    cases h
    exact lift (hw.kernel_step (kernelStep_create w.kernel))
  | write f offset buf =>
    obtain ⟨b, hf, rfl⟩ := map_eq_some_iff.1 h
    exact lift (hw.kernel_step (.file hf (Buffer.write_step rfl)))
  | truncate f len =>
    obtain ⟨b, hf, rfl⟩ := map_eq_some_iff.1 h
    exact lift (hw.kernel_step (.file hf (Buffer.truncate_step rfl)))

lemma worldOk_start (code : Nat → UInt8) : WorldOk (start code) := by
  have hspace : ∀ i s, (start code).space i ≠ some s := by
    intro i s h
    rw [space_eq_some] at h
    cases h
  refine ⟨⟨fun _ => none, ?_, rfl, fun i => rfl, ?_, rfl, ?_, ?_, ?_⟩, ?_, ?_, ?_⟩
  · intro k hk
    have hk : k = ⟨1, none⟩ := by simpa [World.start, Kernel.pages, World.residents] using hk
    rw [hk]; rfl
  · intro k hk
    have hk : k = ⟨1, none⟩ := by simpa [World.start, Kernel.pages, World.residents] using hk
    rw [hk]
  · nofun
  · nofun
  · intro f _ _
    simp only [start, Kernel.pages, holders, flatMap_nil]
    exact countP_le_length
  · exact pairwise_singleton _ _
  · exact fun i s h => absurd h (hspace i s)
  · exact fun i s h => absurd h (hspace i s)

lemma reachable_ok {w : World} (hw : (system A).Reachable w) : WorldOk w := by
  have hind : (system A).Inductive WorldOk := by
    refine ⟨?_, fun w a w' hw h => (step_ok hw h).1⟩
    rintro w ⟨code, rfl⟩
    exact worldOk_start code
  exact hind.reachable w hw

/-- All pointers to frames, of the kernel and of the address spaces. -/
def World.handles (w : World) : List KernelPage := w.kernel.pages ++ w.residents.map page

/-- No page points to a frame that was freed. The pages of a frame have the same counter, which is their number, or
there is only one. -/
theorem pages_counted {w : World} (hw : (system A).Reachable w) (k : KernelPage) (hk : k ∈ w.handles) :
    w.kernel.heap.live k.content ∧ (∀ k' ∈ w.handles, k'.content = k.content → k'.referenceCount = k.referenceCount) ∧
      (∀ r, k.referenceCount = some r → w.kernel.heap.counts r = some (holders w.handles k.content)) ∧
      (k.referenceCount = none → k.content ≠ Heap.zeroFrame → holders w.handles k.content = 1) := by
  obtain ⟨cell, o⟩ := (reachable_ok hw).own
  refine ⟨o.live k hk, fun k' hk' he => ?_, fun r hr => ?_, fun hr h0 => ?_⟩
  · rw [o.ptr k' hk', o.ptr k hk, he]
  · exact o.count _ r ((o.ptr k hk).symm.trans hr)
  · refine le_antisymm (o.unique _ ((o.ptr k hk).symm.trans hr) h0) (Nat.pos_of_ne_zero fun h => ?_)
    exact holders_eq_zero.1 h k hk rfl

/-- A page written to before a fork: both address spaces have it, and the counter is 2. -/
theorem pages_counted_fork : ∃ w, (system fun n => some (n + 2)).Reachable w ∧ holders w.handles 2 = 2 ∧
    w.kernel.heap.counts 3 = some (holders w.handles 2) := by
  have hrun : ((LTS.runFn (step fun n => some (n + 2)) (start fun _ => 0)
      [.new, .vm 0 (.mmap (.fixed ⟨0x1000, by decide⟩) 4096 ⟨false, true, true⟩ .zero 0 false),
        .fault 0 1 ⟨true, false⟩ true, .clone 0]).any fun w =>
      decide (⟨2, some 3⟩ ∈ w.handles ∧ holders w.handles 2 = 2)) = true := by decide
  obtain ⟨w, hw, hp⟩ := (Option.any_eq_true _ _).1 hrun
  obtain ⟨hmem, htwo⟩ := of_decide_eq_true hp
  have hreach : (system fun n => some (n + 2)).Reachable w := ⟨_, _, ⟨_, rfl⟩, LTS.runFn_run hw⟩
  exact ⟨w, hreach, htwo, (pages_counted hreach _ hmem).2.2.1 3 rfl⟩

end Mushroom.L2
