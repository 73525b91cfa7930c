import Mushroom.L2Memory.World

/-!
# Cloning and dropping an address space

`clone` copies pointers: the pages of the copy and of the original point to
the same frames and share a reference count. `blur` forgets the reference
counts; up to it the original does not change, and a successful copy is equal
to it. Dropping an address space gives back what it holds.
-/
namespace Mushroom.L2
open List OrdMap UserPage Mapping

/-! ## Pages up to their reference count -/

def UserPage.blur (u : UserPage) : UserPage := { u with page := ⟨u.page.content, none⟩ }

def Slot.blur (x : Slot) : Slot := { x with page := x.page.map UserPage.blur }

def Mapping.blur (m : Mapping) : Mapping := { m with pages := m.pages.map (Option.map UserPage.blur) }

def blur (L : Mappings) : Mappings := L.map fun y => (y.1, y.2.blur)

lemma Mapping.blur_slot (m : Mapping) (i : Nat) : m.blur.slot i = (m.slot i).map Slot.blur := by
  simp only [slot, blur, List.getElem?_map, Option.map_map]
  rfl

lemma Mapping.blur_resident (m : Mapping) : m.blur.resident = m.resident.map UserPage.blur := by
  simp only [resident, blur, filterMap_map, map_filterMap]
  rfl

@[simp] lemma Mapping.blur_len (m : Mapping) : m.blur.len = m.len := by simp [blur, len]

lemma blur_cons (k : Nat) (m : Mapping) (L : Mappings) : blur ((k, m) :: L) = (k, m.blur) :: blur L := rfl

lemma getLE_blur_isSome (L : Mappings) (p : Nat) : (getLE (blur L) p).isSome = (getLE L p).isSome := by
  induction L with
  | nil => rfl
  | cons y L ih => rw [blur_cons, getLE_cons_isSome, getLE_cons_isSome, ih]

lemma resolve_blur (L : Mappings) (p : Nat) : resolve (blur L) p = (resolve L p).map Slot.blur := by
  induction L with
  | nil => rfl
  | cons y L ih =>
    rw [blur_cons, resolve_cons, resolve_cons, getLE_blur_isSome, ih, blur_slot]
    split
    · rfl
    split <;> rfl

lemma resident_blur (L : Mappings) : resident (blur L) = (resident L).map UserPage.blur := by
  induction L with
  | nil => rfl
  | cons y L ih => rw [blur_cons, resident_cons, resident_cons, map_append, ih, blur_resident]

lemma shape_blur (L : Mappings) : shape (blur L) = shape L := by
  simp only [shape, blur, map_map]
  exact map_congr_left fun y _ => by simp

section

variable {L L' : Mappings} (hb : blur L' = blur L)
include hb

lemma shape_of_blur : shape L' = shape L := by rw [← shape_blur L', hb, shape_blur]

lemma resolve_of_blur {p : Nat} {x : Slot} (hx : resolve L p = some x) :
    ∃ x', resolve L' p = some x' ∧ x'.blur = x.blur := by
  have h : (resolve L' p).map Slot.blur = (resolve L p).map Slot.blur := by rw [← resolve_blur, ← resolve_blur, hb]
  rw [hx] at h
  exact Option.map_eq_some_iff.1 h

lemma mem_resident_of_blur {u : UserPage} (hu : u ∈ resident L') : ∃ v ∈ resident L, v.blur = u.blur := by
  have h : (resident L').map UserPage.blur = (resident L).map UserPage.blur := by
    rw [← resident_blur, ← resident_blur, hb]
  have hmem : u.blur ∈ (resident L).map UserPage.blur := h ▸ mem_map_of_mem hu
  exact mem_map.1 hmem

lemma mem_of_blur {y : Nat × Mapping} (hy : y ∈ L') : ∃ z ∈ L, z.2.blur = y.2.blur := by
  have hmem : (y.1, y.2.blur) ∈ blur L := hb ▸ mem_map.2 ⟨y, hy, rfl⟩
  obtain ⟨z, hz, he⟩ := mem_map.1 hmem
  exact ⟨z, hz, (Prod.mk.inj he).2⟩

end

variable {u : UserPage} {L L' : Mappings} {s : Space} {g' : Kernel}

lemma UserPage.blur_inj {v : UserPage} (h : u.blur = v.blur) :
    u.page.content = v.page.content ∧ u.perms = v.perms ∧ u.shared = v.shared := by
  simp only [blur, mk.injEq, KernelPage.mk.injEq, and_true] at h
  exact h

lemma Slot.like_of_blur {x x' : Slot} (h : x'.blur = x.blur) : x.Like x' := by
  have hpage : x'.page.map UserPage.blur = x.page.map UserPage.blur := congrArg Slot.page h
  simp only [Slot.blur, Slot.mk.injEq] at h
  refine ⟨h.1, h.2.2.2.1, ?_⟩
  have := congrArg (Option.map fun u : UserPage => u.page.content) hpage
  rwa [Option.map_map, Option.map_map] at this

lemma Mapping.of_blur {m m' : Mapping} (h : m'.blur = m.blur) :
    m.backing = m'.backing ∧ m.shared = m'.shared ∧ m.permissions = m'.permissions ∧
      ∀ u ∈ m.resident, ∃ v ∈ m'.resident, v.blur = u.blur := by
  refine ⟨(congrArg backing h).symm, (congrArg shared h).symm, (congrArg permissions h).symm, fun u hu => ?_⟩
  have hres : m'.resident.map UserPage.blur = m.resident.map UserPage.blur := by
    rw [← blur_resident, ← blur_resident, h]
  have hmem : u.blur ∈ m'.resident.map UserPage.blur := hres ▸ mem_map_of_mem hu
  exact mem_map.1 hmem

lemma tidy_of_blur (hb : blur L' = blur L) (ht : ∀ y ∈ L, y.2.Tidy) : ∀ y ∈ L', y.2.Tidy := by
  intro y hy u hu
  obtain ⟨z, hz, hzy⟩ := mem_of_blur hb hy
  obtain ⟨-, hs, hp, hpages⟩ := of_blur hzy
  obtain ⟨v, hv, hvu⟩ := hpages u hu
  obtain ⟨-, hperms, hshared⟩ := blur_inj hvu
  obtain ⟨ht1, ht2⟩ := ht z hz v hv
  exact ⟨by rw [← hperms, ht1, hp], by rw [← hshared, ht2, hs]⟩

/-! ## `clone` -/

structure SlotsCloned (ps : List (Option UserPage)) (h : Heap) (c : Cloned (List (Option UserPage))) : Prop where
  bytes : c.heap.bytes = h.bytes
  self : c.self.map (Option.map UserPage.blur) = ps.map (Option.map UserPage.blur)
  own : ∀ R, Own h ((ps.filterMap id).map UserPage.page ++ R) →
    Own c.heap ((c.self.filterMap id).map UserPage.page ++ (c.loose.map UserPage.page ++ R))
  loose : ∀ u ∈ c.loose, u ∈ c.self.filterMap id
  ok : c.result = .ok () → c.copy = c.self ∧ c.loose = c.self.filterMap id

lemma cloneSlots_spec (A : Allocator) (ps : List (Option UserPage)) (h : Heap) :
    SlotsCloned ps h (cloneSlots A ps h) := by
  induction ps generalizing h with
  | nil => exact ⟨rfl, rfl, fun R o => o, by simp [cloneSlots], fun _ => ⟨rfl, rfl⟩⟩
  | cons p ps ih =>
    cases p with
    | none =>
      have ih := ih h
      exact ⟨ih.bytes, congrArg (none :: ·) ih.self, ih.own, ih.loose,
        fun hr => ⟨congrArg (none :: ·) (ih.ok hr).1, (ih.ok hr).2⟩⟩
    | some u =>
      unfold cloneSlots
      split
      · rename_i e h1 hc
        obtain rfl := KernelPage.clone_eq_error hc
        exact ⟨rfl, rfl, fun R o => o.same (sameHeap_tick h), by simp, nofun⟩
      rename_i k h1 hc
      obtain ⟨hcont, hbytes, hlive⟩ := KernelPage.clone_eq_ok hc
      have ih := ih h1
      refine ⟨ih.bytes.trans hbytes, ?_, fun R o => ?_, ?_, fun hr => ?_⟩
      · simp [ih.self, UserPage.blur, hcont]
      · -- one pointer more to the frame of `u`, then the other slots
        have o1 : Own h1 (k :: k :: ((ps.filterMap id).map UserPage.page ++ R)) := o.clone hc
        have o2 := ih.own (k :: k :: R) (o1.perm (by
          refine List.Perm.trans ?_ perm_middle.symm
          exact List.Perm.cons _ perm_middle.symm))
        refine o2.perm ?_
        simp only [filterMap_cons, id_eq, map_cons, cons_append]
        refine (List.Perm.append_left _ (perm_middle.trans (.cons _ perm_middle))).trans ?_
        exact perm_middle
      · rw [forall_mem_cons]
        exact ⟨mem_cons_self .., fun v hv => mem_cons_of_mem _ (ih.loose v hv)⟩
      · obtain ⟨h1, h2⟩ := ih.ok hr
        exact ⟨congrArg _ h1, congrArg _ h2⟩

structure MappingsCloned (L : Mappings) (h : Heap) (c : Cloned Mappings) : Prop where
  bytes : c.heap.bytes = h.bytes
  self : blur c.self = blur L
  own : ∀ R, Own h ((resident L).map page ++ R) → Own c.heap ((resident c.self).map page ++
      ((resident c.copy).map page ++ (c.loose.map page ++ R)))
  copy : c.copy <+: c.self
  loose : ∀ u ∈ c.loose, u ∈ resident c.self
  ok : c.result = .ok () → c.copy = c.self ∧ c.loose = []

lemma cloneMappings_spec (A : Allocator) (L : Mappings) (h : Heap) : MappingsCloned L h (cloneMappings A L h) := by
  induction L generalizing h with
  | nil => exact ⟨rfl, rfl, fun R o => o, prefix_refl [], by simp [cloneMappings], fun _ => ⟨rfl, rfl⟩⟩
  | cons y L ih =>
    obtain ⟨k, m⟩ := y
    have hc := cloneSlots_spec A m.pages h
    have hblur : ({ m with pages := (cloneSlots A m.pages h).self } : Mapping).blur = m.blur := by
      simp [Mapping.blur, hc.self]
    unfold cloneMappings
    simp only
    split
    · refine ⟨hc.bytes, by rw [blur_cons, hblur, blur_cons], fun R o => ?_, nil_prefix, ?_, nofun⟩
      · rw [resident_cons, map_append, append_assoc] at o ⊢
        refine (hc.own _ o).perm ?_
        refine List.Perm.append_left _ ?_
        exact perm_append_comm_assoc ..
      · intro u hu
        rw [resident_cons]
        exact mem_append_left _ (hc.loose u hu)
    rename_i hok
    obtain ⟨hcopy, hloose⟩ := hc.ok hok
    have ih := ih (cloneSlots A m.pages h).heap
    rw [hcopy]
    refine ⟨ih.bytes.trans hc.bytes, by rw [blur_cons, hblur, ih.self, blur_cons], fun R o => ?_,
      prefix_cons_inj _ |>.2 ih.copy, ?_, fun hr => ?_⟩
    · rw [resident_cons, map_append, append_assoc] at o
      have o1 := hc.own _ o
      rw [hloose] at o1
      generalize hS : ((cloneSlots A m.pages h).self.filterMap id).map UserPage.page = S at o1
      have o2 := ih.own (S ++ (S ++ R)) (o1.perm (by
        rw [perm_iff_count]
        intro a
        simp only [count_append]
        omega))
      refine o2.perm ?_
      rw [perm_iff_count]
      intro a
      simp only [resident_cons, Mapping.resident, map_append, count_append, hS]
      omega
    · intro u hu
      rw [resident_cons]
      exact mem_append_right _ (ih.loose u hu)
    · obtain ⟨h1, h2⟩ := ih.ok hr
      exact ⟨congrArg _ h1, h2⟩

/-! ## `drop` -/

lemma spaceOk_new : SpaceOk .new := by
  refine ⟨List.Pairwise.nil, ?_, ?_, ?_⟩
  · nofun
  · nofun
  · nofun

lemma drop_step {touched : Nat → Prop} {g : Kernel} (hok : SpaceOk s)
    (h : s.drop g = some g') (htouch : ∀ p, touched p) : SpaceStep touched g s g' .new := by
  unfold Space.drop at h
  split at h
  · cases h
  rename_i r g1 s1 hvm
  cases h
  obtain ⟨eff, -, hstep⟩ := vm_step hok hvm
  refine ⟨fun R o => ?_, hstep.distinct, fun _ => spaceOk_new, fun R o u hu hi => ?_,
    fun R o p x hp => absurd (htouch p) hp,
    nofun⟩
  · have o1 := hstep.own R o
    exact Own.dropAll (o1.perm (perm_append_comm_assoc ..))
  obtain ⟨hi1, hb1⟩ := hstep.others R o u hu hi
  refine ⟨hi1.mono rfl fun v hv => ⟨v, mem_append_right _ hv, rfl, rfl⟩, ?_⟩
  rw [dropAll_bytes]; exact hb1

lemma SpaceOk.of_blur {s' : Space} (hok : SpaceOk s) (hb : blur s'.state.mappings = blur s.state.mappings)
    (hc : Coherent s'.state.mappings s'.pagetables) : SpaceOk s' :=
  ⟨sorted_of_shape (shape_of_blur hb) hok.sorted, nonempty_of_shape (shape_of_blur hb) hok.nonempty,
    tidy_of_blur hb hok.tidy, hc⟩

/-- Frozen entries stay right when only reference counts change. -/
lemma Coherent.freeze_blur {pt : Pagetables} (h : Coherent L pt)
    (hb : blur L' = blur L) : Coherent L' (freezeUserspace pt) := by
  intro p e he
  obtain ⟨e0, he0, rfl⟩ := Option.map_eq_some_iff.1 he
  obtain ⟨hp, x, u, hx, hu, hfor⟩ := h p e0 he0
  obtain ⟨x', hx', hxx⟩ := resolve_of_blur hb hx
  have hpage : x'.page.map UserPage.blur = x.page.map UserPage.blur := congrArg Slot.page hxx
  rw [hu] at hpage
  obtain ⟨u', hu', huu⟩ := Option.map_eq_some_iff.1 hpage
  obtain ⟨hcont, hperms, -⟩ := UserPage.blur_inj huu
  refine ⟨hp, x', u', hx', hu', hfor.frame.trans hcont.symm, fun hex => ?_, nofun⟩
  rw [hperms]
  exact hfor.executable hex

def kids : Except Errno Space → List UserPage
  | .ok this => resident this.state.mappings
  | .error _ => []

structure CloneStep (g : Kernel) (s : Space) (r : Except Errno Space) (g' : Kernel) (s' : Space) : Prop where
  own : ∀ R : List UserPage, Own g.heap (g.pages ++ (s.handles ++ R.map page)) →
    Own g'.heap (g'.pages ++ (s'.handles ++ ((kids r).map page ++ R.map page)))
  distinct : ∀ R, Own g.heap (g.pages ++ (s.handles ++ R)) → Distinct g.pages → Distinct g'.pages
  frames : ∀ R : List UserPage, Own g.heap (g.pages ++ (s.handles ++ R.map page)) →
    ∀ u ∈ resident s'.state.mappings ++ R, Iso g (resident s.state.mappings ++ R) u.page.content →
      Iso g' (resident s'.state.mappings ++ (kids r ++ R)) u.page.content ∧
        g'.heap.bytes u.page.content = g.heap.bytes u.page.content
  self : blur s'.state.mappings = blur s.state.mappings
  ok : SpaceOk s'
  child : ∀ this, r = .ok this → this.state.mappings = s'.state.mappings ∧ SpaceOk this ∧
    g'.heap.bytes = g.heap.bytes ∧ g'.files = g.files ∧ g'.trampoline = g.trampoline

lemma mem_resident_of_prefix (h : L' <+: L) (hu : u ∈ resident L') : u ∈ resident L := by
  obtain ⟨B, rfl⟩ := h
  rw [resident_append]
  exact mem_append_left _ hu

lemma clone_step {A : Allocator} {g : Kernel} {s' : Space} {r : Except Errno Space}
    (hok : SpaceOk s) (h : s.clone A g = some (r, g', s')) : CloneStep g s r g' s' := by
  have hspec := cloneMappings_spec A s.state.mappings g.heap
  unfold Space.clone at h
  simp only at h
  generalize hc : cloneMappings A s.state.mappings g.heap = c at h hspec
  have hblur := hspec.self
  have hok' : SpaceOk ⟨⟨c.self, s.state.brkEnd⟩, freezeUserspace s.pagetables, s.usage⟩ :=
    hok.of_blur hblur (hok.coherent.freeze_blur hblur)
  have hown : ∀ R, Own g.heap (g.pages ++ (s.handles ++ R)) →
      Own c.heap (c.loose.map page ++ (g.pages ++ ((resident c.self).map page ++
        ((resident c.copy).map page ++ R)))) := by
    intro R o
    have o1 := hspec.own (g.pages ++ R) (o.perm (perm_append_comm_assoc ..))
    refine o1.perm ?_
    rw [perm_iff_count]
    intro a
    simp only [count_append]
    omega
  -- the pages of the clone point where those of the original pointed
  have hfrom : ∀ {us : List UserPage}, (∀ u ∈ us, u ∈ resident c.self) → ∀ R : List UserPage,
      ∀ u ∈ us ++ R, ∃ v ∈ resident s.state.mappings ++ R, v.page.content = u.page.content ∧ v.shared = u.shared := by
    intro us hus R u hu
    rcases mem_append.1 hu with hu | hu
    · obtain ⟨v, hv, hvu⟩ := mem_resident_of_blur hblur (hus u hu)
      obtain ⟨hcont, -, hshared⟩ := blur_inj hvu
      exact ⟨v, mem_append_left _ hv, hcont, hshared⟩
    · exact ⟨u, mem_append_right _ hu, rfl, rfl⟩
  have hall : ∀ {us : List UserPage}, (∀ u ∈ us, u ∈ resident c.self) → ∀ {R : List UserPage} {f : Nat}
      {h' : Heap}, Iso g (resident s.state.mappings ++ R) f → Iso { g with heap := h' } (us ++ R) f :=
    fun hus _ _ _ hi => hi.mono rfl (hfrom hus _)
  split at h
  · rename_i hres
    cases h
    obtain ⟨hcopy, hloose⟩ := hspec.ok hres
    rw [hloose] at hown
    refine ⟨fun R o => hown _ o, fun _ _ hd => hd, fun R o u hu hi => ⟨?_, by rw [hspec.bytes]⟩, hblur, hok', ?_⟩
    · rw [← append_assoc]
      refine hall (fun v hv => ?_) hi
      rcases mem_append.1 hv with hv | hv
      · exact hv
      · exact mem_resident_of_prefix hspec.copy hv
    · intro this hthis
      cases hthis
      refine ⟨hcopy, hok'.of_blur (congrArg blur hcopy) ?_, hspec.bytes, rfl, rfl⟩
      simp [Coherent]
  rename_i e hres
  split at h
  · cases h
  rename_i g1 hdrop
  cases h
  have hcopyok : SpaceOk ⟨⟨c.copy, s.state.brkEnd⟩, fun _ => none, s.usage.fork⟩ := by
    obtain ⟨B, hB⟩ := hspec.copy
    have hmem : ∀ y ∈ c.copy, y ∈ c.self := fun y hy => hB ▸ mem_append_left _ hy
    refine ⟨?_, fun y hy => hok'.nonempty y (hmem y hy), fun y hy => hok'.tidy y (hmem y hy), ?_⟩
    · have hs := hok'.sorted
      simp only at hs ⊢
      rw [← hB] at hs
      exact (sorted_append.1 hs).1
    · simp [Coherent]
  have hstep : SpaceStep (fun _ => True) _ _ g' .new := drop_step hcopyok hdrop fun _ => trivial
  -- what is left when the pages in work are dropped
  have hdropped : ∀ R, Own g.heap (g.pages ++ (s.handles ++ R)) → Own (dropAll c.heap (c.loose.map page)) (g.pages ++
        ((resident c.copy).map page ++ ((resident c.self).map page ++ R))) :=
    fun R o => ((hown R o).dropAll).perm
      (List.Perm.append_left _ (perm_append_comm_assoc ..))
  refine ⟨fun R o => hstep.own _ (hdropped _ o), fun R o => hstep.distinct _ (hdropped R o),
    fun R o u hu hi => ?_, hblur, hok',
    by simp⟩
  have hiso : Iso { g with heap := dropAll c.heap (c.loose.map page) }
      (resident c.copy ++ (resident c.self ++ R)) u.page.content := by
    rw [← append_assoc]
    refine hall (fun v hv => ?_) hi
    rcases mem_append.1 hv with hv | hv
    · exact mem_resident_of_prefix hspec.copy hv
    · exact hv
  obtain ⟨hi', hb'⟩ := hstep.others (resident c.self ++ R)
    (by have := hdropped _ o; rwa [map_append]) u hu hiso
  refine ⟨hi', hb'.trans ?_⟩
  rw [dropAll_bytes, hspec.bytes]

end Mushroom.L2
