import Mushroom.L2Memory.Space

/-!
# Page faults

`SpaceOk` is the invariant of an address space: its map is in order, a resident
page has the permissions of its mapping, and every present entry of the page
tables is the entry of the page resident there, or a weaker one (`Coherent`). A
fault keeps it and the bookkeeping of the heap, and touches no frame of anybody
else (`mapPage_step`).
-/
namespace Mushroom.L2
open List Option OrdMap UserPage Mapping

/-! ## Filling a slot -/

lemma Mapping.setPage_len (m : Mapping) (i : Nat) (u : UserPage) : (m.setPage i u).len = m.len := by simp [setPage, len]

lemma Mapping.setPage_slot (m : Mapping) (i j : Nat) (u : UserPage) : (m.setPage i u).slot j =
      if j = i then (m.slot j).map ({ · with page := some u }) else m.slot j := by
  simp only [slot, setPage, List.getElem?_set]
  by_cases hj : j = i
  · subst hj
    by_cases hlt : j < m.pages.length <;> simp [hlt]
  · simp [hj, Ne.symm hj]

variable {x : Slot} {L : Mappings}

lemma Mapping.setPage_resident {m : Mapping} {i : Nat} (u : UserPage) (hx : m.slot i = some x) :
    ∃ R, m.resident.Perm (x.page.toList ++ R) ∧ (m.setPage i u).resident.Perm (u :: R) := by
  obtain ⟨q, hq, rfl⟩ := map_eq_some_iff.1 hx
  obtain ⟨hi, rfl⟩ := List.getElem?_eq_some_iff.1 hq
  refine ⟨(m.pages.eraseIdx i).filterMap id, ?_, ?_⟩
  · have h := (getElem_cons_eraseIdx_perm hi).symm.filterMap id
    refine h.trans ?_
    cases m.pages[i] <;> simp
  · have h := (set_perm_cons_eraseIdx hi (some u)).filterMap id
    exact h.trans (by simp)

lemma setSlot_split {page : Nat} (hs : Sorted L) (hx : resolve L page = some x) (u : UserPage) :
    ∃ a k m b, L = a ++ (k, m) :: b ∧ k ≤ page ∧ (∀ y ∈ b, page < y.1) ∧
      m.slot (page - k) = some x ∧ setSlot L page u = a ++ (k, m.setPage (page - k) u) :: b := by
  obtain ⟨⟨k, m⟩, hg, hslot⟩ := bind_eq_some_iff.1 hx
  obtain ⟨hmem, hk⟩ := getLE_mem hg
  obtain ⟨a, b, rfl, hb⟩ := getLE_split hs hg
  refine ⟨a, k, m, b, rfl, hk, hb, hslot, ?_⟩
  obtain ⟨hsa, hsb, hab⟩ := sorted_append.1 hs
  have ha : ∀ y ∈ a, y.1 ≠ k := fun y hy => (hab y hy (k, m) (mem_cons_self ..)).ne
  have hb' : ∀ y ∈ b, y.1 ≠ k := fun y hy => ((sorted_cons.1 hsb).1 y hy).ne'
  have hid : ∀ l : Mappings, (∀ y ∈ l, y.1 ≠ k) →
      (l.map fun y => if y.1 = k then (k, y.2.setPage (page - k) u) else y) = l := fun l hl => by
    exact (map_congr_left fun y hy => if_neg (hl y hy)).trans (map_id' l)
  simp only [setSlot, hg, map_append, map_cons, if_true]
  rw [hid a ha, hid b hb']

section

variable {L : Mappings} {page : Nat} {x : Slot} (hs : Sorted L) (hx : resolve L page = some x)
  (u : UserPage)
include hs hx

lemma resolve_setSlot (p : Nat) :
    resolve (setSlot L page u) p = if p = page then some { x with page := some u } else resolve L p := by
  obtain ⟨a, k, m, b, rfl, hk, hb, hslot, heq⟩ := setSlot_split hs hx u
  rw [heq, resolve_append, resolve_append, getLE_cons_isSome, getLE_cons_isSome, resolve_cons,
    resolve_cons, setPage_slot]
  by_cases hp : p = page
  · subst hp
    rw [getLE_eq_none.2 hb]
    simp [hk, hslot]
  have hne : k ≤ p → ¬ p - k = page - k := fun h => by omega
  by_cases hkp : k ≤ p
  · simp [hp, hne hkp, hkp]
  · simp [hp, hkp]

lemma resolve_setSlot_self : resolve (setSlot L page u) page = some { x with page := some u } := by
  rw [resolve_setSlot hs hx, if_pos rfl]

lemma setSlot_shape : shape (setSlot L page u) = shape L := by
  obtain ⟨a, k, m, b, rfl, -, -, -, heq⟩ := setSlot_split hs hx u
  rw [heq]
  simp [shape, setPage_len]

lemma setSlot_resident : ∃ R, (resident L).Perm (x.page.toList ++ R) ∧ (resident (setSlot L page u)).Perm (u :: R) := by
  obtain ⟨a, k, m, b, rfl, -, -, hslot, heq⟩ := setSlot_split hs hx u
  obtain ⟨R, h1, h2⟩ := setPage_resident u hslot
  refine ⟨resident a ++ (R ++ resident b), ?_, ?_⟩
  · rw [resident_append, resident_cons]
    refine ((h1.append_right _).append_left _).trans ?_
    rw [append_assoc]
    exact perm_append_comm_assoc ..
  · rw [heq, resident_append, resident_cons]
    refine ((h2.append_right _).append_left _).trans ?_
    exact perm_middle

lemma setSlot_tidy (ht : ∀ y ∈ L, y.2.Tidy) (hu : u.perms = x.permissions ∧ u.shared = x.shared) :
    ∀ y ∈ setSlot L page u, y.2.Tidy := by
  obtain ⟨a, k, m, b, rfl, -, -, hslot, heq⟩ := setSlot_split hs hx u
  rw [heq]
  intro y hy
  simp only [mem_append, mem_cons] at hy
  rcases hy with hy | rfl | hy
  · exact ht y (by simp [hy])
  · intro v hv
    obtain ⟨R, h1, h2⟩ := setPage_resident u hslot
    obtain ⟨q, -, rfl⟩ := map_eq_some_iff.1 hslot
    rcases mem_cons.1 (h2.mem_iff.1 hv) with rfl | hv
    · exact hu
    · exact ht (k, m) (by simp) v (h1.mem_iff.2 (mem_append_right _ hv))
  · exact ht y (by simp [hy])

end

variable {u : UserPage} {p f : Nat}

lemma mem_resident {y : Nat × Mapping} (hy : y ∈ L) (hu : u ∈ y.2.resident) : u ∈ resident L :=
  mem_flatMap.2 ⟨y.2, mem_map_of_mem hy, hu⟩

lemma resolve_mapping (hx : resolve L p = some x) :
    ∃ y ∈ L, y.1 ≤ p ∧ p < y.1 + y.2.len ∧ x.backing = y.2.backing ∧ x.shared = y.2.shared ∧
      x.permissions = y.2.permissions ∧ ∀ u, x.page = some u → u ∈ y.2.resident := by
  obtain ⟨⟨k, m⟩, hg, hslot⟩ := bind_eq_some_iff.1 hx
  obtain ⟨q, hq, rfl⟩ := map_eq_some_iff.1 hslot
  obtain ⟨hmem, hk⟩ := getLE_mem hg
  obtain ⟨hlt, -⟩ := List.getElem?_eq_some_iff.1 hq
  simp only at hk hlt
  refine ⟨(k, m), hmem, hk, ?_, rfl, rfl, rfl, fun u hu => ?_⟩
  · simp only [len]; omega
  subst hu
  exact mem_filterMap.2 ⟨some u, mem_of_getElem? hq, rfl⟩

lemma mem_resident_of_resolve (hx : resolve L p = some x) (hu : x.page = some u) : u ∈ resident L := by
  obtain ⟨y, hy, -, -, -, -, -, hpage⟩ := resolve_mapping hx
  exact mem_resident hy (hpage u hu)

/-! ## What the address spaces share -/

def Kernel.pages (g : Kernel) : List KernelPage := g.trampoline :: g.files.flatMap Buffer.pages

abbrev KernelStep (g g' : Kernel) (out : List KernelPage) : Prop := BufStep g.heap g.pages g'.heap g'.pages out

variable {out R : List KernelPage} {g g' : Kernel}

lemma KernelStep.distinct_pages (hk : KernelStep g g' out)
    (o : Own g.heap (g.pages ++ R)) (hd : Distinct g.pages) : Distinct g'.pages := by
  have := hk.distinct [] R o (by rw [append_nil]; exact hd)
  rwa [append_nil] at this

lemma files_set_perm {files : List Buffer} {b : Buffer} (hf : files[f]? = some b) (b' : Buffer) :
    ∃ R, (files.flatMap Buffer.pages).Perm (b.pages ++ R) ∧
      ((files.set f b').flatMap Buffer.pages).Perm (b'.pages ++ R) := by
  obtain ⟨hi, rfl⟩ := List.getElem?_eq_some_iff.1 hf
  refine ⟨(files.eraseIdx f).flatMap Buffer.pages, ?_, ?_⟩
  · exact ((getElem_cons_eraseIdx_perm hi).symm.flatMap_right _).trans (by simp)
  · exact ((set_perm_cons_eraseIdx hi b').flatMap_right _).trans (by simp)

lemma KernelStep.file {g : Kernel} {b b' : Buffer} {h' : Heap} (hf : g.files[f]? = some b)
    (s : BufStep g.heap b.pages h' b'.pages out) : KernelStep g (g.setFile f b' h') out := by
  obtain ⟨R, h1, h2⟩ := files_set_perm hf b'
  exact ((s.append_right R).perm h1 h2.symm).cons g.trampoline

lemma getInitialPage_step {A : Allocator} {backing : Backing} {offset : Nat}
    {r : Except Errno KernelPage} (h : getInitialPage A g backing offset = some (r, g')) :
    KernelStep g g' (handedOut r) := by
  cases backing with
  | zero =>
    cases h
    exact BufStep.zeroPage
  | trampoline =>
    simp only [getInitialPage] at h
    split at h
    · cases h
    split at h
    · rename_i hc
      cases h
      exact .of_same (KernelPage.clone_eq_error hc ▸ sameHeap_tick g.heap)
    · rename_i hc
      cases h
      exact (BufStep.clone hc).append_right _
  | file f zeroOffset shared zeroPad =>
    simp only [getInitialPage] at h
    split at h
    · cases zeroPad <;> cases h
      · exact .refl
      · exact BufStep.zeroPage
    split at h
    · cases h
    rename_i b hf
    split at h
    · rename_i hg
      cases h
      exact .file hf (Buffer.getPage_step hg)
    rename_i k b' h1 hg
    have hpage := Buffer.getPage_step hg
    split at h
    · split at h
      · rename_i hz
        cases h
        refine .file hf (hpage.out ?_)
        rw [KernelPage.zeroRange_eq_error hz]
        have hdrop : BufStep _ ([] ++ [k]) (k.drop { h1 with clock := h1.clock + 1 }) [] [] := .drop
        exact (BufStep.of_same (sameHeap_tick _)).trans hdrop
      · rename_i hz
        cases h
        exact .file hf (hpage.out (.zeroRange hz))
    · cases h
      exact .file hf hpage

/-! ## The invariant of an address space -/

/-- The entry `e` is the one of the page `u`, or a weaker one. -/
structure Pte.For (e : Pte) (u : UserPage) : Prop where
  frame : e.frame = u.page.content
  executable : e.executable = true → u.perms.execute = true
  writable : e.writable = true → u.perms.write = true ∧ u.page.mutable u.shared = true

lemma UserPage.entry_for (u : UserPage) : u.entry.For u := ⟨rfl, fun h => h, fun h => by simpa [entry] using h⟩

/-- A present entry belongs to a page in the lower half that is mapped and
resident. -/
def Coherent (L : Mappings) (pt : Pagetables) : Prop :=
  ∀ p e, pt p = some e → p < userPages ∧ ∃ x u, resolve L p = some x ∧ x.page = some u ∧ e.For u

structure SpaceOk (s : Space) : Prop where
  sorted : Sorted s.state.mappings
  nonempty : Nonempty s.state.mappings
  tidy : ∀ y ∈ s.state.mappings, y.2.Tidy
  coherent : Coherent s.state.mappings s.pagetables

def Space.handles (s : Space) : List KernelPage := (resident s.state.mappings).map page

variable {s : Space} {pt : Pagetables}

lemma SpaceOk.tidy_slot (hok : SpaceOk s) (hx : resolve s.state.mappings p = some x)
    (hu : x.page = some u) : u.perms = x.permissions ∧ u.shared = x.shared := by
  obtain ⟨y, hy, -, -, -, hs, hp, hpage⟩ := resolve_mapping hx
  rw [hs, hp]
  exact hok.tidy y hy u (hpage u hu)

/-- The slot of `page` is filled with `u`, while no entry for it is present. -/
lemma SpaceOk.setSlot (hok : SpaceOk s) {page : Nat}
    (hx : resolve s.state.mappings page = some x) (hu : u.perms = x.permissions ∧ u.shared = x.shared)
    (hpt : s.pagetables page = none) : SpaceOk (s.setSlot page u) := by
  have hshape := setSlot_shape hok.sorted hx u
  refine ⟨sorted_of_shape hshape hok.sorted, nonempty_of_shape hshape hok.nonempty,
    setSlot_tidy hok.sorted hx u hok.tidy hu, ?_⟩
  intro p e he
  have hp : p ≠ page := by
    rintro rfl
    rw [show (s.setSlot p u).pagetables p = s.pagetables p from rfl, hpt] at he
    cases he
  obtain ⟨hlow, y, v, hy, hv, hfor⟩ := hok.coherent p e he
  refine ⟨hlow, y, v, ?_, hv, hfor⟩
  show resolve (L2.setSlot s.state.mappings page u) p = _
  rw [resolve_setSlot hok.sorted hx, if_neg hp]
  exact hy

lemma Coherent.tryUnmap (h : Coherent L pt) (a b : Nat) : Coherent L (tryUnmapUserPages pt a b) := by
  intro p e he
  unfold tryUnmapUserPages at he
  split at he
  · cases he
  · exact h p e he

/-- Nothing is present for a page that is not resident. -/
lemma Coherent.absent (h : Coherent L pt) (hx : resolve L p = some x) (hnone : x.page = none) : pt p = none := by
  cases he : pt p with
  | none => rfl
  | some e =>
    obtain ⟨-, y, u, hy, hu, -⟩ := h p e he
    rw [hx] at hy
    cases hy
    rw [hnone] at hu
    cases hu

/-! ## Isolation -/

/-- Only pages of non-shared mappings point to `f` and are writable; `us` are the resident pages of all spaces. -/
def Iso (g : Kernel) (us : List UserPage) (f : Nat) : Prop :=
  f = Heap.zeroFrame ∨ ((∀ k ∈ g.pages, k.content ≠ f) ∧ ∀ u ∈ us, u.page.content = f → u.shared = false)

variable {us' us : List UserPage}

/-- Only what the kernel's pages and the resident pages point to matters. -/
lemma Iso.mono (hpages : g'.pages = g.pages)
    (hus : ∀ u ∈ us', ∃ v ∈ us, v.page.content = u.page.content ∧ v.shared = u.shared) (h : Iso g us f) :
    Iso g' us' f := by
  refine h.imp id fun ⟨hk, hshared⟩ => ⟨by rw [hpages]; exact hk, fun u hu hc => ?_⟩
  obtain ⟨v, hv, hvc, hvs⟩ := hus u hu
  rw [← hvs]
  exact hshared v hv (hvc.trans hc)

/-- A page of a non-shared mapping that has a frame of its own kind, or will begin as zeros. -/
structure Slot.Isolated (g : Kernel) (us : List UserPage) (x : Slot) : Prop where
  shared : x.shared = false
  zero : x.page = none → x.backing = .zero
  frame : ∀ u, x.page = some u → Iso g us u.page.content

def Slot.bytes (g : Kernel) (x : Slot) : Nat → UInt8 :=
  match x.page with
  | some u => g.heap.bytes u.page.content
  | none => fun _ => 0

def AnonIsolated (g : Kernel) (us : List UserPage) (L : Mappings) : Prop :=
  ∀ y ∈ L, y.2.backing = .zero → y.2.shared = false → ∀ u ∈ y.2.resident, Iso g us u.page.content

/-- A step of one address space that maps `touched` anew; `R` are the resident pages of the others. -/
structure SpaceStep (touched : Nat → Prop) (g : Kernel) (s : Space) (g' : Kernel) (s' : Space) : Prop where
  own : ∀ R, Own g.heap (g.pages ++ (s.handles ++ R)) → Own g'.heap (g'.pages ++ (s'.handles ++ R))
  distinct : ∀ R, Own g.heap (g.pages ++ (s.handles ++ R)) → Distinct g.pages → Distinct g'.pages
  ok : SpaceOk s → SpaceOk s'
  others : ∀ R : List UserPage, Own g.heap (g.pages ++ (s.handles ++ R.map page)) →
    ∀ u ∈ R, Iso g (resident s.state.mappings ++ R) u.page.content →
      Iso g' (resident s'.state.mappings ++ R) u.page.content ∧
        g'.heap.bytes u.page.content = g.heap.bytes u.page.content
  isolated : ∀ R : List UserPage, Own g.heap (g.pages ++ (s.handles ++ R.map page)) →
    ∀ p x, ¬ touched p → resolve s.state.mappings p = some x → x.Isolated g (resident s.state.mappings ++ R) →
        ∃ x', resolve s'.state.mappings p = some x' ∧
          x'.Isolated g' (resident s'.state.mappings ++ R) ∧ x'.bytes g' = x.bytes g
  anon : ∀ R : List UserPage, Own g.heap (g.pages ++ (s.handles ++ R.map page)) →
    AnonIsolated g (resident s.state.mappings ++ R) s.state.mappings →
      AnonIsolated g' (resident s'.state.mappings ++ R) s'.state.mappings

variable {touched : Nat → Prop}

lemma SpaceStep.refl : SpaceStep touched g s g s :=
  ⟨fun _ o => o, fun _ _ hd => hd, fun h => h, fun _ _ _ _ h => ⟨h, rfl⟩,
    fun _ _ _ x _ hx hi => ⟨x, hx, hi, rfl⟩, fun _ _ h => h⟩

lemma SpaceStep.trans {g1 g2 : Kernel} {s1 s2 : Space}
    (h1 : SpaceStep touched g s g1 s1) (h2 : SpaceStep touched g1 s1 g2 s2) : SpaceStep touched g s g2 s2 := by
  refine ⟨fun R o => h2.own R (h1.own R o),
    fun R o hd => h2.distinct R (h1.own R o) (h1.distinct R o hd), fun h => h2.ok (h1.ok h), ?_, ?_, ?_⟩
  · intro R o u hu hi
    obtain ⟨hi1, hb1⟩ := h1.others R o u hu hi
    obtain ⟨hi2, hb2⟩ := h2.others R (h1.own _ o) u hu hi1
    exact ⟨hi2, hb2.trans hb1⟩
  · intro R o p x ht hx hi
    obtain ⟨x1, hx1, hi1, hb1⟩ := h1.isolated R o p x ht hx hi
    obtain ⟨x2, hx2, hi2, hb2⟩ := h2.isolated R (h1.own _ o) p x1 ht hx1 hi1
    exact ⟨x2, hx2, hi2, hb2.trans hb1⟩
  · intro R o h
    exact h2.anon R (h1.own _ o) (h1.anon R o h)

/-- A page of the same mapping, over the same frame. -/
structure Slot.Like (x x' : Slot) : Prop where
  backing : x'.backing = x.backing
  shared : x'.shared = x.shared
  frame : x'.page.map (·.page.content) = x.page.map (·.page.content)

lemma Slot.Like.refl (x : Slot) : x.Like x := ⟨rfl, rfl, rfl⟩

/-- A page stays isolated if its frame does. -/
lemma Slot.Isolated.like {x' : Slot} (hlike : x.Like x')
    (hkeep : ∀ u, x.page = some u → Iso g us u.page.content → Iso g' us' u.page.content ∧
      g'.heap.bytes u.page.content = g.heap.bytes u.page.content)
    (hi : x.Isolated g us) : x'.Isolated g' us' ∧ x'.bytes g' = x.bytes g := by
  obtain ⟨hb, hs, hf⟩ := hlike
  unfold Slot.bytes
  cases hx : x.page with
  | none =>
    have hx' : x'.page = none := by simpa [hx] using hf
    refine ⟨⟨hs.trans hi.shared, fun _ => hb.trans (hi.zero hx), fun u hu => ?_⟩, ?_⟩
    · rw [hx'] at hu; cases hu
    · rw [hx']
  | some u =>
    obtain ⟨u', hu', hc⟩ : ∃ u', x'.page = some u' ∧ u'.page.content = u.page.content := by simpa [hx] using hf
    obtain ⟨hiso, hbytes⟩ := hkeep u hx (hi.frame u hx)
    refine ⟨⟨hs.trans hi.shared, fun h => ?_, fun v hv => ?_⟩, ?_⟩
    · rw [hu'] at h; cases h
    · rw [hu'] at hv
      cases hv
      rw [hc]; exact hiso
    · simp only [hu', hc]
      exact hbytes

lemma AnonIsolated.slot (h : AnonIsolated g us L)
    (hx : resolve L p = some x) (hb : x.backing = .zero) (hs : x.shared = false) : x.Isolated g us := by
  obtain ⟨y, hy, -, -, hb', hs', -, hpage⟩ := resolve_mapping hx
  exact ⟨hs, fun _ => hb, fun u hu => h y hy (hb' ▸ hb) (hs' ▸ hs) u (hpage u hu)⟩

/-! ## `map_page` -/

section

variable {A : Allocator} {g g' : Kernel} {s s' : Space} {touched : Nat → Prop} {page : Nat} {x : Slot}
  {k : KernelPage} {r : Except Errno UserPage} {required : RequiredFlags} {tables : Bool}

/-- Isolated frames are not concerned by what the kernel does with its pages. -/
lemma Iso.kernel {H H' : List KernelPage} (hk : KernelStep g g' out) (o : Own g.heap H) (o' : Own g'.heap H')
    (hl : g.heap.live f) (hus : ∀ u ∈ us', u.page ∈ out ∨ u ∈ us) (hi : Iso g us f) :
    Iso g' us' f ∧ g'.heap.bytes f = g.heap.bytes f := by
  by_cases h0 : f = Heap.zeroFrame
  · subst h0
    exact ⟨.inl rfl, o'.zero.trans o.zero.symm⟩
  obtain ⟨hpages, hshared⟩ := hi.resolve_left h0
  have hforeign := hk.foreign h0 hl hpages
  refine ⟨.inr ⟨fun k hk' => hforeign k (mem_append_right _ hk'), fun u hu hc => ?_⟩, (hk.bytes f h0 hl hpages).2⟩
  rcases hus u hu with hout | hu
  · exact absurd hc (hforeign u.page (mem_append_left _ hout))
  · exact hshared u hu hc

lemma live_of_resident {R : List UserPage} (o : Own g.heap (g.pages ++ (s.handles ++ R.map (·.page))))
    (hu : u ∈ resident s.state.mappings ++ R) : g.heap.live u.page.content := by
  refine o.live (mem_append_right _ ?_)
  unfold Space.handles
  rw [← map_append]
  exact mem_map_of_mem hu

lemma SpaceStep.kernel (hk : KernelStep g g' []) : SpaceStep touched g s g' s := by
  have hkeep : ∀ R : List UserPage, Own g.heap (g.pages ++ (s.handles ++ R.map page)) →
      ∀ u ∈ resident s.state.mappings ++ R, Iso g (resident s.state.mappings ++ R) u.page.content →
        Iso g' (resident s.state.mappings ++ R) u.page.content ∧
          g'.heap.bytes u.page.content = g.heap.bytes u.page.content := fun R o u hu hi =>
    hi.kernel hk o (hk.own _ o) (live_of_resident o hu) fun v hv => .inr hv
  refine ⟨fun R o => hk.own _ o, fun R o hd => KernelStep.distinct_pages hk o hd, fun h => h,
    fun R o u hu => hkeep R o u (mem_append_right _ hu), ?_, ?_⟩
  · intro R o p x _ hx hi
    exact ⟨x, hx, Slot.Isolated.like (.refl x) (fun u hu => hkeep R o u
      (mem_append_left _ (mem_resident_of_resolve hx hu))) hi⟩
  · intro R o hanon y hy hb hs u hu
    exact (hkeep R o u (mem_append_left _ (mem_resident hy hu)) (hanon y hy hb hs u hu)).1

/-- The slot of `page` is filled with `u`, from what this does to the counted frames and to the slot. -/
lemma SpaceStep.slot (hs : Sorted s.state.mappings)
    (hx : resolve s.state.mappings page = some x) (hL : s'.state.mappings = L2.setSlot s.state.mappings page u)
    (own : ∀ R, Own g.heap (g.pages ++ (s.handles ++ R)) → Own g'.heap (g'.pages ++ (s'.handles ++ R)))
    (distinct : ∀ R, Own g.heap (g.pages ++ R) → Distinct g.pages → Distinct g'.pages) (ok : SpaceOk s → SpaceOk s')
    (keep : ∀ R : List UserPage, Own g.heap (g.pages ++ (s.handles ++ R.map UserPage.page)) →
      ∀ v ∈ resident s.state.mappings ++ R, Iso g (resident s.state.mappings ++ R) v.page.content →
        Iso g' (resident s'.state.mappings ++ R) v.page.content ∧
          g'.heap.bytes v.page.content = g.heap.bytes v.page.content)
    (self : ∀ R : List UserPage, Own g.heap (g.pages ++ (s.handles ++ R.map UserPage.page)) →
      x.Isolated g (resident s.state.mappings ++ R) →
        Iso g' (resident s'.state.mappings ++ R) u.page.content ∧ g'.heap.bytes u.page.content = x.bytes g) :
    SpaceStep touched g s g' s' := by
  have hres : ∀ p, resolve s'.state.mappings p =
      if p = page then some { x with page := some u } else resolve s.state.mappings p := by
    rw [hL]; exact resolve_setSlot hs hx u
  refine ⟨own, fun R o => distinct _ o, ok, fun R o v hv => keep R o v (mem_append_right _ hv), ?_, ?_⟩
  · intro R o p y _ hy hi
    rw [hres p]
    split
    · rename_i hp
      subst hp
      rw [hx] at hy
      cases hy
      obtain ⟨hiso, hbytes⟩ := self R o hi
      refine ⟨_, rfl, ⟨hi.shared, fun h => ?_, fun v hv => ?_⟩, hbytes⟩
      · cases h
      cases hv
      exact hiso
    · exact ⟨y, hy, Slot.Isolated.like (.refl y) (fun v hv => keep R o v
        (mem_append_left _ (mem_resident_of_resolve hy hv))) hi⟩
  intro R o hanon y hy hb hs' v hv
  obtain ⟨a, k, m, b, hLs, hk, -, hslot, heq⟩ := setSlot_split hs hx u
  rw [hL, heq] at hy
  have hold : ∀ z ∈ s.state.mappings, z.2.backing = .zero → z.2.shared = false →
      ∀ w ∈ z.2.resident, Iso g' (resident s'.state.mappings ++ R) w.page.content :=
    fun z hz hbz hsz w hw => (keep R o w (mem_append_left _ (mem_resident hz hw)) (hanon z hz hbz hsz w hw)).1
  have hmem : ∀ z, z ∈ a ∨ z = (k, m) ∨ z ∈ b → z ∈ s.state.mappings := fun z hz => by rw [hLs]; simpa using hz
  simp only [mem_append, mem_cons] at hy
  rcases hy with hy | rfl | hy
  · exact hold y (hmem y (.inl hy)) hb hs' v hv
  · obtain ⟨R0, h1, h2⟩ := setPage_resident u hslot
    rcases mem_cons.1 (h2.mem_iff.1 hv) with rfl | hv
    · exact (self R o (hanon.slot hx (by
        obtain ⟨q, -, rfl⟩ := map_eq_some_iff.1 hslot; exact hb) (by
        obtain ⟨q, -, rfl⟩ := map_eq_some_iff.1 hslot; exact hs'))).1
    · exact hold (k, m) (hmem _ (.inr (.inl rfl))) hb hs' v
        (h1.mem_iff.2 (mem_append_right _ hv))
  · exact hold y (hmem y (.inr (.inr hy))) hb hs' v hv

/-- An empty slot is filled with a page the kernel hands out. -/
lemma SpaceStep.fill (hok : SpaceOk s) (hx : resolve s.state.mappings page = some x)
    (hnone : x.page = none) (hk : KernelStep g g' [k]) (hzero : x.backing = .zero → k.content = Heap.zeroFrame)
    (hs' : SpaceOk (s.setSlot page ⟨k, x.permissions, x.shared⟩) → SpaceOk s')
    (hL : s'.state.mappings = L2.setSlot s.state.mappings page ⟨k, x.permissions, x.shared⟩) :
    SpaceStep touched g s g' s' := by
  obtain ⟨R0, hres, hres'⟩ := setSlot_resident hok.sorted hx ⟨k, x.permissions, x.shared⟩
  rw [hnone] at hres
  rw [← hL] at hres'
  have hres' : (resident s'.state.mappings).Perm
      (⟨k, x.permissions, x.shared⟩ :: resident s.state.mappings) :=
    hres'.trans (List.Perm.cons _ hres.symm)
  have hown : ∀ R, Own g.heap (g.pages ++ (s.handles ++ R)) → Own g'.heap (g'.pages ++ (s'.handles ++ R)) := by
    intro R o
    have hhandles : (k :: (s.handles ++ R)).Perm (s'.handles ++ R) :=
      (hres'.map UserPage.page).symm.append_right R
    exact (hk.own _ o).perm (perm_middle.symm.trans (hhandles.append_left _))
  refine .slot hok.sorted hx hL hown (fun R o hd => KernelStep.distinct_pages hk o hd)
    (fun h => hs' (h.setSlot hx ⟨rfl, rfl⟩ (h.coherent.absent hx hnone))) ?_ ?_
  · intro R o v hv hi
    refine hi.kernel hk o (hown _ o) (live_of_resident o hv) fun u hu => ?_
    rcases mem_append.1 hu with hu | hu
    · rcases mem_cons.1 (hres'.mem_iff.1 hu) with rfl | hu
      · exact .inl (mem_cons_self ..)
      · exact .inr (mem_append_left _ hu)
    · exact .inr (mem_append_right _ hu)
  · intro R o hi
    have h0 := hzero (hi.zero hnone)
    refine ⟨.inl h0, ?_⟩
    simp only [Slot.bytes, hnone, h0]
    exact (hown _ o).zero

lemma SpaceStep.of_state (hstate : s'.state = s.state) (hok : SpaceOk s → SpaceOk s') : SpaceStep touched g s g s' := by
  obtain ⟨state, pt, usage⟩ := s
  obtain ⟨state', pt', usage'⟩ := s'
  subst hstate
  have hrefl : SpaceStep touched g ⟨state', pt, usage⟩ g ⟨state', pt, usage⟩ := .refl
  exact ⟨hrefl.own, hrefl.distinct, hok, hrefl.others, hrefl.isolated, hrefl.anon⟩

/-- `make_mut` on a resident page with no entry present. -/
lemma SpaceStep.makeMut {h' : Heap} (hok : SpaceOk s)
    (hx : resolve s.state.mappings page = some x) (hu : x.page = some u) (hpt : s.pagetables page = none)
    (hm : u.page.makeMut A g.heap u.shared = (.ok k, h')) :
    SpaceStep touched g s { g with heap := h' } (s.setSlot page { u with page := k }) := by
  have htidy := hok.tidy_slot hx hu
  have hmoved := KernelPage.makeMut_moved hm
  obtain ⟨R0, hres, hres'⟩ := setSlot_resident hok.sorted hx { u with page := k }
  rw [hu] at hres
  set s' := s.setSlot page { u with page := k }
  have hmem : ∀ R : List UserPage, ∀ v ∈ resident s'.state.mappings ++ R,
      v = { u with page := k } ∨ v ∈ resident s.state.mappings ++ R := by
    intro R v hv
    rcases mem_append.1 hv with hv | hv
    · rcases mem_cons.1 (hres'.mem_iff.1 hv) with rfl | hv
      · exact .inl rfl
      · exact .inr (mem_append_left _ (hres.mem_iff.2 (mem_append_right _ hv)))
    · exact .inr (mem_append_right _ hv)
  have huR : ∀ R : List UserPage, u ∈ resident s.state.mappings ++ R := fun R =>
    mem_append_left _ (mem_resident_of_resolve hx hu)
  have hown : ∀ R, Own g.heap (g.pages ++ (s.handles ++ R)) → Own h' (g.pages ++ (s'.handles ++ R)) := by
    intro R o
    have hp1 : (s.handles ++ R).Perm (u.page :: (R0.map UserPage.page ++ R)) :=
      (hres.map UserPage.page).append_right R
    have hp2 : (s'.handles ++ R).Perm (k :: (R0.map UserPage.page ++ R)) := (hres'.map UserPage.page).append_right R
    have o1 := o.perm ((hp1.append_left g.pages).trans perm_middle)
    exact (o1.makeMut hm).1.perm (perm_middle.symm.trans (hp2.symm.append_left g.pages))
  have hkeep : ∀ R : List UserPage, Own g.heap (g.pages ++ (s.handles ++ R.map UserPage.page)) →
      ∀ v ∈ resident s.state.mappings ++ R, Iso g (resident s.state.mappings ++ R) v.page.content →
        Iso { g with heap := h' } (resident s'.state.mappings ++ R) v.page.content ∧
          h'.bytes v.page.content = g.heap.bytes v.page.content := by
    intro R o v hv hi
    have hlive := live_of_resident o hv
    refine ⟨hi.imp id fun ⟨hpages, hshared⟩ => ⟨hpages, fun w hw hc => ?_⟩, hmoved.others _ hlive⟩
    rcases hmem R w hw with rfl | hw
    · rcases hmoved.frame with hf | hf
      · exact hshared u (huR R) (hf.symm.trans hc)
      rw [hc, hlive] at hf
      cases hf
    · exact hshared w hw hc
  refine .slot hok.sorted hx rfl hown (fun _ _ hd => hd) (fun h => h.setSlot hx htidy hpt) hkeep ?_
  intro R o hi
  have hbytes : h'.bytes k.content = x.bytes g := by
    rw [hmoved.bytes]
    simp only [Slot.bytes, hu]
  refine ⟨?_, hbytes⟩
  rcases hmoved.frame with hf | hf
  · rw [hf]
    exact (hkeep R o u (huR R) (hi.frame u hu)).1
  -- a frame that was free is nobody else's
  have hne : ∀ f, g.heap.live f → f ≠ k.content := by
    rintro f hl rfl
    rw [hl] at hf
    cases hf
  refine .inr ⟨fun k' hk' => hne _ (o.live (mem_append_left _ hk')), fun w hw hc => ?_⟩
  rcases hmem R w hw with rfl | hw
  · exact htidy.2.trans hi.shared
  · exact absurd hc (hne _ (live_of_resident o hw))

lemma getInitialPage_zero {offset : Nat} (h : getInitialPage A g .zero offset = some (.ok k, g')) :
    k.content = Heap.zeroFrame := by
  cases h
  rfl

/-- `get_page` fills the slot if it is empty. -/
lemma populate_step (hok : SpaceOk s)
    (hx : resolve s.state.mappings page = some x) (h : populate A g s page x = some (r, g', s')) :
    SpaceStep touched g s g' s' ∧ ∀ u, r = .ok u →
      ∃ x', resolve s'.state.mappings page = some x' ∧ x'.page = some u := by
  unfold populate at h
  split at h
  · rename_i u hu
    cases h
    refine ⟨.refl, fun v hv => ?_⟩
    cases hv
    exact ⟨x, hx, hu⟩
  rename_i hnone
  split at h
  · cases h
  · rename_i g1 hg
    cases h
    exact ⟨.kernel (getInitialPage_step hg), nofun⟩
  rename_i k g1 hg
  cases h
  refine ⟨.fill hok hx hnone (getInitialPage_step hg) (fun hb => ?_) (fun hs => ?_) rfl, fun v hv => ?_⟩
  · rw [hb] at hg
    exact getInitialPage_zero hg
  · exact ⟨hs.sorted, hs.nonempty, hs.tidy, hs.coherent⟩
  · cases hv
    exact ⟨_, resolve_setSlot_self hok.sorted hx _, rfl⟩

lemma tryUnmap_self (h : Coherent L pt) (page : Nat) : tryUnmapUserPages pt page page page = none := by
  unfold tryUnmapUserPages
  split
  · rfl
  rename_i hp
  cases he : pt page with
  | none => rfl
  | some e =>
    have hlt := (h page e he).1
    unfold lastUserPage userPages at hp
    unfold userPages at hlt
    omega

lemma writable_step (hok : SpaceOk s)
    (hx : resolve s.state.mappings page = some x) (hu : x.page = some u) (h : writable A g s page u = (r, g', s')) :
    SpaceStep touched g s g' s' ∧ ∀ v, r = .ok v →
      ∃ x', resolve s'.state.mappings page = some x' ∧ x'.page = some v := by
  have hcut : SpaceOk { s with pagetables := tryUnmapUserPages s.pagetables page page } :=
    ⟨hok.sorted, hok.nonempty, hok.tidy, hok.coherent.tryUnmap page page⟩
  have hstep : SpaceStep touched g s g
      { s with pagetables := tryUnmapUserPages s.pagetables page page } := .of_state rfl fun _ => hcut
  unfold writable at h
  split at h
  · rename_i hm
    cases h
    rw [KernelPage.makeMut_eq_error hm]
    exact ⟨hstep.trans (.kernel (.of_same (sameHeap_tick _))), nofun⟩
  rename_i k h1 hm
  cases h
  refine ⟨hstep.trans (.makeMut hcut hx hu (tryUnmap_self hok.coherent page) hm), fun v hv => ?_⟩
  cases hv
  exact ⟨_, resolve_setSlot_self hok.sorted hx _, rfl⟩

lemma install_step {r : Except PageFaultError Unit} (hx : resolve s.state.mappings page = some x) (hu : x.page = some u)
    (h : install g s page u required tables = (r, g', s')) : SpaceStep touched g s g' s' := by
  unfold install at h
  split at h
  · cases h
    exact .refl
  split at h
  · cases h
    exact .refl
  rename_i pt hset
  cases h
  refine .of_state rfl fun hok => ⟨hok.sorted, hok.nonempty, hok.tidy, ?_⟩
  unfold setPage at hset
  split at hset
  · cases hset
  rename_i hlow
  split at hset
  · cases hset
    intro p e he
    simp only at he
    split at he
    · rename_i hp
      subst hp
      cases he
      exact ⟨not_not.1 hlow, x, u, hx, hu, u.entry_for⟩
    · exact hok.coherent p e he
  · cases hset

/-- **A page fault** keeps the invariant and is not noticed by isolated pages. -/
lemma mapPage_step {r : Except PageFaultError Unit} (hok : SpaceOk s)
    (h : mapPage A g s page required tables = some (r, g', s')) : SpaceStep touched g s g' s' := by
  unfold mapPage at h
  simp only at h
  have hminor : SpaceStep touched g s g { s with usage := s.usage.recordMinorPageFault } :=
    .of_state rfl fun h => ⟨h.sorted, h.nonempty, h.tidy, h.coherent⟩
  split at h
  · cases h
    exact hminor
  rename_i x hx
  refine hminor.trans ?_
  have hok0 := hminor.ok hok
  split at h
  · cases h
  · rename_i hpop
    cases h
    exact (populate_step hok0 hx hpop).1
  rename_i u g1 s1 hpop
  obtain ⟨hstep, hu⟩ : SpaceStep touched g _ g1 s1 ∧ _ := populate_step hok0 hx hpop
  obtain ⟨x1, hx1, hu1⟩ := hu u rfl
  have hok1 := hstep.ok hok0
  unfold mapUserPage at h
  split at h
  · cases h
    exact hstep
  split at h
  · split at h
    · rename_i hw
      cases h
      exact hstep.trans (writable_step hok1 hx1 hu1 hw).1
    rename_i v g2 s2 hw
    obtain ⟨hstep2, hv⟩ := writable_step hok1 hx1 hu1 hw
    obtain ⟨x2, hx2, hu2⟩ := hv v rfl
    exact hstep.trans (hstep2.trans (install_step hx2 hu2 (Option.some.inj h)))
  · exact hstep.trans (install_step hx1 hu1 (Option.some.inj h))

end

end Mushroom.L2
