import Mushroom.L2Memory.Syscall
import Mushroom.L2Memory.WorldOk

/-!
# What the range calls answer

`mprotect`, `discard_pages`, `find_free_address` and `set_brk_end` over a
well-formed map, with the answer each of them gives: when it succeeds, when it
fails and when it panics.
-/
namespace Mushroom.L2
open List Option OrdMap VirtAddr

def AllMapped (L : Mappings) (addr len : Nat) : Prop := ∀ p, Covers addr len p → (resolve L p).isSome

/-! ## `discard_pages` -/

variable {p page stop start len : Nat} {rest L' before B L : Mappings} {m : Mapping} {r : Except Errno Unit}
  {dropped acc : List UserPage} {perms : MemoryPermissions} {t : Nat × Mapping}

/-- Behind a mapping the entries that follow decide alone. -/
lemma resolve_behind (hp : page + m.len ≤ p) : resolve ((page, m) :: rest) p = resolve rest p := by
  rw [resolve_cons]
  split
  · rfl
  rename_i hnone
  rw [resolve_of_not_found hnone, if_pos (by omega), Mapping.slot_eq_none]
  omega

/-- Within a mapping it decides alone, as the next one begins behind it. -/
lemma resolve_within (h1 : page ≤ p) (h2 : p < page + m.len) (hrest : ∀ y ∈ rest, page + m.len ≤ y.1) :
    resolve ((page, m) :: rest) p = m.slot (p - page) := by
  rw [resolve_cons, getLE_eq_none.2 fun y hy => by have := hrest y hy; omega]
  simp [h1]

/-- The loop succeeds if and only if it meets no gap, and then every slot of the range is empty. -/
lemma discardLoop_exact (hB : MapsOk B) (htail : ∀ y ∈ B.tail, start < y.1) (hle : start ≤ stop)
    (h : discardLoop stop B before start acc = some (r, L', dropped)) :
    (r = .ok () ↔ ∀ p, start ≤ p → p < stop → (resolve B p).isSome) ∧
      ∃ B', L' = before.reverse ++ B' ∧ shape B' = shape B ∧
        (r = .ok () → ∀ p, start ≤ p → p < stop → ∀ x, resolve B' p = some x → x.page = none) := by
  induction B generalizing start before acc with
  | nil =>
    simp only [discardLoop, Option.some.injEq, Prod.mk.injEq] at h
    obtain ⟨rfl, rfl, -⟩ := h
    refine ⟨?_, [], by simp, rfl, by simp⟩
    by_cases heq : start = stop
    · simp only [heq, if_true, true_iff]
      intro p h1 h2
      omega
    · simp only [heq, if_false, reduceCtorEq, false_iff]
      intro hall
      simpa using hall start le_rfl (by omega)
  | cons y rest ih =>
    obtain ⟨page, m⟩ := y
    obtain ⟨hm, hlow, hrest, hok⟩ := MapsOk.cons.1 hB
    simp only at hm hlow hrest
    simp only [tail_cons] at htail
    unfold discardLoop at h
    split at h
    · rename_i heq
      cases h
      refine ⟨?_, _, rfl, rfl, fun _ p h1 h2 => by omega⟩
      simp only [true_iff]
      intro p h1 h2
      omega
    rename_i hne
    split at h
    · rename_i hpage
      cases h
      refine ⟨?_, _, rfl, rfl, by simp⟩
      simp only [reduceCtorEq, false_iff]
      intro hall
      have hnone := resolve_of_gt (B := (page, m) :: rest) (p := start)
        (forall_mem_cons.2 ⟨by simp only; omega, htail⟩)
      simpa [hnone] using hall start le_rfl (by omega)
    rename_i hpage
    split at h
    · rename_i hoff
      cases h
      refine ⟨?_, _, rfl, rfl, by simp⟩
      simp only [reduceCtorEq, false_iff]
      intro hall
      have hnone : resolve ((page, m) :: rest) start = none :=
        (resolve_behind (by omega)).trans (resolve_of_gt htail)
      simpa [hnone] using hall start le_rfl (by omega)
    rename_i hoff
    simp only at h
    split at h
    · cases h
    rename_i start' hadd
    obtain ⟨-, rfl⟩ := pageAdd_eq_some.1 hadd
    -- the rest of the loop begins at the end of the mapping or of the range
    have htail' : ∀ y ∈ rest.tail, page + min (stop - page) m.len < y.1 := by
      intro y hy
      cases rest with
      | nil => cases hy
      | cons z rest =>
        have := hrest z (mem_cons_self ..)
        have := (sorted_cons.1 hok.sorted).1 y hy
        omega
    obtain ⟨hiff, B', rfl, hshape, hempty⟩ := ih hok htail' (by omega) h
    refine ⟨hiff.trans ⟨fun hall p h1 h2 => ?_, fun hall p h1 h2 => ?_⟩, (page, (m.discard (start - page)
      (min (stop - page) m.len)).1) :: B', by simp, by simp [shape_cons, hshape], ?_⟩
    · by_cases hp : p < page + m.len
      · rw [resolve_within (by omega) hp hrest, isSome_iff_ne_none, ne_eq, Mapping.slot_eq_none]
        omega
      · rw [resolve_behind (by omega)]
        exact hall p (by omega) h2
    · have hbehind : resolve ((page, m) :: rest) p = resolve rest p := resolve_behind (by omega)
      rw [← hbehind]
      exact hall p (by omega) h2
    intro hr p h1 h2 x hx
    have hrest' : ∀ y ∈ B', page + (m.discard (start - page) (min (stop - page) m.len)).1.len ≤ y.1 := by
      intro y hy
      obtain ⟨z, hz, hk, -⟩ := mem_of_shape hshape hy
      have := hrest z hz
      rw [Mapping.discard_len]
      omega
    by_cases hp : p < page + m.len
    · rw [resolve_within (by omega) (by rwa [Mapping.discard_len]) hrest', Mapping.discard_slot] at hx
      obtain ⟨y, -, rfl⟩ := map_eq_some_iff.1 hx
      rw [if_pos (by omega)]
    · rw [resolve_behind (by rw [Mapping.discard_len]; omega)] at hx
      exact hempty hr p (by omega) h2 x hx

lemma discardPages_exact (hL : MapsOk L) (hle : start ≤ stop) (h : discardPages L start stop = some (r, L', dropped)) :
    (r = .ok () ↔ ∀ p, start ≤ p → p < stop → (resolve L p).isSome) ∧
      (r = .ok () → ∀ p, start ≤ p → p < stop → ∀ x, resolve L' p = some x → x.page = none) := by
  obtain ⟨A, B, hseek, rfl, hpos⟩ := seekLE_cases hL.sorted start
  have hdAB := (Disjoint.append.1 hL.disjoint).2.2
  have hB := hL.append_right
  simp only [discardPages, hseek] at h
  -- no mapping behind the cursor reaches into the range
  have hA : ∀ a ∈ A, a.1 + a.2.len ≤ start := by
    rcases hpos with ⟨rfl, -⟩ | ⟨x, rest, rfl, hk, -, -⟩
    · simp
    · exact fun a ha => le_trans (hdAB a ha x (mem_cons_self ..)) hk
  have htail : ∀ y ∈ B.tail, start < y.1 := by
    rcases hpos with ⟨-, hafter⟩ | ⟨x, rest, rfl, -, hrest, -⟩
    · exact fun y hy => hafter y (mem_of_mem_tail hy)
    · exact hrest
  obtain ⟨hiff, B', rfl, hshape, hempty⟩ := discardLoop_exact hB htail hle h
  have hright : ∀ C p, start ≤ p → resolve (A ++ C) p = resolve C p := by
    intro C p hp
    rw [resolve_append]
    split
    · rfl
    rename_i hnone
    rw [resolve_of_not_found hnone]
    exact resolve_eq_none_of_le fun a ha => (hA a ha).trans hp
  refine ⟨hiff.trans ⟨fun hall p h1 h2 => ?_, fun hall p h1 h2 => ?_⟩, fun hr p h1 h2 x hx => ?_⟩
  · rw [hright B p h1]
    exact hall p h1 h2
  · rw [← hright B p h1]
    exact hall p h1 h2
  · rw [reverse_reverse, hright B' p h1] at hx
    exact hempty hr p h1 h2 x hx

lemma covers_of_aligned {addr : Nat} (ha : addr % 4096 = 0) (hl : len % 4096 = 0) :
    Covers addr len p ↔ addr / 4096 ≤ p ∧ p < (addr + len) / 4096 := by
  unfold Covers
  omega

/-- Over a page-aligned range of the lower half it returns and says whether the range is mapped. -/
lemma discard_exact (hL : MapsOk L) {address : VirtAddr} (ha : address.addr % 4096 = 0) (hl : len % 4096 = 0)
    (hlow : address.addr + len < 2 ^ 47) : ∃ r L' dropped, discard L address len = some (r, L',
        ⟨(pageBack ((address.addr + len) / 4096)).map (address.page, ·), dropped, dropped.length⟩) ∧
      (r = .ok () ↔ AllMapped L address.addr len) ∧
      (r = .ok () → ∀ p, Covers address.addr len p → resolve L' p = (resolve L p).map Slot.discard) ∧
      (∀ p, ¬ Covers address.addr len p → resolve L' p = resolve L p) ∧ shape L' = shape L := by
  have hle : address.page ≤ (address.addr + len) / 4096 := by unfold page; omega
  obtain ⟨⟨r, L', dropped⟩, hp⟩ := discardPages_returns hL hle (.inl (by omega))
  have hd : discard L address len = some (r, L',
      ⟨(pageBack ((address.addr + len) / 4096)).map (address.page, ·), dropped, dropped.length⟩) := by
    unfold discard
    rw [if_neg (by omega), add_of_lower hlow]
    simp only [page] at hp ⊢
    rw [if_neg (by omega), hp]
  refine ⟨r, L', dropped, hd, ?_⟩
  have hcov : ∀ p, Covers address.addr len p ↔ address.page ≤ p ∧ p < (address.addr + len) / 4096 :=
    fun p => covers_of_aligned ha hl
  have hspec := discardPages_spec hle hL.sorted hp
  obtain ⟨hiff, hempty⟩ := discardPages_exact hL hle hp
  refine ⟨hiff.trans (forall_congr' fun p => ?_), fun hr p hc => ?_, fun p hc => ?_, hspec.shape⟩
  · rw [hcov, and_imp]
  · rcases hspec.resolves p with heq | ⟨-, -, heq⟩
    · rw [heq]
      cases hx : resolve L p with
      | none => rfl
      | some x =>
        have := hempty hr p ((hcov p).1 hc).1 ((hcov p).1 hc).2 x (heq.trans hx)
        cases x
        cases this
        rfl
    · exact heq
  · rcases hspec.resolves p with heq | ⟨h1, h2, -⟩
    · exact heq
    · exact absurd ((hcov p).2 ⟨h1, h2⟩) hc

lemma Space.vm_of_call (g : Kernel) {s : Space} {op : VmOp} {r : VmRes} {state : VirtualMemoryState}
    {eff : Effect} (h : vmCall s.state op = some (r, state, eff)) :
    s.vm g op = some (r, { g with heap := dropAll g.heap (eff.dropped.map UserPage.page) },
      ⟨state, eff.flushed s.pagetables, s.usage.decreaseRss eff.released⟩) := by
  simp [Space.vm, h]

lemma populate_of_empty {A : Allocator} {g g1 : Kernel} {s : Space} {x : Slot} {k : KernelPage}
    (hx : x.page = none) (hk : getInitialPage A g x.backing x.offset = some (.ok k, g1)) :
    populate A g s p x = some (.ok ⟨k, x.permissions, x.shared⟩, g1, { s.setSlot p ⟨k, x.permissions, x.shared⟩ with
        usage := s.usage.recordMajorPageFault.increaseRss }) := by
  simp [populate, hx, hk]

/-- The page `p`, once the slot `x`, is not resident, and the next fault takes the initial page of its backing. -/
structure Emptied (g : Kernel) (s : Space) (p : Nat) (x : Slot) : Prop where
  slot : resolve s.state.mappings p = some x.discard
  absent : s.pagetables p = none
  refill : ∀ A k g₁, getInitialPage A g x.backing x.offset = some (.ok k, g₁) →
    ∃ s₁, populate A g s p x.discard = some (.ok ⟨k, x.permissions, x.shared⟩, g₁, s₁)

/-- What `discard_pages` is to do: it returns, and succeeds if and only if the whole range is mapped, which is then
empty. In any case the other pages keep slot, entry and bytes, no frame that is pointed to is freed, and the
mappings stay. -/
def DiscardExact (g : Kernel) (s : Space) (address : VirtAddr) (len : Nat) : Prop :=
  ∃ r g' s', s.vm g (.discardPages address len) = some (.result r, g', s') ∧
    (r = .ok () ↔ AllMapped s.state.mappings address.addr len) ∧
    (r = .ok () → ∀ p x, Covers address.addr len p → resolve s.state.mappings p = some x → Emptied g' s' p x) ∧
    (∀ p, ¬ Covers address.addr len p → resolve s'.state.mappings p = resolve s.state.mappings p ∧
      s'.pagetables p = s.pagetables p) ∧ g'.heap.bytes = g.heap.bytes ∧
    (∀ R, Own g.heap (g.pages ++ (s.handles ++ R)) →
      ∀ k ∈ g'.pages ++ (s'.handles ++ R), g'.heap.live k.content = true) ∧
    shape s'.state.mappings = shape s.state.mappings

lemma discardExact_of_lower {g : Kernel} {s : Space} (hL : MapsOk s.state.mappings)
    {address : VirtAddr} {len : Nat} (ha : address.addr % 4096 = 0) (hl : len % 4096 = 0)
    (hlow : address.addr + len < 2 ^ 47) : DiscardExact g s address len := by
  obtain ⟨r, L', dropped, hd, hiff, hempty, hout, hshape⟩ := discard_exact hL ha hl hlow
  have hspec := discard_vmSpec hL.sorted hL.nonempty hd
  have hcall : vmCall s.state (.discardPages address len) = some (.result r, { s.state with mappings := L' },
      ⟨(pageBack ((address.addr + len) / 4096)).map (address.page, ·), dropped, dropped.length⟩) := by
    simp [vmCall, hd]
  have hcov : ∀ p, Covers address.addr len p ↔ address.page ≤ p ∧ p < (address.addr + len) / 4096 :=
    fun p => covers_of_aligned ha hl
  -- the pages removed from the page tables are those of the range
  have hflush : ∀ p, Effect.flushed ⟨(pageBack ((address.addr + len) / 4096)).map (address.page, ·), dropped,
      dropped.length⟩ s.pagetables p = if Covers address.addr len p then none else s.pagetables p := by
    intro p
    simp only [hcov]
    unfold Effect.flushed pageBack
    by_cases h0 : (address.addr + len) / 4096 = 0
    · simp [h0]
    rw [if_neg h0, if_neg (by omega)]
    simp only [map_some, tryUnmapUserPages, lastUserPage, userPages, page]
    refine if_congr ?_ rfl rfl
    omega
  refine ⟨r, _, _, Space.vm_of_call g hcall, hiff, fun hr p x hc hx => ⟨?_, ?_, fun A k g1 hk => ?_⟩,
    fun p hc => ⟨hout p hc, ?_⟩,
    dropAll_bytes .., fun R o k hk => ?_, hshape⟩
  · rw [hempty hr p hc, hx]
    rfl
  · show Effect.flushed _ _ p = none
    rw [hflush, if_pos hc]
  · exact ⟨_, populate_of_empty rfl hk⟩
  · show Effect.flushed _ _ p = _
    rw [hflush, if_neg hc]
  refine Own.live (Own.dropAll (o.perm ?_)) hk
  refine ((hspec.handles.append_right R).append_left g.pages).trans ?_
  rw [append_assoc]
  exact perm_append_comm_assoc ..

/-- The end of the range is no address: `address + len` panics. -/
lemma discard_past_end (g : Kernel) (s : Space) {address : VirtAddr} {len : Nat} (ha : address.addr % 4096 = 0)
    (hend : address.addr + len = 2 ^ 47) : s.vm g (.discardPages address len) = none := by
  have hadd : address.add len = none := by
    rw [VirtAddr.add, hend]
    rfl
  simp [Space.vm, vmCall, discard, ha, hadd]

/-- **`madvise(DONTNEED)`** on a page-aligned range of the lower half does what it is for, unless the range contains
the last page. -/
theorem discard_pages_answer {g : Kernel} {s : Space} (hL : MapsOk s.state.mappings)
    (address : VirtAddr) (len : Nat) (ha : address.addr % 4096 = 0) (hl : len % 4096 = 0)
    (huser : address.addr + len ≤ 2 ^ 47) : DiscardExact g s address len ↔ address.addr + len < 2 ^ 47 := by
  refine ⟨?_, discardExact_of_lower hL ha hl⟩
  rintro ⟨r, g', s', hvm, -⟩
  refine lt_of_le_of_ne huser fun hend => ?_
  rw [discard_past_end g s ha hend] at hvm
  cases hvm

def twoPages : Mappings :=
  [(1, ⟨.zero, 0, ⟨false, true, true⟩, false, [some ⟨.zeroed, ⟨false, true, true⟩, false⟩, none]⟩)]

lemma mapsOk_twoPages : MapsOk twoPages := ⟨by decide, by decide, by decide⟩

/-- Both pages of a mapping are discarded. -/
theorem discard_pages_answer_both :
    ∃ r g' s', Space.vm (World.start fun _ => 0).kernel ⟨⟨twoPages, .zero⟩, fun _ => none, .default⟩
        (.discardPages ⟨4096, .inl (by decide)⟩ 8192) = some (.result r, g', s') ∧ r = .ok () ∧
      ∃ x, resolve twoPages 1 = some x ∧ Emptied g' s' 1 x := by
  obtain ⟨r, g', s', hvm, hiff, hempty, -⟩ :=
    (discard_pages_answer (g := (World.start fun _ => 0).kernel)
      (s := ⟨⟨twoPages, .zero⟩, fun _ => none, .default⟩) mapsOk_twoPages
      ⟨4096, .inl (by decide)⟩ 8192 (by decide) (by decide) (by decide)).2 (by decide)
  have hr : r = .ok () := hiff.2 fun p hp => by
    obtain ⟨-, h1, h2⟩ := hp
    obtain rfl | rfl : p = 1 ∨ p = 2 := by simp only at h1 h2; omega
    · decide
    · decide
  exact ⟨r, g', s', hvm, hr, _, rfl, hempty hr 1 _ (by decide) rfl⟩

/-- The last page of the lower half. -/
theorem discard_pages_last :
    Space.vm (World.start fun _ => 0).kernel ⟨⟨twoPages, .zero⟩, fun _ => none, .default⟩
        (.discardPages ⟨0x7ffffffff000, .inl (by decide)⟩ 4096) = none ∧
      ¬ DiscardExact (World.start fun _ => 0).kernel ⟨⟨twoPages, .zero⟩, fun _ => none, .default⟩
        ⟨0x7ffffffff000, .inl (by decide)⟩ 4096 := by
  have hnone : Space.vm (World.start fun _ => 0).kernel ⟨⟨twoPages, .zero⟩, fun _ => none, .default⟩
      (.discardPages ⟨0x7ffffffff000, .inl (by decide)⟩ 4096) = none := discard_past_end _ _ (by decide) rfl
  refine ⟨hnone, ?_⟩
  rintro ⟨r, g', s', hvm, -⟩
  rw [hnone] at hvm
  cases hvm

/-! ## `mprotect` -/

lemma lastPageExcl_atTop (h : page + m.len = 2 ^ 35) : lastPageExcl page m = none := by
  have hcan : ¬ CanonicalPage (page + m.len) := by
    unfold CanonicalPage
    omega
  simp [lastPageExcl, pageAdd, hcan]

lemma mprotectVisit_passes {next : Mappings → Changed} (hm : 0 < m.len) (hend : page + m.len ≤ stop + 1)
    (hnext : next ((page, m.setPerms perms) :: before) = none) :
    mprotectVisit stop perms before page m rest next = none := by
  unfold mprotectVisit
  split
  · rfl
  rename_i mappingEnd he
  have := lastPageExcl_eq_some he
  rw [if_neg (by omega), if_pos (by omega)]
  exact hnext

/-- Passing only mappings that end within the range, the loop reaches the one at the top and panics. -/
lemma mprotectLoop_atTop (hB : MapsOk B) (hle : start ≤ stop)
    (ht : t ∈ B) (htop : AtTop t) (hpass : ∀ y ∈ B, y.1 < t.1 → start < y.1 + y.2.len ∧ y.1 + y.2.len ≤ stop + 1) :
    mprotectLoop start stop perms B before = none := by
  induction B generalizing before with
  | nil => cases ht
  | cons x rest ih =>
    obtain ⟨page, m⟩ := x
    obtain ⟨hm, hlow, hrest, hok⟩ := MapsOk.cons.1 hB
    unfold mprotectLoop
    rcases mem_cons.1 ht with rfl | ht
    · -- the page behind the mapping does not exist
      have hnone : lastPageExcl page m = none := lastPageExcl_atTop htop
      split
      · simp [hnone]
      · simp [mprotectVisit, hnone]
    have hlt : page < t.1 := by
      have := hrest t ht
      omega
    obtain ⟨h1, h2⟩ := hpass (page, m) (mem_cons_self ..) hlt
    simp only at h1 h2
    have hloop : ∀ before', mprotectLoop start stop perms rest before' = none := fun before' =>
      ih hok ht fun y hy hyt => hpass y (mem_cons_of_mem _ hy) hyt
    split
    · rename_i hps
      split
      · rfl
      rename_i mappingEnd he
      have := lastPageExcl_eq_some he
      rw [if_neg (by omega)]
      split
      · rfl
      rename_i m1 m2 hsplit
      obtain ⟨-, hl2, -⟩ := Mapping.splitOff_len hsplit
      split
      · exact mprotectVisit_passes (by omega) (by omega) (hloop _)
      · rfl
    · exact mprotectVisit_passes hm h2 (hloop _)

/-- `mprotect` panics when it looks at a mapping at the top. -/
lemma mprotectPages_protectsTop (hL : MapsOk L) (hle : start ≤ stop) (perms : MemoryPermissions)
    (h : ProtectsTop L start stop) : mprotectPages L start stop perms = none := by
  obtain ⟨t, ht, htop, hcase⟩ := h
  obtain ⟨A, B, hseek, rfl, hpos⟩ := seekLE_cases hL.sorted start
  have hdAB := (Disjoint.append.1 hL.disjoint).2.2
  simp only [mprotectPages, hseek]
  -- a mapping at the top is not behind the cursor
  have htB : t ∈ B := by
    rcases mem_append.1 ht with htA | htB
    · rcases hpos with ⟨rfl, -⟩ | ⟨x, rest, rfl, -, -, -⟩
      · cases htA
      have := hdAB t htA x (mem_cons_self ..)
      have := hL.lower x (by simp)
      have := hL.nonempty x (by simp)
      unfold AtTop at htop
      omega
    · exact htB
  rcases hpos with ⟨rfl, hafter⟩ | ⟨x, rest, rfl, hk, hrest, -⟩
  · refine mprotectLoop_atTop hL.append_right hle htB htop fun y hy hyt => ?_
    have hys := hafter y hy
    rcases hcase with hts | ⟨-, hpass⟩
    · have := hafter t htB
      omega
    · exact ⟨by omega, hpass y (by simpa using hy) hyt⟩
  refine mprotectLoop_atTop hL.append_right hle htB htop fun y hy hyt => ?_
  obtain ⟨hxn, hxl, hxr, hokr⟩ := MapsOk.cons.1 hL.append_right
  rcases hcase with hts | ⟨hfault, hpass⟩
  · -- then `t` is the entry below `start`, and nothing precedes it
    rcases mem_cons.1 htB with rfl | htr
    · rcases mem_cons.1 hy with rfl | hyr
      · omega
      have := hxr y hyr
      omega
    · have := hrest t htr
      omega
  refine ⟨?_, hpass y (mem_append_right _ hy) hyt⟩
  rcases mem_cons.1 hy with rfl | hyr
  · by_contra hend
    refine hfault ⟨⟨y, by simp, hk⟩, fun z hz hzs => ?_⟩
    rcases mem_append.1 hz with hzA | hzB
    · have := hdAB z hzA y (mem_cons_self ..)
      omega
    rcases mem_cons.1 hzB with rfl | hzr
    · omega
    have := hrest z hzr
    omega
  · have := hrest y hyr
    omega

/-- `mprotect` fails exactly when `start` is a gap with a mapping below it. -/
lemma mprotectPages_error_iff (hL : MapsOk L)
    (h : mprotectPages L start stop perms = some (r, L')) : r ≠ .ok () ↔ FaultsAt L start := by
  have hfull : (∃ y ∈ L, y.1 ≤ start) → ∃ x, getLE L start = some x := fun ⟨y, hy, hys⟩ =>
    Option.isSome_iff_exists.1 (getLE_isSome_of_mem hy hys)
  rcases mprotectPages_cases hL.sorted hL.nonempty h with ⟨rfl, -, x, hx, hend⟩ | ⟨rfl, A, B, B', ho, -⟩
  · obtain ⟨hmem, hle⟩ := getLE_mem hx
    simp only [ne_eq, reduceCtorEq, not_false_eq_true, true_iff]
    refine ⟨⟨x, hmem, hle⟩, fun y hy hys => hL.end_le ?_ hy hys⟩
    rw [resolve, hx, bind_some, Mapping.slot_eq_none]
    omega
  simp only [ne_eq, not_true_eq_false, false_iff]
  rintro ⟨hbelow, hends⟩
  obtain ⟨x, hx⟩ := hfull hbelow
  obtain ⟨hmem, hle⟩ := getLE_mem hx
  have := hends x hmem hle
  have := ho.full x hx
  omega

/-- It returns, succeeds if and only if the whole range is mapped, and then exactly its pages get the
permissions; when it fails the map is unchanged. -/
def MprotectExact (L : Mappings) (addr : VirtAddr) (len : Nat) (permissions : MemoryPermissions) : Prop :=
  ∃ r L' eff, mprotect L addr len permissions = some (r, L', eff) ∧ (r = .ok () ↔ AllMapped L addr.addr len) ∧
    (r = .ok () → ∀ p, resolve L' p =
      (resolve L p).map fun x => if Covers addr.addr len p then x.setPerms permissions else x) ∧
    (r ≠ .ok () → L' = L)

variable {addr : VirtAddr}

lemma mprotect_of_pages (permissions : MemoryPermissions) (ha : addr.addr % 4096 = 0) (hlen : 0 < len)
    (hcan : Canonical (addr.addr + (len - 1))) : mprotect L addr len permissions =
      (mprotectPages L addr.page ((addr.addr + (len - 1)) / 4096) permissions).map fun x =>
        (x.1, x.2, ⟨some (addr.page, (addr.addr + (len - 1)) / 4096), [], 0⟩) := by
  unfold mprotect
  rw [if_neg (by omega), if_neg (by omega), add_of_canonical hcan]
  simp only [page]
  cases mprotectPages L (addr.addr / 4096) ((addr.addr + (len - 1)) / 4096) permissions <;> rfl

/-- A panic: the last address of the range does not exist. -/
lemma mprotect_not_canonical (permissions : MemoryPermissions) (ha : addr.addr % 4096 = 0) (hlen : 0 < len)
    (hcan : ¬ Canonical (addr.addr + (len - 1))) : mprotect L addr len permissions = none := by
  unfold mprotect
  rw [if_neg (by omega), if_neg (by omega)]
  simp [add, new, dif_neg hcan]

/-- **When `mprotect` does what it is for**: the range is empty, or its last address exists, the loop does not look
at a mapping that contains the last page of the lower half, and every page of the range is mapped, or the
first is not and some mapping lies below it. Any other gap is passed over in silence. -/
theorem mprotect_exact_iff {L : Mappings} (hL : MapsOk L) {addr : VirtAddr} (ha : addr.addr % 4096 = 0)
    (len : Nat) (permissions : MemoryPermissions) : MprotectExact L addr len permissions ↔
      (0 < len → Canonical (addr.addr + (len - 1)) ∧ ¬ ProtectsTop L addr.page ((addr.addr + (len - 1)) / 4096) ∧
        (AllMapped L addr.addr len ∨ FaultsAt L addr.page)) := by
  rcases Nat.eq_zero_or_pos len with rfl | hlen
  · have hmapped : AllMapped L addr.addr 0 := fun p hp => absurd hp.1 (lt_irrefl 0)
    have hnot : ∀ p, ¬ Covers addr.addr 0 p := fun p hp => absurd hp.1 (lt_irrefl 0)
    refine iff_of_true ⟨.ok (), L, .nothing, rfl, by simpa using hmapped, fun _ p => ?_, by simp⟩ (by simp)
    simp [hnot]
  have hle := addr.page_le_last len
  by_cases hcan : Canonical (addr.addr + (len - 1))
  swap
  · refine iff_of_false ?_ fun h => hcan (h hlen).1
    rintro ⟨r, L', eff, h, -⟩
    rw [mprotect_not_canonical permissions ha hlen hcan] at h
    cases h
  by_cases htop : ProtectsTop L addr.page ((addr.addr + (len - 1)) / 4096)
  · refine iff_of_false ?_ fun h => (h hlen).2.1 htop
    rintro ⟨r, L', eff, h, -⟩
    rw [mprotect_of_pages permissions ha hlen hcan, mprotectPages_protectsTop hL hle permissions htop] at h
    cases h
  obtain ⟨⟨r, L'⟩, hp⟩ := mprotectPages_returns hL hle permissions htop
  have hm := mprotect_of_pages (L := L) permissions ha hlen hcan
  rw [hp, map_some] at hm
  have herr := mprotectPages_error_iff hL hp
  -- the gap at which the call fails is a page of the range
  have hgap : FaultsAt L addr.page → ¬ AllMapped L addr.addr len := by
    rintro ⟨-, hends⟩ hall
    have hsome := hall addr.page ⟨hlen, le_rfl, hle⟩
    obtain ⟨x, hx⟩ := isSome_iff_exists.1 hsome
    obtain ⟨y, hy, h1, h2, -⟩ := resolve_mapping hx
    have := hends y hy h1
    omega
  constructor
  · rintro ⟨r1, L1, eff, h, hiff, -⟩ -
    rw [hm] at h
    cases h
    refine ⟨hcan, htop, ?_⟩
    by_cases hr : r = .ok ()
    · exact .inl (hiff.1 hr)
    · exact .inr (herr.1 hr)
  intro h
  obtain ⟨-, -, hcase⟩ := h hlen
  refine ⟨r, L', _, hm, ?_, fun hr p => ?_, fun hr => ?_⟩
  · rcases hcase with hall | hfault
    · exact iff_of_true (not_not.1 fun hr => hgap (herr.1 hr) hall) hall
    · exact iff_of_false (herr.2 hfault) (hgap hfault)
  · rcases mprotectPages_spec hL.sorted hL.nonempty hp with ⟨-, hspec⟩ | ⟨rfl, -⟩
    · rw [hspec.resolves]
      have hcov : Covers addr.addr len p ↔ addr.page ≤ p ∧ p ≤ (addr.addr + (len - 1)) / 4096 :=
        ⟨fun h => h.2, fun h => ⟨hlen, h⟩⟩
      simp [hcov]
    · cases hr
  · rcases mprotectPages_spec hL.sorted hL.nonempty hp with ⟨rfl, -⟩ | ⟨-, rfl⟩
    · exact absurd rfl hr
    · rfl

/-- The second page of `twoPages` alone is protected as a whole mapping is. -/
theorem mprotect_exact_second_page : MprotectExact twoPages ⟨8192, .inl (by decide)⟩ 4096 ⟨false, false, true⟩ := by
  refine (mprotect_exact_iff mapsOk_twoPages (by decide) _ _).2 fun _ => ⟨by decide, by decide, .inl ?_⟩
  rintro p ⟨-, h1, h2⟩
  obtain rfl : p = 2 := by simp only at h1 h2; omega
  decide

/-- A range that ends in a gap, and one with no mapping at all: both calls succeed. -/
theorem mprotect_passes_gap : ¬ MprotectExact twoPages ⟨8192, .inl (by decide)⟩ 8192 ⟨false, false, true⟩ ∧
      ¬ MprotectExact [] ⟨4096, .inl (by decide)⟩ 4096 ⟨false, false, true⟩ := by
  have hok : ∀ {L : Mappings} {addr : VirtAddr} {len p : Nat} {permissions : MemoryPermissions},
      (mprotect L addr len permissions).any (fun x => x.1.isOk) = true → Covers addr.addr len p →
        resolve L p = none → ¬ MprotectExact L addr len permissions := by
    rintro L addr len p permissions hcall hp hnone ⟨r, L', eff, h, hiff, -⟩
    rw [h] at hcall
    have hr : r = .ok () := by
      cases r with
      | ok u => rfl
      | error e => cases hcall
    have := hiff.1 hr p hp
    rw [hnone] at this
    cases this
  exact ⟨hok (p := 3) (by decide) (by decide) (by decide), hok (p := 1) (by decide) (by decide) rfl⟩

/-! ## `find_free_address` -/

/-- It returns the start of a page, and `size` bytes rounded up to pages with a guard page on both sides lie
below the base and touch no mapping. -/
def FindExact (L : Mappings) (size : Nat) (abi : Abi) : Prop :=
  ∃ a, findFreeAddress L size abi = some a ∧ a.addr % 4096 = 0 ∧ 4096 ≤ a.addr ∧
    a.addr + alignUp size + 4096 ≤ abi.dynamicBaseAddress ∧
    ∀ x ∈ L, 4096 * (x.1 + x.2.len) ≤ a.addr - 4096 ∨ a.addr + alignUp size + 4096 ≤ 4096 * x.1

/-- The mapping the search looks at first is the one at the top. -/
lemma findFreeAddress_atTop (hL : MapsOk L) {size : Nat} {abi : Abi} (ht : t ∈ L)
    (htop : AtTop t) (hbase : t.1 ≤ abi.dynamicBaseAddress / 4096) : findFreeAddress L size abi = none := by
  unfold findFreeAddress
  split
  · rfl
  obtain ⟨A, B, rfl⟩ := append_of_mem ht
  -- nothing lies behind it
  obtain ⟨-, -, hB, hokB⟩ := MapsOk.cons.1 hL.append_right
  have hBnil : B = [] := by
    cases B with
    | nil => rfl
    | cons y B =>
      have := hB y (mem_cons_self ..)
      have := hokB.lower y (mem_cons_self ..)
      have := hokB.nonempty y (mem_cons_self ..)
      unfold AtTop at htop
      omega
  subst hBnil
  have hnone : pageAdd t.1 t.2.len = none := by
    unfold AtTop at htop
    have hcan : ¬ CanonicalPage (t.1 + t.2.len) := by
      unfold CanonicalPage
      omega
    exact if_neg hcan
  have hlist : ((A ++ [t]).filter fun x => x.1 ≤ abi.dynamicBaseAddress / 4096).reverse =
      t :: (A.filter fun x => x.1 ≤ abi.dynamicBaseAddress / 4096).reverse := by
    simp [filter_append, hbase]
  simp only [hlist, findLoop, hnone]

/-- The guard pages lie in front of the address found and below the base. -/
lemma findFreeAddress_guards (hL : MapsOk L) {size : Nat} {abi : Abi} {a : VirtAddr}
    (h : findFreeAddress L size abi = some a) :
    4096 ≤ a.addr ∧ a.addr + alignUp size + 4096 ≤ abi.dynamicBaseAddress := by
  unfold findFreeAddress at h
  split at h
  · cases h
  simp only at h
  split at h
  · cases h
  rename_i last hloop
  split at h
  swap
  · cases h
  obtain ⟨b, hb, hadd⟩ := bind_eq_some_iff.1 h
  rw [new_eq_some] at hb
  rw [add_eq_some] at hadd
  obtain ⟨hle, -, -⟩ := findLoop_spec (pairwise_reverse.2 (hL.disjoint.filter _)) (fun x hx => by
    have := (mem_filter.1 (mem_reverse.1 hx)).2
    rw [decide_eq_true_eq] at this
    omega) (dynamicBaseAddress_bounds abi).1 hloop
  omega

/-- **When `find_free_address` does what it is for**: some place below the base has room for the rounded size and
both guard pages, and no mapping that contains the last page of the lower half begins at or below the base.
Without room the subtraction at the end panics. -/
theorem find_exact_iff {L : Mappings} (hL : MapsOk L) {size : Nat} (h0 : 0 < size) (abi : Abi) :
    FindExact L size abi ↔ HasRoom L (alignUp size + 4096 * 2) abi.dynamicBaseAddress ∧
      ∀ y ∈ L, y.1 ≤ abi.dynamicBaseAddress / 4096 → ¬ AtTop y := by
  constructor
  · rintro ⟨a, hfind, -, hge, hbase, hfree⟩
    have hsum : a.addr - 4096 + (alignUp size + 4096 * 2) = a.addr + alignUp size + 4096 := by omega
    refine ⟨⟨a.addr - 4096, hsum.trans_le hbase, fun y hy => ?_⟩, fun y hy hyb htop => ?_⟩
    · rw [hsum]
      exact hfree y hy
    · rw [findFreeAddress_atTop hL hy htop hyb] at hfind
      cases hfind
  rintro ⟨hroom, htop⟩
  obtain ⟨a, hfind⟩ := findFreeAddress_returns hL h0 hroom htop
  obtain ⟨-, hal, -, hfree⟩ := findFreeAddress_spec hL hfind
  obtain ⟨hge, hbase⟩ := findFreeAddress_guards hL hfind
  refine ⟨a, hfind, hal, hge, hbase, fun x hx => ?_⟩
  rcases hfree x hx with h | h
  · left
    omega
  · exact .inr h

/-- Room for one page in a 32-bit address space with `twoPages` in it. -/
theorem find_exact_one_page : FindExact twoPages 4096 .i386 := by
  refine (find_exact_iff mapsOk_twoPages (by decide) _).2 ⟨⟨0xff000000 - 12288, by decide, ?_⟩, by decide⟩
  decide

/-- Sizes that `mmap` lets through and for which no room is left, whatever is
mapped. -/
theorem find_underflows : ¬ FindExact [] (2 ^ 47 - 1) .amd64 ∧ ¬ FindExact [] 0xff000000 .i386 := by
  have hnone : ∀ {size : Nat} {abi : Abi}, findFreeAddress [] size abi = none → ¬ FindExact [] size abi := by
    rintro size abi h ⟨a, ha, -⟩
    rw [h] at ha
    cases ha
  exact ⟨hnone (by decide), hnone (by decide)⟩

/-! ## `brk` -/

/-- kernel/user/process/memory.rs:726-728 -/
def initBrk (s : VirtualMemoryState) (brkStart : VirtAddr) : VirtualMemoryState := { s with brkEnd := brkStart }

/-- `set_brk_end` after `init_brk(start)`, with the largest break so far; every page-aligned value but 0 gets
there. -/
def brkSystem (start : VirtAddr) : LTS (VirtualMemoryState × Nat) VirtAddr where
  init x := ∃ s, MapsOk s.mappings ∧ x = (initBrk s start, start.addr)
  step x brkEnd x' := ∃ r eff, setBrkEnd x.1 brkEnd = some (r, x'.1, eff) ∧ x'.2 = max x.2 x'.1.brkEnd.addr

def Grown (s : VirtualMemoryState) (brkEnd : VirtAddr) (p : Nat) : Prop :=
  Covers s.brkEnd.addr (brkEnd.addr - s.brkEnd.addr) p

/-- What a call of `set_brk_end` is to do; `top` is the largest break after
it. -/
structure BrkExact (start top : Nat) (s : VirtualMemoryState) (brkEnd : VirtAddr)
    (r : Except Errno Unit) (s' : VirtualMemoryState) : Prop where
  grows : s.brkEnd.addr < brkEnd.addr → (∀ p, Grown s brkEnd p → resolve s.mappings p = none) →
    r = .ok () ∧ s'.brkEnd = brkEnd ∧ ∀ p, (Grown s brkEnd p →
        resolve s'.mappings p = some (mmapSlot s.brkEnd.addr ⟨false, true, true⟩ .zero 0 false p)) ∧
      (¬ Grown s brkEnd p → resolve s'.mappings p = resolve s.mappings p)
  refuses : s.brkEnd.addr < brkEnd.addr → (∃ p, Grown s brkEnd p ∧ (resolve s.mappings p).isSome) →
    r = .error .noMem ∧ s' = s
  confined : ∀ p, 4096 * (p + 1) ≤ start ∨ top ≤ 4096 * p → resolve s'.mappings p = resolve s.mappings p

/-- The break lies in the lower half, not below the first one. If the area grows, some mapping begins at or below
its last page, none of those contains the last page of the lower half, and the heap has room for the new slots. -/
def BrkSound (start : VirtAddr) (x : VirtualMemoryState × Nat) (brkEnd : VirtAddr) : Prop :=
  start.addr ≤ brkEnd.addr ∧ brkEnd.addr < 2 ^ 47 ∧
    (x.1.brkEnd.addr < brkEnd.addr → (∃ y ∈ x.1.mappings, y.1 ≤ (brkEnd.addr - 1) / 4096) ∧
      (∀ y ∈ x.1.mappings, y.1 ≤ (brkEnd.addr - 1) / 4096 → ¬ AtTop y) ∧
      SlotsFit x.1.brkEnd.addr (brkEnd.addr - x.1.brkEnd.addr))

instance (start : VirtAddr) (x : VirtualMemoryState × Nat) (brkEnd : VirtAddr) :
    Decidable (BrkSound start x brkEnd) := inferInstanceAs (Decidable (_ ∧ _ ∧ (_ → _ ∧ _ ∧ _)))

/-- The converse of `isFree_clear`: one probe suffices, if there is a mapping
to probe. -/
lemma isFree_of_unmapped (hL : MapsOk L) (hlen : 0 < len) (hlow : addr.addr + len ≤ 2 ^ 47)
    (hbelow : ∃ y ∈ L, y.1 ≤ (addr.addr + (len - 1)) / 4096)
    (htop : ∀ y ∈ L, y.1 ≤ (addr.addr + (len - 1)) / 4096 → ¬ AtTop y)
    (hfree : ∀ p, Covers addr.addr len p → resolve L p = none) : isFree L addr len = some true := by
  unfold isFree
  rw [if_neg (by omega), add_of_lower (by omega)]
  simp only [page]
  obtain ⟨y, hy, hyl⟩ := hbelow
  obtain ⟨⟨page, m⟩, hg⟩ := isSome_iff_exists.1 (getLE_isSome_of_mem hy hyl)
  obtain ⟨hx, hxl⟩ := getLE_mem hg
  have hend : page + m.len ≤ addr.addr / 4096 := by
    by_contra hover
    have hm := hL.nonempty _ hx
    simp only at hm hxl
    -- the first page both of the mapping and of the range
    have hmapped := hL.resolve_mem hx (p := max page (addr.addr / 4096)) (by simp) (by simp only; omega)
    rw [hfree _ ⟨hlen, by omega, by omega⟩] at hmapped
    have := Mapping.slot_eq_none.1 hmapped.symm
    simp only at this
    omega
  have hlt := hL.lower _ hx
  have htop := htop _ hx hxl
  unfold AtTop at htop
  simp only at hlt htop
  rw [hg]
  simp only
  rw [pageAdd_of_lower (by omega), map_some]
  exact congrArg some (decide_eq_true hend)

section

variable {start : VirtAddr} {s s' : VirtualMemoryState} {top : Nat} {brkEnd : VirtAddr} {r : Except Errno Unit}
  {eff : Effect}

variable (hs : MapsOk s.mappings)
include hs

lemma setBrkEnd_grows (hsound : BrkSound start (s, top) brkEnd)
    (hlt : s.brkEnd.addr < brkEnd.addr) (hfree : ∀ p, Grown s brkEnd p → resolve s.mappings p = none)
    (h : setBrkEnd s brkEnd = some (r, s', eff)) : r = .ok () ∧ s'.brkEnd = brkEnd ∧ ∀ p, (Grown s brkEnd p →
        resolve s'.mappings p = some (mmapSlot s.brkEnd.addr ⟨false, true, true⟩ .zero 0 false p)) ∧
      (¬ Grown s brkEnd p → resolve s'.mappings p = resolve s.mappings p) := by
  obtain ⟨-, hlow, hgrow⟩ := hsound
  obtain ⟨hbelow, htop, -⟩ := hgrow hlt
  have hlast : s.brkEnd.addr + (brkEnd.addr - s.brkEnd.addr - 1) = brkEnd.addr - 1 := by omega
  have hfits : isFree s.mappings s.brkEnd (brkEnd.addr - s.brkEnd.addr) = some true :=
    isFree_of_unmapped hs (by omega) (by omega) (hlast ▸ hbelow) (hlast ▸ htop) hfree
  rcases setBrkEnd_eq_some h with ⟨rfl, -, -⟩ | ⟨rfl, -, -, L, hmm, rfl⟩ | ⟨-, hle, -⟩
  · unfold setBrkEnd at h
    rw [if_pos hlt, hfits] at h
    simp only at h
    split at h
    · cases h
    · cases h
  · obtain ⟨-, hres⟩ := mmap_refines hs (by omega) ((isFree_clear hs (by omega) hfits).noGap hs) hmm
    exact ⟨rfl, rfl, fun p => ⟨fun hp => (hres p).trans (if_pos hp), fun hp => (hres p).trans (if_neg hp)⟩⟩
  · omega

lemma setBrkEnd_refuses (hlt : s.brkEnd.addr < brkEnd.addr)
    (hmapped : ∃ p, Grown s brkEnd p ∧ (resolve s.mappings p).isSome)
    (h : setBrkEnd s brkEnd = some (r, s', eff)) : r = .error .noMem ∧ s' = s := by
  obtain ⟨p, hp, hsome⟩ := hmapped
  rcases setBrkEnd_eq_some h with ⟨rfl, rfl, -⟩ | ⟨-, -, hfree, -⟩ | ⟨-, hle, -⟩
  · exact ⟨rfl, rfl⟩
  · rw [(isFree_clear hs (by omega) hfree).resolve hp] at hsome
    cases hsome
  · omega

/-- A call touches only pages between the two breaks. -/
lemma setBrkEnd_confined (hlow : brkEnd.addr < 2 ^ 47)
    (h : setBrkEnd s brkEnd = some (r, s', eff))
    (hp : 4096 * (p + 1) ≤ min s.brkEnd.addr brkEnd.addr ∨ max s.brkEnd.addr s'.brkEnd.addr ≤ 4096 * p) :
    resolve s'.mappings p = resolve s.mappings p := by
  rcases setBrkEnd_eq_some h with ⟨-, rfl, -⟩ | ⟨-, hlt, hfree, L, hmm, rfl⟩ | ⟨-, hle, L, hun, rfl⟩
  · rfl
  · obtain ⟨-, hres⟩ := mmap_refines hs (by omega) ((isFree_clear hs (by omega) hfree).noGap hs) hmm
    refine (hres p).trans (if_neg fun hc => ?_)
    obtain ⟨-, h1, h2⟩ := hc
    simp only at hp
    omega
  rcases unmap_eq_some hun with ⟨-, rfl, -⟩ | ⟨hlen, gone, hpages, -⟩
  · rfl
  have hle' : brkEnd.page ≤ (brkEnd.addr + (s.brkEnd.addr - brkEnd.addr - 1)) / 4096 := by
    unfold page
    omega
  refine (unmapPages_spec hle' hs.sorted hs.nonempty hpages).exact hs.disjoint p fun hc => ?_
  unfold page at hc
  omega

end

structure BrkInv (start : VirtAddr) (s₀ : VirtualMemoryState) (x : VirtualMemoryState × Nat) : Prop where
  maps : MapsOk x.1.mappings
  low : start.addr < 2 ^ 47 → x.1.brkEnd.addr < 2 ^ 47
  first : start.addr ≤ x.1.brkEnd.addr
  top : x.1.brkEnd.addr ≤ x.2
  image : ∀ p, 4096 * (p + 1) ≤ start.addr → resolve x.1.mappings p = resolve s₀.mappings p

variable {x : VirtualMemoryState × Nat}

lemma BrkSound.fits {start : VirtAddr} {brkEnd : VirtAddr} (h : BrkSound start x brkEnd) : BrkFits x.1 brkEnd.addr :=
  fun hlt => ⟨.inl (by have := h.2.1; omega), (h.2.2 hlt).2.1, .inl ⟨h.2.1, (h.2.2 hlt).2.2⟩⟩

lemma BrkInv.call {start : VirtAddr} {s0 : VirtualMemoryState} {brkEnd : VirtAddr} (hi : BrkInv start s0 x)
    (hsound : BrkSound start x brkEnd) : ∃ r s' eff, setBrkEnd x.1 brkEnd = some (r, s', eff) ∧ StateOk s' ∧
      BrkExact start.addr (max x.2 s'.brkEnd.addr) x.1 brkEnd r s' := by
  obtain ⟨s, top⟩ := x
  have hstart := hsound.1
  have hlow := hsound.2.1
  have hfirst := hi.first
  have htop := hi.top
  obtain ⟨r, s', eff, h, hok⟩ := setBrkEnd_returns ⟨hi.maps, hi.low (by omega)⟩ hsound.fits
  refine ⟨r, s', eff, h, hok, fun hlt hfree => setBrkEnd_grows hi.maps hsound hlt hfree h,
    fun hlt hmapped => setBrkEnd_refuses hi.maps hlt hmapped h, fun p hp => ?_⟩
  refine setBrkEnd_confined hi.maps hlow h (hp.imp (fun hp => ?_) fun hp => ?_)
  · exact le_trans hp (le_min hfirst hstart)
  · exact le_trans (max_le (le_trans htop (le_max_left _ _)) (le_max_right _ _)) hp

lemma BrkInv.step {start : VirtAddr} {s0 : VirtualMemoryState} {x' : VirtualMemoryState × Nat}
    {brkEnd : VirtAddr} (hi : BrkInv start s0 x) (hsound : BrkSound start x brkEnd)
    (h : (brkSystem start).step x brkEnd x') : BrkInv start s0 x' := by
  obtain ⟨r, s', eff, hcall, hok, hexact⟩ := hi.call hsound
  obtain ⟨r1, eff1, hcall1, htop⟩ := h
  rw [hcall] at hcall1
  cases hcall1
  have hfirst : start.addr ≤ x'.1.brkEnd.addr := by
    rcases setBrkEnd_eq_some hcall with ⟨-, he, -⟩ | ⟨-, -, -, L, -, he⟩ | ⟨-, -, L, -, he⟩
    · rw [he]
      exact hi.first
    · rw [he]
      exact hsound.1
    · rw [he]
      exact hsound.1
  refine ⟨hok.maps, fun _ => hok.brkLow, hfirst, ?_, fun p hp => ?_⟩
  · rw [htop]
    exact le_max_right _ _
  · rw [hexact.confined p (.inl hp)]
    exact hi.image p hp

/-- **`brk`**: in every run of sound calls the image below the first break stays, and a sound call returns, grows
the area by the new pages if they are free, fails and changes nothing if one is mapped, and touches nothing
outside the area. -/
theorem brk_exact_run {start : VirtAddr} {x₀ x : VirtualMemoryState × Nat} {calls : List VirtAddr}
    (hinit : (brkSystem start).init x₀) (hrun : ((brkSystem start).only (BrkSound start)).Run x₀ calls x) :
    (∀ p, 4096 * (p + 1) ≤ start.addr → resolve x.1.mappings p = resolve x₀.1.mappings p) ∧
      ∀ brkEnd, BrkSound start x brkEnd → ∃ r s' eff, setBrkEnd x.1 brkEnd = some (r, s', eff) ∧
        BrkExact start.addr (max x.2 s'.brkEnd.addr) x.1 brkEnd r s' := by
  obtain ⟨s, hmaps, rfl⟩ := hinit
  have hi0 : BrkInv start (initBrk s start) (initBrk s start, start.addr) :=
    ⟨hmaps, fun h => h, le_rfl, le_rfl, fun _ _ => rfl⟩
  have hi : BrkInv start (initBrk s start) x := by
    refine hrun.keeps (fun x brkEnd x' hi hst => ?_) hi0
    exact hi.step hst.1 hst.2
  refine ⟨hi.image, fun brkEnd hsound => ?_⟩
  obtain ⟨r, s', eff, h, -, hexact⟩ := hi.call hsound
  exact ⟨r, s', eff, h, hexact⟩

/-- A page at the bottom, and the break behind it moved up and down again. -/
theorem brk_exact_up_and_down :
    ∃ x, ((brkSystem ⟨12288, .inl (by decide)⟩).only (BrkSound ⟨12288, .inl (by decide)⟩)).Run
        (initBrk ⟨twoPages, .zero⟩ ⟨12288, .inl (by decide)⟩, 12288)
        [⟨16384, .inl (by decide)⟩, ⟨12288, .inl (by decide)⟩] x ∧ resolve x.1.mappings 2 = resolve twoPages 2 := by
  -- the page behind the two, mapped by the first call and unmapped by the second
  have hrun : ((brkSystem ⟨12288, .inl (by decide)⟩).only (BrkSound ⟨12288, .inl (by decide)⟩)).Run
      (initBrk ⟨twoPages, .zero⟩ ⟨12288, .inl (by decide)⟩, 12288)
      [⟨16384, .inl (by decide)⟩, ⟨12288, .inl (by decide)⟩] (⟨twoPages, ⟨12288, .inl (by decide)⟩⟩, 16384) :=
    .via (⟨twoPages ++ [(3, ⟨.zero, 0, ⟨false, true, true⟩, false, [none]⟩)], ⟨16384, .inl (by decide)⟩⟩, 16384)
      ⟨by decide, .ok (), _, rfl, by decide⟩
        (.cons ⟨by decide, .ok (), ⟨some (3, 3), [], 0⟩, by rfl, by decide⟩ (.nil _))
  exact ⟨_, hrun, (brk_exact_run ⟨_, mapsOk_twoPages, rfl⟩ hrun).1 2 (by decide)⟩

/-- A break below the first one unmaps the program image; without a mapping below it a free area cannot grow. -/
theorem brk_unmaps_image :
    (∃ r s' eff, setBrkEnd (initBrk ⟨twoPages, .zero⟩ ⟨12288, .inl (by decide)⟩) ⟨8192, .inl (by decide)⟩ =
        some (r, s', eff) ∧
      ¬ BrkExact 12288 12288 (initBrk ⟨twoPages, .zero⟩ ⟨12288, .inl (by decide)⟩) ⟨8192, .inl (by decide)⟩ r s') ∧
    ∃ r s' eff, setBrkEnd (initBrk ⟨[], .zero⟩ ⟨4096, .inl (by decide)⟩) ⟨8192, .inl (by decide)⟩ = some (r, s', eff) ∧
      ¬ BrkExact 4096 4096 (initBrk ⟨[], .zero⟩ ⟨4096, .inl (by decide)⟩) ⟨8192, .inl (by decide)⟩ r s' := by
  refine ⟨⟨_, _, _, rfl, fun h => ?_⟩, ⟨_, _, _, rfl, fun h => ?_⟩⟩
  · -- page 2 lies below the first break
    have := h.confined 2 (.inl (by decide))
    exact absurd this (by decide)
  · have := (h.grows (by decide) fun p _ => rfl).1
    cases this

end Mushroom.L2
