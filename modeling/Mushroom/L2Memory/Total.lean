import Mushroom.L2Memory.Refine

/-!
# When the operations return

On a well-formed map (`MapsOk`) none of the assertions, cursor insertions and
page additions fails, with one exception: there is no page behind a mapping that
contains the last page of the lower half. `mprotect`, `discard_pages`, `is_free`
and `find_free_address` panic when they look at one (`AtTop`). `unmap` never does.
-/
namespace Mushroom.L2
open List OrdMap VirtAddr

/-- The mapping contains the last page of the lower half. -/
def AtTop (x : Nat × Mapping) : Prop := x.1 + x.2.len = 2 ^ 35

instance (x : Nat × Mapping) : Decidable (AtTop x) := inferInstanceAs (Decidable (_ = _))

variable {x : Nat × Mapping} {L B before rest L' A : Mappings} {m : Mapping} {page stop start : Nat}
  {gone : List Mapping} {perms : MemoryPermissions} {bias : Bias} {eff : Effect} {r : Except Errno Unit}

lemma MapsOk.cons :
    MapsOk (x :: L) ↔ 0 < x.2.len ∧ x.1 + x.2.len ≤ 2 ^ 35 ∧ (∀ y ∈ L, x.1 + x.2.len ≤ y.1) ∧ MapsOk L := by
  constructor
  · intro h
    obtain ⟨hx, hL⟩ := Disjoint.cons.1 h.disjoint
    refine ⟨h.nonempty x (mem_cons_self ..), h.lower x (mem_cons_self ..), hx, ?_, hL, ?_⟩
    · exact fun y hy => h.nonempty y (mem_cons_of_mem _ hy)
    · exact fun y hy => h.lower y (mem_cons_of_mem _ hy)
  · rintro ⟨hn, hl, hx, hL⟩
    refine ⟨?_, Disjoint.cons.2 ⟨hx, hL.disjoint⟩, forall_mem_cons.2 ⟨hl, hL.lower⟩⟩
    exact forall_mem_cons.2 ⟨hn, hL.nonempty⟩

lemma MapsOk.append_right (h : MapsOk (A ++ B)) : MapsOk B :=
  ⟨fun y hy => h.nonempty y (mem_append_right _ hy), (Disjoint.append.1 h.disjoint).2.1,
    fun y hy => h.lower y (mem_append_right _ hy)⟩

lemma insertable_of_lt {k : Nat} {after : Mappings} (hb : ∀ x ∈ before, x.1 < k) (ha : ∀ x ∈ after, k < x.1) :
    insertable k before after := by
  unfold insertable
  rw [Bool.and_eq_true]
  constructor
  · cases before with
    | nil => rfl
    | cons x before => simpa using hb x (mem_cons_self ..)
  · cases after with
    | nil => rfl
    | cons x after => simpa using ha x (mem_cons_self ..)

lemma Mapping.splitOff_of_le {i : Nat} (h : i ≤ m.len) : ∃ m1 m2, m.splitOff i = some (m1, m2) := ⟨_, _, if_pos h⟩

/-! ## `unmap` -/

lemma lastPage_of_lower (hm : 0 < m.len) (h : page + m.len ≤ 2 ^ 35) : lastPage page m = some (page + (m.len - 1)) := by
  unfold lastPage
  rw [if_neg (by omega), pageAdd_of_lower (by omega)]

lemma unmapVisit_returns {next : Mappings → List Mapping → Unmapped}
    (hm : 0 < m.len) (hlow : page + m.len ≤ 2 ^ 35) (hbefore : ∀ y ∈ before, y.1 < page)
    (hrest : ∀ y ∈ rest, page + m.len ≤ y.1) (hnext : ∃ r, next before (gone ++ [m]) = some r) :
    ∃ r, unmapVisit stop before gone page m rest next = some r := by
  unfold unmapVisit
  simp only [lastPage_of_lower hm hlow]
  by_cases hstop : stop < page
  · exact ⟨_, if_pos hstop⟩
  rw [if_neg hstop]
  by_cases hend : page + (m.len - 1) ≤ stop
  · rwa [if_pos hend]
  rw [if_neg hend]
  obtain ⟨m1, m2, hsplit⟩ := m.splitOff_of_le (i := stop - page + 1) (by omega)
  have hins : insertable (stop + 1) before rest = true :=
    insertable_of_lt (fun y hy => by have := hbefore y hy; omega)
      (fun y hy => by have := hrest y hy; omega)
  rw [hsplit, pageAdd_of_lower (by omega)]
  exact ⟨_, if_pos hins⟩

lemma unmapLoop_returns (hB : MapsOk B) (hbefore : ∀ y ∈ before, ∀ x ∈ B, y.1 < x.1) :
    ∃ r, unmapLoop start stop B before gone = some r := by
  induction B generalizing before gone with
  | nil => exact ⟨_, rfl⟩
  | cons x rest ih =>
    obtain ⟨page, m⟩ := x
    obtain ⟨hm, hlow, hrest, hok⟩ := MapsOk.cons.1 hB
    have hb : ∀ y ∈ before, y.1 < page := fun y hy => hbefore y hy _ (mem_cons_self ..)
    simp only at hm hlow hrest
    unfold unmapLoop
    by_cases hlt : page < start
    · rw [if_pos hlt, lastPage_of_lower hm hlow]
      simp only
      by_cases hgap : page + (m.len - 1) < start
      · exact ⟨_, if_pos hgap⟩
      rw [if_neg hgap]
      obtain ⟨m1, m2, hsplit⟩ := m.splitOff_of_le (i := start - page) (by omega)
      obtain ⟨-, hl2, -⟩ := Mapping.splitOff_len hsplit
      have hb1 : ∀ y ∈ (page, m1) :: before, y.1 < start :=
        forall_mem_cons.2 ⟨hlt, fun y hy => (hb y hy).trans hlt⟩
      have hins : insertable start ((page, m1) :: before) rest = true :=
        insertable_of_lt hb1 (fun y hy => by have := hrest y hy; omega)
      rw [hsplit]
      simp only [if_pos hins]
      apply unmapVisit_returns (by omega) (by omega) hb1
      · intro y hy
        have := hrest y hy
        omega
      apply ih hok
      rw [forall_mem_cons]
      refine ⟨fun y hy => ?_, fun z hz y hy => hbefore z hz y (mem_cons_of_mem _ hy)⟩
      have := hrest y hy
      show page < y.1
      omega
    · rw [if_neg hlt]
      apply unmapVisit_returns hm hlow hb hrest
      exact ih hok fun z hz y hy => hbefore z hz y (mem_cons_of_mem _ hy)

lemma unmapPages_returns (hL : MapsOk L) (start stop : Nat) : ∃ r, unmapPages L start stop = some r := by
  obtain ⟨A, B, hseek, rfl, -⟩ := seekLE_cases hL.sorted start
  simp only [unmapPages, hseek]
  apply unmapLoop_returns hL.append_right
  intro y hy x hx
  have hsorted := sorted_append.1 hL.sorted
  exact hsorted.2.2 y (mem_reverse.1 hy) x hx

lemma unmap_returns (hL : MapsOk L) (addr : VirtAddr) (len : Nat)
    (h : 0 < len → Canonical (addr.addr + (len - 1))) : ∃ r, unmap L addr len = some r := by
  unfold unmap
  by_cases hlen : len = 0
  · exact ⟨_, if_pos hlen⟩
  rw [if_neg hlen, add_of_canonical (h (by omega))]
  simp only
  obtain ⟨⟨L', gone⟩, hun⟩ := unmapPages_returns hL addr.page (page ⟨_, h (by omega)⟩)
  rw [hun]
  exact ⟨_, rfl⟩

/-! ## `mprotect` -/

lemma lastPageExcl_of_lower (hm : 0 < m.len) (h : page + m.len < 2 ^ 35) :
    lastPageExcl page m = some (page + m.len - 1) := by
  unfold lastPageExcl
  rw [pageAdd_of_lower h, Option.bind_some, pageSub_of_lower (by omega) h]

lemma mprotectVisit_returns {next : Mappings → Changed}
    (hm : 0 < m.len) (hlow : page + m.len < 2 ^ 35) (hbefore : ∀ y ∈ before, y.1 < page)
    (hrest : ∀ y ∈ rest, page + m.len ≤ y.1)
    (hnext : page + m.len ≤ stop + 1 → ∃ r, next ((page, m.setPerms perms) :: before) = some r) :
    ∃ r, mprotectVisit stop perms before page m rest next = some r := by
  unfold mprotectVisit
  simp only [lastPageExcl_of_lower hm hlow]
  by_cases hstop : stop < page
  · exact ⟨_, if_pos hstop⟩
  rw [if_neg hstop]
  by_cases hend : page + m.len - 1 ≤ stop
  · rw [if_pos hend]
    exact hnext (by omega)
  rw [if_neg hend]
  obtain ⟨m1, m2, hsplit⟩ := m.splitOff_of_le (i := stop - page + 1) (by omega)
  have hins : insertable (stop + 1) ((page, m1.setPerms perms) :: before) rest = true := by
    apply insertable_of_lt
    · rw [forall_mem_cons]
      exact ⟨by simp only; omega, fun y hy => by have := hbefore y hy; omega⟩
    intro y hy
    have := hrest y hy
    omega
  rw [hsplit, pageAdd_of_lower (by omega)]
  exact ⟨_, if_pos hins⟩

/-- The loop stops in front of the mapping at the top: another one ends
behind `end_page`. -/
def StopsBelowTop (stop : Nat) (B : Mappings) : Prop := ∀ t ∈ B, AtTop t → ∃ y ∈ B, y.1 < t.1 ∧ stop + 1 < y.1 + y.2.len

lemma StopsBelowTop.head (h : StopsBelowTop stop (x :: B)) (hok : MapsOk (x :: B)) : x.1 + x.2.len < 2 ^ 35 := by
  obtain ⟨hn, hl, hrest, -⟩ := MapsOk.cons.1 hok
  by_contra htop
  obtain ⟨y, hy, hlt, -⟩ := h x (mem_cons_self ..) (by unfold AtTop; omega)
  rcases mem_cons.1 hy with rfl | hy
  · omega
  have := hrest y hy
  omega

/-- A mapping that ends within the range is not the one the loop stops at. -/
lemma StopsBelowTop.tail (h : StopsBelowTop stop (x :: B)) (hx : x.1 + x.2.len ≤ stop + 1) : StopsBelowTop stop B := by
  intro t ht htop
  obtain ⟨y, hy, hlt, hend⟩ := h t (mem_cons_of_mem _ ht) htop
  rcases mem_cons.1 hy with rfl | hy
  · omega
  · exact ⟨y, hy, hlt, hend⟩

lemma mprotectLoop_returns (hB : MapsOk B) (hbefore : ∀ y ∈ before, ∀ x ∈ B, y.1 < x.1) (htop : StopsBelowTop stop B) :
    ∃ r, mprotectLoop start stop perms B before = some r := by
  induction B generalizing before with
  | nil => exact ⟨_, rfl⟩
  | cons x rest ih =>
    have hlow := htop.head hB
    obtain ⟨page, m⟩ := x
    obtain ⟨hm, -, hrest, hok⟩ := MapsOk.cons.1 hB
    have hb : ∀ y ∈ before, y.1 < page := fun y hy => hbefore y hy _ (mem_cons_self ..)
    simp only at hm hlow hrest
    -- the loop on `rest`, whichever part of the mapping was passed last
    have hnext : page + m.len ≤ stop + 1 → ∀ before', (∀ y ∈ before', y.1 < page + m.len) →
        ∃ r, mprotectLoop start stop perms rest before' = some r := by
      intro hend before' hb'
      apply ih hok _ (htop.tail hend)
      intro y hy x hx
      exact (hb' y hy).trans_le (hrest x hx)
    unfold mprotectLoop
    by_cases hlt : page < start
    · rw [if_pos hlt, lastPageExcl_of_lower hm hlow]
      simp only
      by_cases hgap : page + m.len - 1 < start
      · exact ⟨_, if_pos hgap⟩
      rw [if_neg hgap]
      obtain ⟨m1, m2, hsplit⟩ := m.splitOff_of_le (i := start - page) (by omega)
      obtain ⟨-, hl2, -⟩ := Mapping.splitOff_len hsplit
      have hb1 : ∀ y ∈ (page, m1) :: before, y.1 < start :=
        forall_mem_cons.2 ⟨hlt, fun y hy => (hb y hy).trans hlt⟩
      have hins : insertable start ((page, m1) :: before) rest = true :=
        insertable_of_lt hb1 (fun y hy => by have := hrest y hy; omega)
      rw [hsplit]
      simp only [if_pos hins]
      apply mprotectVisit_returns (by omega) (by omega) hb1
      · intro y hy
        have := hrest y hy
        omega
      intro hend
      apply hnext (by omega)
      rw [forall_mem_cons]
      exact ⟨by simp only; omega, fun y hy => by have := hb1 y hy; omega⟩
    · rw [if_neg hlt]
      apply mprotectVisit_returns hm hlow hb hrest
      intro hend
      apply hnext hend
      rw [forall_mem_cons]
      exact ⟨by simp only; omega, fun y hy => by have := hb y hy; omega⟩

/-- `start` is not mapped, and a mapping lies below it: `EFAULT`. -/
def FaultsAt (L : Mappings) (start : Nat) : Prop :=
  (∃ y ∈ L, y.1 ≤ start) ∧ ∀ y ∈ L, y.1 ≤ start → y.1 + y.2.len ≤ start

/-- `mprotect` begins at the mapping at the top, or passes only mappings that end within the range. -/
def ProtectsTop (L : Mappings) (start stop : Nat) : Prop :=
  ∃ t ∈ L, AtTop t ∧ (t.1 ≤ start ∨ ¬ FaultsAt L start ∧ ∀ y ∈ L, y.1 < t.1 → y.1 + y.2.len ≤ stop + 1)

instance (L : Mappings) (start stop : Nat) : Decidable (ProtectsTop L start stop) :=
  inferInstanceAs (Decidable (∃ t ∈ L, _ = _ ∧ (_ ∨ ¬ (_ ∧ _) ∧ _)))

lemma mprotectPages_returns (hL : MapsOk L) (hle : start ≤ stop) (perms : MemoryPermissions)
    (h : ¬ ProtectsTop L start stop) : ∃ r, mprotectPages L start stop perms = some r := by
  obtain ⟨A, B, hseek, rfl, hpos⟩ := seekLE_cases hL.sorted start
  have hdAB := (Disjoint.append.1 hL.disjoint).2.2
  have hbefore : ∀ y ∈ A.reverse, ∀ x ∈ B, y.1 < x.1 := fun y hy x hx =>
    (sorted_append.1 hL.sorted).2.2 y (mem_reverse.1 hy) x hx
  simp only [mprotectPages, hseek]
  by_cases hfault : FaultsAt (A ++ B) start
  · obtain ⟨⟨z, hz, hzs⟩, hends⟩ := hfault
    rcases hpos with ⟨rfl, hafter⟩ | ⟨⟨page, m⟩, rest, rfl, hk, -, -⟩
    · have := hafter z hz
      omega
    have hmem : (page, m) ∈ A ++ (page, m) :: rest := by simp
    have hend := hends _ hmem hk
    have hm := hL.nonempty _ hmem
    have hlow : page + m.len < 2 ^ 35 := by
      by_contra htop
      refine h ⟨_, hmem, ?_, .inl hk⟩
      have := hL.lower _ hmem
      unfold AtTop
      simp only at this ⊢
      omega
    simp only at hk hend hm
    unfold mprotectLoop
    rw [if_pos (by omega), lastPageExcl_of_lower hm hlow]
    simp only
    rw [if_pos (by omega)]
    exact ⟨_, rfl⟩
  · apply mprotectLoop_returns hL.append_right hbefore
    intro t ht htop
    by_contra hstop
    refine h ⟨t, mem_append_right _ ht, htop, .inr ⟨hfault, fun y hy hyt => ?_⟩⟩
    rcases mem_append.1 hy with hyA | hyB
    · -- the entries behind the cursor end at or below `start`
      rcases hpos with ⟨rfl, -⟩ | ⟨x, rest, rfl, hk, -, -⟩
      · cases hyA
      have := hdAB y hyA x (mem_cons_self ..)
      omega
    · by_contra hend
      exact hstop ⟨y, hyB, hyt, by omega⟩

variable {len : Nat}

lemma mprotect_returns (hL : MapsOk L) (addr : VirtAddr) (permissions : MemoryPermissions)
    (h : 0 < len → addr.addr % 4096 = 0 → Canonical (addr.addr + (len - 1)) ∧
      ¬ ProtectsTop L (addr.addr / 4096) ((addr.addr + (len - 1)) / 4096)) :
    ∃ r, mprotect L addr len permissions = some r := by
  unfold mprotect
  by_cases hlen : len = 0
  · exact ⟨_, if_pos hlen⟩
  rw [if_neg hlen]
  by_cases hal : addr.addr % 4096 = 0
  · obtain ⟨hcan, htop⟩ := h (by omega) hal
    rw [if_neg (by omega), add_of_canonical hcan]
    simp only
    obtain ⟨⟨r, L'⟩, hp⟩ := mprotectPages_returns hL (by omega) permissions htop
    have hp' : mprotectPages L addr.page (page ⟨_, hcan⟩) permissions = some (r, L') := hp
    rw [hp']
    exact ⟨_, rfl⟩
  · exact ⟨_, if_pos hal⟩

/-! ## `discard_pages` -/

/-- The range stays in the lower half, or the loop ends at a page that is not mapped. -/
lemma discardLoop_returns {dropped : List UserPage} (hB : MapsOk B) (hle : start ≤ stop)
    (h : stop < 2 ^ 35 ∨ 2 ^ 35 ≤ stop ∧ ∃ p, start ≤ p ∧ p < 2 ^ 35 ∧ ∀ y ∈ B, y.1 ≤ p → y.1 + y.2.len ≤ p) :
    ∃ r, discardLoop stop B before start dropped = some r := by
  induction B generalizing before start dropped with
  | nil => exact ⟨_, rfl⟩
  | cons x rest ih =>
    obtain ⟨page, m⟩ := x
    obtain ⟨hm, hlow, hrest, hok⟩ := MapsOk.cons.1 hB
    unfold discardLoop
    by_cases heq : start = stop
    · exact ⟨_, if_pos heq⟩
    rw [if_neg heq]
    by_cases hpage : page ≤ start
    swap
    · exact ⟨_, if_pos hpage⟩
    rw [if_neg (not_not.2 hpage)]
    by_cases hoff : start - page ≤ m.len
    swap
    · exact ⟨_, if_pos hoff⟩
    rw [if_neg (not_not.2 hoff)]
    simp only
    rcases h with hstop | ⟨hstop, p, hp, hplow, hhole⟩
    · rw [pageAdd_of_lower (by omega)]
      exact ih hok (by omega) (.inl hstop)
    have hend := hhole (page, m) (mem_cons_self ..) (by simp only; omega)
    simp only at hend
    have hmin : min (stop - page) m.len = m.len := by omega
    rw [hmin, pageAdd_of_lower (by omega)]
    apply ih hok (by omega)
    exact .inr ⟨hstop, p, hend, hplow, fun y hy => hhole y (mem_cons_of_mem _ hy)⟩

def MappedToTop (L : Mappings) (start : Nat) : Prop := ∀ p, start ≤ p → p < 2 ^ 35 → (resolve L p).isSome

lemma MapsOk.end_le (hL : MapsOk L) {p : Nat} (hp : resolve L p = none) {y : Nat × Mapping} (hy : y ∈ L)
    (hyp : y.1 ≤ p) : y.1 + y.2.len ≤ p := by
  by_contra hlt
  rw [hL.resolve_mem hy hyp (by omega), Mapping.slot_eq_none] at hp
  omega

lemma discardPages_returns (hL : MapsOk L) (hle : start ≤ stop)
    (h : stop < 2 ^ 35 ∨ 2 ^ 35 < start ∨ ¬ MappedToTop L start) : ∃ r, discardPages L start stop = some r := by
  obtain ⟨A, B, hseek, rfl, -⟩ := seekLE_cases hL.sorted start
  simp only [discardPages, hseek]
  by_cases hstop : stop < 2 ^ 35
  · exact discardLoop_returns hL.append_right hle (.inl hstop)
  rcases h with h | h | h
  · exact absurd h hstop
  · -- a range in the upper half begins behind every mapping
    cases B with
    | nil => exact ⟨_, rfl⟩
    | cons x rest =>
      have hlow := hL.lower x (by simp)
      unfold discardLoop
      by_cases heq : start = stop
      · exact ⟨_, if_pos heq⟩
      rw [if_neg heq, if_neg (by omega), if_pos (by omega)]
      exact ⟨_, rfl⟩
  · unfold MappedToTop at h
    push Not at h
    obtain ⟨p, hp, hplow, hsome⟩ := h
    have hnone : resolve (A ++ B) p = none := by simpa using hsome
    apply discardLoop_returns hL.append_right hle
    refine .inr ⟨by omega, p, hp, hplow, fun y hy hyp => ?_⟩
    exact hL.end_le hnone (mem_append_right _ hy) hyp

lemma discard_returns (hL : MapsOk L) (address : VirtAddr)
    (h : address.addr % 4096 = 0 → Canonical (address.addr + len) ∧
      ((address.addr + len) % 4096 = 0 → address.addr + len < 2 ^ 47 ∨ 2 ^ 47 ≤ address.addr ∨
      ¬ MappedToTop L (address.addr / 4096))) :
    ∃ r, discard L address len = some r := by
  unfold discard
  by_cases hal : address.addr % 4096 = 0
  swap
  · exact ⟨_, if_pos hal⟩
  obtain ⟨hcan, htop⟩ := h hal
  rw [if_neg (by omega), add_of_canonical hcan]
  simp only
  by_cases hal' : (address.addr + len) % 4096 = 0
  swap
  · exact ⟨_, if_pos hal'⟩
  rw [if_neg (by omega)]
  have hup := address.canonical
  unfold Canonical at hup
  have hpages : (address.addr + len) / 4096 < 2 ^ 35 ∨ 2 ^ 35 < address.addr / 4096 ∨
      ¬ MappedToTop L (address.addr / 4096) := by
    rcases htop hal' with h | h | h
    · left; omega
    · right; left; omega
    · exact .inr (.inr h)
  obtain ⟨⟨r, L', dropped⟩, hd⟩ := discardPages_returns hL (by omega) hpages
  have hd' : discardPages L address.page (page ⟨_, hcan⟩) = some (r, L', dropped) := hd
  rw [hd']
  exact ⟨_, rfl⟩

/-! ## `is_free` and `find_free_address` -/

lemma isFree_returns (hL : MapsOk L) (addr : VirtAddr) (hlen : 0 < len)
    (hcan : Canonical (addr.addr + (len - 1))) (h : ∀ y ∈ L, y.1 ≤ (addr.addr + (len - 1)) / 4096 → ¬ AtTop y) :
    ∃ r, isFree L addr len = some r := by
  unfold isFree
  rw [if_neg (by omega), add_of_canonical hcan]
  simp only
  cases hg : getLE L (page ⟨_, hcan⟩) with
  | none => exact ⟨_, rfl⟩
  | some x =>
    obtain ⟨hx, hxp⟩ := getLE_mem hg
    have hlow := hL.lower x hx
    have htop := h x hx hxp
    unfold AtTop at htop
    simp only [pageAdd_of_lower (show x.1 + x.2.len < 2 ^ 35 by omega)]
    exact ⟨_, rfl⟩

/-- `size` bytes below `base` that no mapping touches. -/
def HasRoom (L : Mappings) (size base : Nat) : Prop :=
  ∃ a, a + size ≤ base ∧ ∀ y ∈ L, 4096 * (y.1 + y.2.len) ≤ a ∨ a + size ≤ 4096 * y.1

lemma findLoop_returns {size : Nat} {below : Mappings} {last a : Nat}
    (hlow : ∀ y ∈ below, y.1 + y.2.len < 2 ^ 35) (ha : a + size ≤ last)
    (hroom : ∀ y ∈ below, 4096 * (y.1 + y.2.len) ≤ a ∨ a + size ≤ 4096 * y.1) :
    ∃ r, findLoop size below last = some r ∧ size ≤ r := by
  induction below generalizing last with
  | nil => exact ⟨last, rfl, by omega⟩
  | cons x below ih =>
    obtain ⟨page, m⟩ := x
    obtain ⟨hx, hlow⟩ := forall_mem_cons.1 hlow
    obtain ⟨hxa, hroom⟩ := forall_mem_cons.1 hroom
    simp only at hx hxa
    unfold findLoop
    rw [pageAdd_of_lower hx]
    simp only
    by_cases hfit : 4096 * (page + m.len) ≤ last ∧ size ≤ last - 4096 * (page + m.len)
    · exact ⟨last, if_pos hfit, by omega⟩
    rw [if_neg hfit]
    exact ih hlow (by omega) hroom

lemma findFreeAddress_returns (hL : MapsOk L) {abi : Abi} (hlen : 0 < len)
    (hroom : HasRoom L (alignUp len + 4096 * 2) abi.dynamicBaseAddress)
    (htop : ∀ y ∈ L, y.1 ≤ abi.dynamicBaseAddress / 4096 → ¬ AtTop y) :
    ∃ addr, findFreeAddress L len abi = some addr := by
  obtain ⟨-, hblt⟩ := dynamicBaseAddress_bounds abi
  obtain ⟨a, ha, hfree⟩ := hroom
  have hge := (alignUp_ge len).1
  have hmem : ∀ y ∈ (L.filter fun x => x.1 ≤ abi.dynamicBaseAddress / 4096).reverse,
      y ∈ L ∧ y.1 ≤ abi.dynamicBaseAddress / 4096 := fun y hy => by
    obtain ⟨hy, hle⟩ := mem_filter.1 (mem_reverse.1 hy)
    exact ⟨hy, by simpa using hle⟩
  obtain ⟨last, hloop, hsize⟩ := findLoop_returns (fun y hy => by
      obtain ⟨hyL, hle⟩ := hmem y hy
      have := hL.lower y hyL
      have := htop y hyL hle
      unfold AtTop at this
      omega) ha (fun y hy => hfree y (hmem y hy).1)
  obtain ⟨hle, -, -⟩ := findLoop_spec (pairwise_reverse.2 (hL.disjoint.filter _))
    (fun x hx => by have := (hmem x hx).2; omega) (dynamicBaseAddress_bounds abi).1 hloop
  unfold findFreeAddress
  rw [if_neg (by omega)]
  simp only [hloop, if_pos hsize]
  rw [new_of_lower (by omega), Option.bind_some, add_of_lower (by simp only; omega)]
  exact ⟨_, rfl⟩

/-! ## `mmap` and `set_brk_end` -/

/-- The heap has room for the slots of the range. -/
def SlotsFit (addr len : Nat) : Prop := slotBytes ((addr + (len - 1)) / 4096 - addr / 4096 + 1) ≤ heapLimit

instance (addr len : Nat) : Decidable (SlotsFit addr len) := inferInstanceAs (Decidable (_ ≤ _))

/-- A fixed range stays in the lower half and unmapping it stops at no gap, a dynamic one has room. -/
def MmapFits (L : Mappings) (len : Nat) : Bias → Prop
  | .fixed addr => addr.addr + len < 2 ^ 47 ∧ NoGap L addr.addr len ∧ SlotsFit addr.addr len
  | .dynamic abi => HasRoom L (alignUp len + 4096 * 2) abi.dynamicBaseAddress ∧
      (∀ y ∈ L, y.1 ≤ abi.dynamicBaseAddress / 4096 → ¬ AtTop y) ∧ SlotsFit 0 len

variable {addr : VirtAddr}

section

variable (hL : MapsOk L)
include hL

lemma MmapFits.address (hlen : 0 < len) (h : MmapFits L len bias) :
    ∃ addr : VirtAddr, (bias = .fixed addr ∨ ∃ abi, bias = .dynamic abi ∧ findFreeAddress L len abi = some addr) ∧
      addr.addr + len < 2 ^ 47 ∧ NoGap L addr.addr len ∧ SlotsFit addr.addr len := by
  cases bias with
  | fixed addr => exact ⟨addr, .inl rfl, h⟩
  | dynamic abi =>
    obtain ⟨addr, hfind⟩ := findFreeAddress_returns hL hlen h.1 h.2.1
    obtain ⟨-, hal, hlt, -⟩ := findFreeAddress_spec hL hfind
    have := (dynamicBaseAddress_bounds abi).2
    have := (alignUp_ge len).1
    refine ⟨addr, .inr ⟨abi, rfl, hfind⟩, by omega, ?_, ?_⟩
    · exact (findFreeAddress_clear hL hfind).1.noGap hL
    · -- the address found is that of a page, so the range has as many as one at 0
      have hslots := h.2.2
      unfold SlotsFit slotBytes at hslots ⊢
      omega

lemma mmap_returns (hlen : 0 < len) (permissions : MemoryPermissions)
    (backing : Backing) (pageOffset : Nat) (shared : Bool) (h : MmapFits L len bias) :
    ∃ addr L' eff, mmap L bias len permissions backing pageOffset shared = some (addr, L', eff) ∧ MapsOk L' := by
  obtain ⟨addr, haddr, hlow, hgap, hslots⟩ := h.address hL hlen
  obtain ⟨⟨L1, eff1⟩, hun⟩ := unmap_returns hL addr len fun _ => .inl (by omega)
  have hlast : (addr.add len).bind (fun stop => stop.sub 1) = some ⟨addr.addr + len - 1, .inl (by omega)⟩ := by
    rw [add_of_lower hlow, Option.bind_some]
    unfold sub
    rw [if_pos (show 1 ≤ addr.addr + len by omega)]
    exact new_of_lower (show addr.addr + len - 1 < 2 ^ 47 by omega)
  have hheap : ¬ heapLimit < slotBytes ((addr.addr + len - 1) / 4096 - addr.addr / 4096 + 1) := by
    rw [Nat.add_sub_assoc hlen]
    exact Nat.not_lt.2 hslots
  have hm : ∃ r, mmap L bias len permissions backing pageOffset shared = some (addr, r) := by
    unfold mmap
    rw [if_neg (by omega)]
    rcases haddr with rfl | ⟨abi, rfl, hfind⟩
    · simp only [hlast, hun, page]
      exact ⟨_, if_neg hheap⟩
    · simp only [hfind, hlast, hun, page]
      exact ⟨_, if_neg hheap⟩
  obtain ⟨⟨L', eff⟩, hm⟩ := hm
  exact ⟨addr, L', eff, hm, (mmap_refines hL hlow.le hgap hm).1⟩

lemma unmap_mapsOk (h : unmap L addr len = some (L', eff)) : MapsOk L' := by
  rcases unmap_eq_some h with ⟨-, rfl, -⟩ | ⟨-, gone, hun, -⟩
  · exact hL
  have hle := addr.page_le_last len
  have hspec := unmapPages_spec hle hL.sorted hL.nonempty hun
  exact hL.of_parts hspec.nonempty (hspec.disjoint hL.disjoint) hspec.parts

lemma mprotect_mapsOk {permissions : MemoryPermissions} (h : mprotect L addr len permissions = some (r, L', eff)) :
    MapsOk L' := by
  rcases mprotect_eq_some h with ⟨-, -, rfl, -⟩ | ⟨-, rfl, -⟩ | ⟨-, -, -, hp⟩
  · exact hL
  · exact hL
  rcases mprotectPages_spec hL.sorted hL.nonempty hp with ⟨-, hspec⟩ | ⟨-, rfl⟩
  · exact hL.of_parts hspec.nonempty (hspec.disjoint hL.disjoint) hspec.parts
  · exact hL

lemma discard_mapsOk {address : VirtAddr}
    (h : discard L address len = some (r, L', eff)) : MapsOk L' := by
  rcases discard_eq_some h with ⟨-, rfl, -⟩ | ⟨-, -, dropped, hd, -⟩
  · exact hL
  have hle : address.page ≤ (address.addr + len) / 4096 := by unfold page; omega
  exact hL.of_shape (discardPages_spec hle hL.sorted hd).shape

end

structure StateOk (s : VirtualMemoryState) : Prop where
  maps : MapsOk s.mappings
  brkLow : s.brkEnd.addr < 2 ^ 47

/-- When the area grows, the address before its end exists, no mapping at the top begins below it, and the area is
not free if it reaches the upper half or has too many slots. -/
def BrkFits (s : VirtualMemoryState) (brkEnd : Nat) : Prop :=
  s.brkEnd.addr < brkEnd → Canonical (brkEnd - 1) ∧ (∀ y ∈ s.mappings, y.1 ≤ (brkEnd - 1) / 4096 → ¬ AtTop y) ∧
    (brkEnd < 2 ^ 47 ∧ SlotsFit s.brkEnd.addr (brkEnd - s.brkEnd.addr) ∨
      isFree s.mappings s.brkEnd (brkEnd - s.brkEnd.addr) ≠ some true)

lemma setBrkEnd_returns {s : VirtualMemoryState} (hs : StateOk s) {brkEnd : VirtAddr} (h : BrkFits s brkEnd.addr) :
    ∃ r s' eff, setBrkEnd s brkEnd = some (r, s', eff) ∧ StateOk s' := by
  unfold setBrkEnd
  by_cases hgt : s.brkEnd.addr < brkEnd.addr
  · obtain ⟨hcan, htop, hlow⟩ := h hgt
    have hlast : s.brkEnd.addr + (brkEnd.addr - s.brkEnd.addr - 1) = brkEnd.addr - 1 := by omega
    have hlen : 0 < brkEnd.addr - s.brkEnd.addr := by omega
    obtain ⟨free, hfree⟩ := isFree_returns hs.maps s.brkEnd hlen (hlast ▸ hcan) (hlast ▸ htop)
    rw [if_pos hgt, hfree]
    cases free with
    | false => exact ⟨_, _, _, rfl, hs⟩
    | true =>
      obtain ⟨hlow', hslots⟩ := hlow.resolve_right fun h => h hfree
      have hclear := isFree_clear hs.maps (by omega) hfree
      have hfits : MmapFits s.mappings (brkEnd.addr - s.brkEnd.addr) (.fixed s.brkEnd) :=
        ⟨by omega, hclear.noGap hs.maps, hslots⟩
      obtain ⟨addr, L, eff, hmm, hL⟩ := mmap_returns hs.maps (by omega) ⟨false, true, true⟩ .zero 0 false hfits
      simp only [mmapZero, hmm]
      exact ⟨_, _, _, rfl, hL, hlow'⟩
  rw [if_neg hgt]
  have hlow : brkEnd.addr < 2 ^ 47 := by have := hs.brkLow; omega
  by_cases heq : s.brkEnd.addr = brkEnd.addr
  · rw [if_pos heq]
    exact ⟨_, _, _, rfl, hs.maps, hlow⟩
  rw [if_neg heq]
  have hbrk := hs.brkLow
  obtain ⟨⟨L, eff⟩, hun⟩ := unmap_returns hs.maps brkEnd (s.brkEnd.addr - brkEnd.addr)
    fun _ => .inl (by omega)
  rw [hun]
  exact ⟨_, _, _, rfl, unmap_mapsOk hs.maps hun, hlow⟩

end Mushroom.L2
