import Mushroom.L2Memory.TableLedger

/-!
# Accesses to the entries keep the balance

One lemma for each kind of access: a count goes up or down, an entry is marked
as being initialized, its table is written, it becomes usable, it is taken out,
an entry of level 1 changes. Each says what has to change in the books at the
same time.
-/
namespace Mushroom.L2.PageTable
open List Finset Ledger Key Memory Place

variable {m m' : Memory} {b b' : Key → Nat} {p q : Place} {x : Idx} {w n : Nat}

def Key.place? : Key → Option Place
  | guard p | inc p _ | dec p => some p
  | init _ | frame _ => none

lemma one_self (k : Key) : one k k = 1 := if_pos rfl

lemma one_ne {k k' : Key} (h : k' ≠ k) : one k k' = 0 := if_neg h

lemma sum_one_inc (p : Place) (x : Idx) : ∑ y, one (.inc p x) (.inc p y) = 1 := by
  have hkey : ∀ y, one (.inc p x) (.inc p y) = if y = x then 1 else 0 := by
    intro y
    by_cases hy : y = x
    · subst hy
      rw [one_self, if_pos rfl]
    · rw [one_ne fun hk => hy (inc.inj hk).2, if_neg hy]
  simp [hkey]

lemma nz_of_ne (h : w ≠ 0) : nz w = 1 := if_neg h

lemma ready_of_ne (h : ready w) : w ≠ 0 := ne_zero_of_present (ready_iff.1 h).1

lemma Memory.set_entry (m : Memory) (p : Place) (w : Nat) (q : Place) :
    (m.set p w).entry q = if q = p then w else m.entry q := Function.update_apply ..

/-! ## What the balance says -/

section

variable (h : Refs m b)

include h

/-- Whoever has something of a table keeps it usable. -/
lemma Refs.usable (hg : 0 < b (.guard p)) : Usable m p := by
  by_contra hno
  have := (h.quiet p hno).1
  omega

lemma Refs.linked_of_init (hi : 0 < b (.init p)) : Linked m p ∧ p.path.length ≤ 2 := by
  by_contra hno
  have := h.fresh p hno
  omega

lemma Refs.initializing (hi : 0 < b (.init p)) : initializing (m.entry p) := by
  obtain ⟨hl, hlen⟩ := h.linked_of_init hi
  have hbit := h.init p hl hlen
  by_contra hno
  rw [Bool.not_eq_true] at hno
  rw [hno, Bool.toNat_false] at hbit
  omega

/-- A table that is being initialized is not used, and neither is any below it. -/
lemma Refs.not_usable_of_init (hi : 0 < b (.init p)) {l : List Idx} (hl : p.path <:+ l) : ¬Usable m ⟨p.root, l⟩ := by
  intro hu
  have hready := (ready_iff.1 (hu.all p.path hl)).2
  rw [h.initializing hi] at hready
  cases hready

/-- The entries that are not counted yet are there. -/
lemma Refs.sum_inc_le (p : Place) : ∑ x, b (.inc p x) ≤ m.entries p := total_mono b (inc p) fun x => h.owed p x

lemma Refs.of_entry (he : m'.entry = m.entry) (hb : ∀ k, (∀ f, k ≠ .frame f) → b' k = b k) : Refs m' b' := by
  have hU := usable_of_entry he
  have hL := linked_congr hU
  have hg : ∀ q, b' (.guard q) = b (.guard q) := fun q => hb _ fun _ => nofun
  have hd : ∀ q, b' (.dec q) = b (.dec q) := fun q => hb _ fun _ => nofun
  have hi : ∀ q x, b' (.inc q x) = b (.inc q x) := fun q x => hb _ fun _ => nofun
  have hn : ∀ q, b' (.init q) = b (.init q) := fun q => hb _ fun _ => nofun
  refine ⟨fun q hq hs => ?_, fun q hq => ?_, fun q x => ?_, fun q hq hne => ?_, fun j => ?_, fun q hq hlen => ?_,
    fun q hq => ?_⟩
  · rw [entries, he, hg, hd, sum_congr rfl fun x _ => hi q x]
    exact h.balance q ((hU q).1 hq) hs
  · obtain ⟨hg0, hd0, hi0⟩ := h.quiet q (mt (hU q).2 hq)
    exact ⟨(hg q).trans hg0, (hd q).trans hd0, fun x => (hi q x).trans (hi0 x)⟩
  · rw [he, hi]
    exact h.owed q x
  · rw [he] at hne ⊢
    exact h.shape q ((hL q).1 hq) hne
  · rw [he]
    exact h.kernel j
  · rw [he, hn]
    exact h.init q ((hL q).1 hq) hlen
  · rw [hn]
    exact h.fresh q fun hno => hq ⟨(hL q).2 hno.1, hno.2⟩

end

/-! ## Counts -/

lemma other_places (hsame : ∀ k, k.place? ≠ some p → b' k = b k) (q : Place) (hq : q ≠ p) (k : Key)
    (hk : k.place? = some q) : b' k = b k := hsame k fun he => hq (Option.some.inj (hk.symm.trans he))

lemma Refs.recount (h : Refs m b) (hu : Usable m p) (hsame : ∀ k, k.place? ≠ some p → b' k = b k)
    (hinc : ∀ x, b' (.inc p x) ≤ b (.inc p x)) (hn : n < 2 ^ 10)
    (hbal : p.isStaticEntry = false → n + 1 + ∑ x, b' (.inc p x) = b' (.guard p) + m.entries p + b' (.dec p)) :
    Refs (m.set p (setRefCount (m.entry p) n)) b' := by
  have hr : ready (setRefCount (m.entry p) n) := ready_setRefCount.trans hu.ready_self
  have hready : ∀ q, ready ((m.set p (setRefCount (m.entry p) n)).entry q) = ready (m.entry q) := by
    intro q
    by_cases hq : q = p
    · subst hq
      rw [set_self, hr, hu.ready_self]
    · rw [set_ne hq]
  have hnz : ∀ q, nz ((m.set p (setRefCount (m.entry p) n)).entry q) = nz (m.entry q) := by
    intro q
    by_cases hq : q = p
    · subst hq
      rw [set_self, nz_of_ne (ready_of_ne hr), nz_of_ne (ready_of_ne hu.ready_self)]
    · rw [set_ne hq]
  have hU := usable_congr fun q _ => hready q
  have hL := linked_congr hU
  have hother := other_places hsame
  refine ⟨fun q hq hs => ?_, fun q hq => ?_, fun q x => ?_, fun q hq hne => ?_, fun i => ?_, fun q hq hlen => ?_,
    fun q hq => ?_⟩
  · rw [entries_congr fun x => hnz (q.child x)]
    by_cases he : q = p
    · subst he
      rw [set_self, refCount_setRefCount hn]
      exact hbal hs
    · rw [set_ne he, hother q he _ rfl, hother q he (.dec q) rfl, sum_congr rfl fun x _ => hother q he (.inc q x) rfl]
      exact h.balance q ((hU q).1 hq) hs
  · have hquiet := h.quiet q
    grind [place?]
  · have howed := h.owed q x
    rcases eq_or_ne q p with rfl | hqp <;> grind [place?]
  · have hshape := h.shape q
    rcases eq_or_ne q p with rfl | hqp <;> grind [set_entry, ready_iff]
  · rw [hready]
    exact h.kernel i
  · have hinit := h.init q
    rcases eq_or_ne q p with rfl | hqp <;> grind [place?, set_entry, ready_iff]
  · have hfresh := h.fresh q
    grind [place?]

lemma Refs.static (h : Refs m b) (hs : p.isStaticEntry) (hsame : ∀ k, k.place? ≠ some p → b' k = b k)
    (hinc : ∀ x, b' (.inc p x) ≤ b (.inc p x)) : Refs m b' := by
  have hp : ∃ i, p = ⟨.kernel i, []⟩ := by
    rcases p with ⟨k | ⟨t, k⟩, l⟩ <;> cases l <;> first | exact ⟨_, rfl⟩ | cases hs
  obtain ⟨i, rfl⟩ := hp
  have hother := other_places hsame
  refine ⟨fun q hq hq' => ?_, fun q hq => ?_, fun q x => ?_, h.shape, h.kernel, fun q hq hlen => ?_, fun q hq => ?_⟩
  · have he : q ≠ ⟨.kernel i, []⟩ := fun he => by rw [he] at hq'; cases hq'
    rw [hother q he _ rfl, hother q he (.dec q) rfl, sum_congr rfl fun x _ => hother q he (.inc q x) rfl]
    exact h.balance q hq hq'
  · have he : q ≠ ⟨.kernel i, []⟩ := by
      rintro rfl
      exact hq (usable_iff.2 ⟨trivial, Nat.zero_le _, h.kernel i⟩)
    obtain ⟨hg, hd, hi⟩ := h.quiet q hq
    exact ⟨(hother q he _ rfl).trans hg, (hother q he _ rfl).trans hd, fun x => (hother q he _ rfl).trans (hi x)⟩
  · by_cases he : q = ⟨.kernel i, []⟩
    · subst he
      exact (hinc x).trans (h.owed _ x)
    · rw [hother q he _ rfl]
      exact h.owed q x
  · rw [hsame _ (by simp [place?])]
    exact h.init q hq hlen
  · rw [hsame _ (by simp [place?])]
    exact h.fresh q hq

/-! ## Initialization -/

/-- The entry's parent, if it has one, is told by one key. -/
def ParentKey (p : Place) (key : Place → Idx → Key) (i : Key → Nat) : Prop :=
  p.path = [] ∧ (∀ k, i k = 0) ∨ ∃ q x, p = q.child x ∧ ∀ k, i k = one (key q x) k

lemma Stack.parentInc_key (st : Stack n) : ParentKey st.place .inc st.parentInc := by
  cases st with
  | top k job => exact .inl ⟨rfl, fun _ => rfl⟩
  | push x rest below => exact .inr ⟨below.place, x, rfl, fun _ => rfl⟩

lemma Stack.parentDec_key (st : Stack n) : ParentKey st.place (fun q _ => .dec q) st.parentDec := by
  cases st with
  | top k job => exact .inl ⟨rfl, fun _ => rfl⟩
  | push x rest below => exact .inr ⟨below.place, x, rfl, fun _ => rfl⟩

variable {key : Place → Idx → Key} {i : Key → Nat}

lemma ParentKey.eq_zero (h : ParentKey p key i) {k : Key} (hk : ∀ q x, p = q.child x → k ≠ key q x) : i k = 0 := by
  rcases h with ⟨-, hz⟩ | ⟨q, x, hp, hi⟩
  · exact hz k
  · rw [hi, one_ne (hk q x hp)]

lemma ParentKey.eq_one (h : ParentKey (q.child x) key i) (k : Key) : i k = one (key q x) k := by
  rcases h with ⟨hp, -⟩ | ⟨q', x', hp, hi⟩
  · cases hp
  obtain ⟨rfl, rfl⟩ := child_inj.1 hp
  exact hi k

lemma Refs.mark (h : Refs m b) (hl : Linked m p) (hlen : p.path.length ≤ 2) (hzero : m.entry p = 0)
    {i : Key → Nat} (hi : ParentKey p .inc i) (hb : ∀ k, b' k = b k + one (.init p) k + i k) :
    Refs (m.set p (2 ^ 9)) b' := by
  have hready : ∀ q, ready ((m.set p (2 ^ 9)).entry q) = ready (m.entry q) := by
    intro q
    by_cases hq : q = p
    · subst hq
      rw [set_self, hzero]
      rfl
    · rw [set_ne hq]
  have hU := usable_congr fun q _ => hready q
  have hL := linked_congr hU
  have hi0 : ∀ k, (∀ q x, p = q.child x → k ≠ .inc q x) → i k = 0 := fun k => hi.eq_zero
  have hk : ∀ k, (∀ q x, p = q.child x → k ≠ .inc q x) → (∀ q, k ≠ .init q) → b' k = b k := by
    intro k hinc hinit
    rw [hb, hi0 k hinc, one_ne (hinit p)]
    rfl
  have hg : ∀ q, b' (.guard q) = b (.guard q) := fun q => hk _ (fun _ _ _ => by simp) fun _ => by simp
  have hd : ∀ q, b' (.dec q) = b (.dec q) := fun q => hk _ (fun _ _ _ => by simp) fun _ => by simp
  have hinc : ∀ q x, p ≠ q.child x → b' (.inc q x) = b (.inc q x) := by
    refine fun q x hne => hk _ (fun q' x' hp hkey => ?_) fun _ => by simp
    cases hkey
    exact hne hp
  have hinit : ∀ q, b' (.init q) = b (.init q) + one (.init p) (.init q) := by
    intro q
    rw [hb, hi0 (.init q) fun _ _ _ => by simp, Nat.add_zero]
  refine ⟨fun q hq hs => ?_, fun q hq => ?_, fun q x => ?_, fun q hq hne => ?_, fun j => ?_, fun q hq hqlen => ?_,
    fun q hq => ?_⟩
  · have hqp : q ≠ p := by
      rintro rfl
      have hr := ((hU q).1 hq).ready_self
      rw [hzero] at hr
      cases hr
    have hbal := h.balance q ((hU q).1 hq) hs
    rw [set_ne hqp, hg, hd]
    by_cases hc : ∃ x, p = q.child x
    · -- one entry more, and it is not counted
      obtain ⟨x, rfl⟩ := hc
      have hent := entries_set_child (m := m) (p := q) (x := x) (2 ^ 9)
      have hsum : ∑ y, b' (.inc q y) = ∑ y, b (.inc q y) + 1 := by
        rw [← sum_one_inc q x, ← sum_add_distrib]
        refine sum_congr rfl fun y _ => ?_
        rw [hb, hi.eq_one, one_ne (by simp : inc q y ≠ .init (q.child x))]
        omega
      rw [hzero, nz_of_ne (by decide : 2 ^ 9 ≠ 0)] at hent
      simp only [nz, if_true] at hent
      omega
    · have hc : ∀ x, p ≠ q.child x := fun x hp => hc ⟨x, hp⟩
      rw [entries_set_other hc, sum_congr rfl fun x _ => hinc q x (hc x)]
      exact hbal
  · have hold := h.quiet q (mt (hU q).2 hq)
    have hne : ∀ x, p ≠ q.child x := by
      rintro x rfl
      exact hq ((hU q).2 hl)
    grind
  · by_cases hc : p = q.child x
    · subst hc
      have ho := h.owed q x
      rw [hzero] at ho
      rw [set_self, hb, hi.eq_one, one_self, one_ne (by simp : inc q x ≠ .init (q.child x)),
        nz_of_ne (by decide : 2 ^ 9 ≠ 0)]
      simp only [nz, if_true] at ho
      omega
    · rw [set_ne (Ne.symm hc), hinc q x hc]
      exact h.owed q x
  · have hold := h.shape q ((hL q).1 hq)
    have hmark : PageTable.initializing (2 ^ 9) := rfl
    rw [set_entry] at hne ⊢
    grind
  · rw [hready]
    exact h.kernel j
  · rw [hinit, h.init q ((hL q).1 hq) hqlen]
    by_cases he : q = p
    · subst he
      rw [set_self, hzero, one_self]
      rfl
    · rw [set_ne he, one_ne fun hkey => he (init.inj hkey), Nat.add_zero]
  · have hno : ¬(Linked m q ∧ q.path.length ≤ 2) := fun hq' => hq ⟨(hL q).2 hq'.1, hq'.2⟩
    have he : q ≠ p := by
      rintro rfl
      exact hno ⟨hl, hlen⟩
    rw [hinit, h.fresh q hno, one_ne fun hkey => he (init.inj hkey)]

lemma exists_cons_suffix {α : Type} {l l' : List α} (h : l <:+ l') (hne : l ≠ l') : ∃ y, y :: l <:+ l' := by
  obtain ⟨t, rfl⟩ := h
  rcases eq_nil_or_concat t with rfl | ⟨t, y, rfl⟩
  · exact absurd rfl hne
  · exact ⟨y, t, by simp⟩

lemma usable_scratch (h : Refs m b) (hi : 0 < b (.init p)) (hp : initializing (m'.entry p))
    (he : ∀ q, q ≠ p → (∀ x, q ≠ p.child x) → m'.entry q = m.entry q) (q : Place) : Usable m' q ↔ Usable m q := by
  by_cases hq : q.root = p.root ∧ p.path <:+ q.path
  · have hno : ∀ {m1 : Memory}, PageTable.initializing (m1.entry p) → ¬Usable m1 q := by
      intro m1 hinit hu
      have hready := (ready_iff.1 (hu.all p.path hq.2)).2
      rw [hq.1, hinit] at hready
      cases hready
    exact ⟨fun hu => absurd hu (hno hp), fun hu => absurd hu (hno (h.initializing hi))⟩
  have hsame : ∀ l, l <:+ q.path → m'.entry ⟨q.root, l⟩ = m.entry ⟨q.root, l⟩ := by
    refine fun l hl => he _ (fun hk => hq ?_) fun x hk => hq ?_
    · subst hk
      exact ⟨rfl, hl⟩
    · obtain ⟨hroot, rfl⟩ := mk.inj hk
      exact ⟨hroot, (suffix_cons x p.path).trans hl⟩
  exact ⟨fun hu => ⟨hu.short, fun l hl => hsame l hl ▸ hu.all l hl⟩,
    fun hu => ⟨hu.short, fun l hl => (hsame l hl).symm ▸ hu.all l hl⟩⟩

/-- What is written into a table that is being initialized nobody sees. -/
lemma Refs.scratch (h : Refs m b) (hi : 0 < b (.init p)) (hp : PageTable.initializing (m'.entry p))
    (he : ∀ q, q ≠ p → (∀ x, q ≠ p.child x) → m'.entry q = m.entry q) : Refs m' b := by
  have hunder : ∀ q : Place, q.root = p.root → p.path <:+ q.path → ¬Usable m q := by
    rintro ⟨k, l⟩ rfl hl
    exact h.not_usable_of_init hi hl
  have hU := usable_scratch h hi hp he
  have hL := linked_congr hU
  have hnotp : ¬Usable m p := hunder p rfl (suffix_refl _)
  obtain ⟨hlp, hlen⟩ := h.linked_of_init hi
  have hinit := h.initializing hi
  -- the entry itself stays non-zero
  have hnz : ∀ q, (∀ x, q ≠ p.child x) → nz (m'.entry q) = nz (m.entry q) := by
    intro q hq
    by_cases hqp : q = p
    · subst hqp
      rw [nz_of_ne (ne_zero_of_initializing hp), nz_of_ne (ne_zero_of_initializing hinit)]
    · rw [he q hqp hq]
  refine ⟨fun q hq hs => ?_, fun q hq => h.quiet q (mt (hU q).2 hq), fun q x => ?_, fun q hq hne => ?_, fun j => ?_,
    fun q hq hqlen => ?_, fun q hq => h.fresh q fun hno => hq ⟨(hL q).2 hno.1, hno.2⟩⟩
  · have hq := (hU q).1 hq
    have hqp : q ≠ p := fun hqp => hnotp (hqp ▸ hq)
    have hqc : ∀ x, q ≠ p.child x := by
      rintro x rfl
      exact hunder (p.child x) rfl (suffix_cons x p.path) hq
    rw [he q hqp hqc, entries_congr fun x => hnz (q.child x) fun y hy => hqp (child_inj.1 hy).1]
    exact h.balance q hq hs
  · by_cases hqp : q = p
    · subst hqp
      exact ((h.quiet q hnotp).2.2 x).le.trans (Nat.zero_le _)
    · rw [hnz _ fun y hy => hqp (child_inj.1 hy).1]
      exact h.owed q x
  · by_cases hqp : q = p
    · subst hqp
      exact .inr ⟨hlen, hp⟩
    have hqc : ∀ x, q ≠ p.child x := by
      rintro x rfl
      exact hnotp ((hL _).1 hq)
    rw [he q hqp hqc] at hne ⊢
    exact h.shape q ((hL q).1 hq) hne
  · have hjp : (⟨.kernel j, []⟩ : Place) ≠ p := by
      rintro rfl
      exact hnotp (usable_iff.2 ⟨trivial, hlen, h.kernel j⟩)
    rw [he _ hjp fun x hx => by cases (mk.inj hx).2]
    exact h.kernel j
  have hq := (hL q).1 hq
  rw [h.init q hq hqlen]
  by_cases hqp : q = p
  · subst hqp
    rw [hp, hinit]
  have hqc : ∀ x, q ≠ p.child x := by
    rintro x rfl
    exact hnotp hq
  rw [he q hqp hqc]

lemma usable_publish (hl : Linked m p) (hlen : p.path.length ≤ 2) (hw : ready w)
    (hno : ¬Usable m p) (hz : ∀ x, m.entry (p.child x) = 0) (q : Place) :
    Usable (m.set p w) q ↔ Usable m q ∨ q = p := by
  by_cases hq : q.root = p.root ∧ p.path <:+ q.path
  · by_cases he : q = p
    · subst he
      refine ⟨fun _ => .inr rfl, fun _ => ⟨hlen, fun l hql => ?_⟩⟩
      rcases q with ⟨k, path⟩
      by_cases hpl : l = path
      · subst hpl
        rw [set_self]
        exact hw
      cases path with
      | nil => exact absurd (suffix_nil.1 hql) hpl
      | cons x path =>
        rw [set_ne fun hk => hpl (mk.inj hk).2]
        exact hl.all l ((suffix_cons_iff.1 hql).resolve_left hpl)
    -- a table below has an entry of the empty table above it
    have hpath : p.path ≠ q.path := by
      intro hpath
      apply he
      rcases p with ⟨k, path⟩
      rcases q with ⟨k', path'⟩
      cases hq.1
      cases hpath
      rfl
    obtain ⟨y, hy⟩ := exists_cons_suffix hq.2 hpath
    have hchild : (⟨q.root, y :: p.path⟩ : Place) = p.child y := by rw [hq.1]; rfl
    refine ⟨fun hu => ?_, fun hu => ?_⟩
    · have hr := hu.all _ hy
      rw [hchild, set_ne (p.ne_child_self y).symm, hz] at hr
      cases hr
    rcases hu with hu | hu
    · have hr := hu.all _ hy
      rw [hchild, hz] at hr
      cases hr
    · exact absurd hu he
  · have hsame : ∀ l, l <:+ q.path → (m.set p w).entry ⟨q.root, l⟩ = m.entry ⟨q.root, l⟩ := by
      refine fun l hql => set_ne fun hk => hq ?_
      subst hk
      exact ⟨rfl, hql⟩
    have hqp : q ≠ p := by
      rintro rfl
      exact hq ⟨rfl, suffix_refl _⟩
    exact ⟨fun hu => .inl ⟨hu.short, fun l hl => hsame l hl ▸ hu.all l hl⟩, fun hu =>
      ⟨(hu.resolve_right hqp).short, fun l hl => (hsame l hl).symm ▸ (hu.resolve_right hqp).all l hl⟩⟩

lemma Refs.publish (h : Refs m b) (hi : 0 < b (.init p)) (hz : ∀ x, m.entry (p.child x) = 0)
    (hw : ready w) (hcount : refCount w = 0)
    (hb : ∀ k, (∀ f, k ≠ .frame f) → b' k + one (.init p) k = b k + one (.guard p) k) : Refs (m.set p w) b' := by
  obtain ⟨hl, hlen⟩ := h.linked_of_init hi
  have hinit := h.initializing hi
  have hno : ¬Usable m p := h.not_usable_of_init hi (suffix_refl _)
  have hU := usable_publish hl hlen hw hno hz
  have hL : ∀ q, Linked (m.set p w) q ↔ Linked m q ∨ ∃ x, q = p.child x := by
    rintro ⟨k, path⟩
    cases path with
    | nil => exact ⟨fun _ => .inl trivial, fun _ => trivial⟩
    | cons x path =>
      refine (hU ⟨k, path⟩).trans (or_congr_right ⟨fun he => ⟨x, he ▸ rfl⟩, fun hx => ?_⟩)
      obtain ⟨y, hy⟩ := hx
      have hchild : child ⟨k, path⟩ x = p.child y := hy
      exact (child_inj.1 hchild).1
  have hnz : ∀ q, nz ((m.set p w).entry q) = nz (m.entry q) := by
    intro q
    by_cases hq : q = p
    · subst hq
      rw [set_self, nz_of_ne (ready_of_ne hw), nz_of_ne (ne_zero_of_initializing hinit)]
    · rw [set_ne hq]
  have hk : ∀ k, (∀ f, k ≠ .frame f) → k ≠ .init p → k ≠ .guard p → b' k = b k := by
    intro k hf hi hg
    have := hb k hf
    rwa [one_ne hi, one_ne hg] at this
  have hg : ∀ q, q ≠ p → b' (.guard q) = b (.guard q) := fun q hq =>
    hk _ (fun _ => nofun) nofun fun he => hq (guard.inj he)
  have hd : ∀ q, b' (.dec q) = b (.dec q) := fun q => hk _ (fun _ => nofun) nofun nofun
  have hinc : ∀ q x, b' (.inc q x) = b (.inc q x) := fun q x => hk _ (fun _ => nofun) nofun nofun
  have hinit' : ∀ q, q ≠ p → b' (.init q) = b (.init q) := fun q hq =>
    hk _ (fun _ => nofun) (fun he => hq (init.inj he)) nofun
  have hquiet := h.quiet p hno
  refine ⟨fun q hq hs => ?_, fun q hq => ?_, fun q x => ?_, fun q hq hne => ?_, fun j => ?_, fun q hq hqlen => ?_,
    fun q hq => ?_⟩
  · rw [entries_congr fun x => hnz (q.child x), hd, sum_congr rfl fun x _ => hinc q x]
    rcases (hU q).1 hq with hq | rfl
    · have hqp : q ≠ p := fun he => hno (he ▸ hq)
      rw [set_ne hqp, hg q hqp]
      exact h.balance q hq hs
    -- the table is empty and the new guard is all that it has
    have hbg := hb (.guard q) fun _ => nofun
    rw [one_self, one_ne (by nofun), hquiet.1] at hbg
    rw [set_self, hcount, entries_eq_zero.2 hz, hquiet.2.1, sum_congr rfl fun x _ => hquiet.2.2 x, sum_const_zero]
    omega
  · have hold := h.quiet q
    grind
  · rw [hnz, hinc]
    exact h.owed q x
  · have hold := h.shape q
    rw [set_entry] at hne ⊢
    grind [ready_iff]
  · have hold := h.kernel j
    rw [set_entry]
    grind
  · by_cases hqp : q = p
    · subst hqp
      have hbi := hb (.init q) fun _ => nofun
      rw [one_self, one_ne (by nofun), h.init q hl hlen, hinit] at hbi
      rw [set_self, (ready_iff.1 hw).2]
      exact Nat.add_right_cancel hbi
    · rw [set_ne hqp, hinit' q hqp]
      rcases (hL q).1 hq with hq | ⟨x, rfl⟩
      · exact h.init q hq hqlen
      rw [hz]
      exact h.fresh _ fun hlx => hno hlx.1
  · have hold := h.fresh q
    grind

/-! ## An empty table is taken out -/

lemma usable_free (hu : Usable m p) (hz : ∀ x, m.entry (p.child x) = 0) (q : Place) :
    Usable (m.set p 0) q ↔ Usable m q ∧ q ≠ p := by
  have hno : ¬Usable (m.set p 0) p := by
    intro h
    have hr := h.ready_self
    rw [Memory.set_self] at hr
    cases hr
  obtain ⟨hl, hlen, hr⟩ := usable_iff.1 hu
  have hl' : Linked (m.set p 0) p := by
    rcases p with ⟨k, path⟩
    cases path with
    | nil => trivial
    | cons x path =>
      refine ⟨hl.short, fun l hsub => ?_⟩
      have hne : (⟨k, l⟩ : Place) ≠ ⟨k, x :: path⟩ := by
        intro he
        have hle := hsub.length_le
        rw [(Place.mk.inj he).2] at hle
        simp at hle
      rw [Memory.set_ne hne]
      exact hl.all l hsub
  have hback : (m.set p 0).set p (m.entry p) = m := by
    simp [Memory.set]
  have hz' : ∀ x, (m.set p 0).entry (p.child x) = 0 := fun x => by rw [Memory.set_ne (p.ne_child_self x).symm, hz]
  have hU := usable_publish hl' hlen hr hno hz' q
  rw [hback] at hU
  constructor
  · intro h
    exact ⟨hU.2 (.inl h), fun he => hno (he ▸ h)⟩
  · intro h
    exact (hU.1 h.1).resolve_right h.2

lemma Refs.free (h : Refs m b) (hu : Usable m p) (hs : p.isStaticEntry = false)
    (hz : ∀ x, m.entry (p.child x) = 0) (hg : b (.guard p) = 1) (hd : b (.dec p) = 0)
    (hpar : ∀ q x, p = q.child x → b (.inc q x) = 0) {d : Key → Nat} (hdec : ParentKey p (fun q _ => .dec q) d)
    (hb : ∀ k, (∀ f, k ≠ .frame f) → b' k + one (.guard p) k = b k + d k) : Refs (m.set p 0) b' := by
  have hU := usable_free hu hz
  obtain ⟨hlp, hlen, hrp⟩ := usable_iff.1 hu
  have hL : ∀ q, Linked (m.set p 0) q ↔ Linked m q ∧ ∀ x, q ≠ p.child x := by
    rintro ⟨k, path⟩
    cases path with
    | nil => exact ⟨fun _ => ⟨trivial, fun x hx => by cases (mk.inj hx).2⟩, fun _ => trivial⟩
    | cons x path =>
      refine (hU ⟨k, path⟩).trans (and_congr_right fun _ => ⟨fun hne y hy => ?_, fun hne he => ?_⟩)
      · have hchild : child ⟨k, path⟩ x = p.child y := hy
        exact hne (child_inj.1 hchild).1
      · exact hne x (he ▸ rfl)
  have hk : ∀ k, (∀ f, k ≠ .frame f) → (∀ q, k ≠ .dec q) → k ≠ .guard p → b' k = b k := by
    intro k hf hk hg
    have := hb k hf
    rwa [one_ne hg, hdec.eq_zero fun q _ _ => hk q] at this
  have hg' : ∀ q, q ≠ p → b' (.guard q) = b (.guard q) := fun q hq =>
    hk _ (fun _ => nofun) (fun _ => nofun) fun he => hq (guard.inj he)
  have hinc' : ∀ q x, b' (.inc q x) = b (.inc q x) := fun q x => hk _ (fun _ => nofun) (fun _ => nofun) nofun
  have hinit' : ∀ q, b' (.init q) = b (.init q) := fun q => hk _ (fun _ => nofun) (fun _ => nofun) nofun
  have hd' : ∀ q, (∀ x, p ≠ q.child x) → b' (.dec q) = b (.dec q) := by
    intro q hq
    have := hb (.dec q) fun _ => nofun
    rw [one_ne (by nofun), hdec.eq_zero] at this
    · exact this
    rintro q' x hp hkey
    exact hq x (dec.inj hkey ▸ hp)
  have hinc0 : ∀ x, b (.inc p x) = 0 := by
    intro x
    have ho := h.owed p x
    rw [hz] at ho
    exact Nat.le_zero.1 ho
  refine ⟨fun q hq hqs => ?_, fun q hq => ?_, fun q x => ?_, fun q hq hne => ?_, fun j => ?_, fun q hq hqlen => ?_,
    fun q hq => ?_⟩
  · obtain ⟨hq, hqp⟩ := (hU q).1 hq
    have hbal := h.balance q hq hqs
    rw [set_ne hqp, hg' q hqp, sum_congr rfl fun x _ => hinc' q x]
    by_cases hc : ∃ x, p = q.child x
    · -- one entry less, and it is still counted
      obtain ⟨x, rfl⟩ := hc
      have hent := entries_set_child (m := m) (p := q) (x := x) 0
      have hbd := hb (.dec q) fun _ => nofun
      rw [one_ne (by nofun), hdec.eq_one, one_self] at hbd
      rw [nz_of_ne (ready_of_ne hrp)] at hent
      simp only [nz, if_true] at hent
      omega
    · have hc : ∀ x, p ≠ q.child x := fun x hp => hc ⟨x, hp⟩
      rw [entries_set_other hc, hd' q hc]
      exact hbal
  · by_cases hqp : q = p
    · subst hqp
      have hbg := hb (.guard q) fun _ => nofun
      rw [one_self, hg, hdec.eq_zero (k := .guard q) fun _ _ _ => nofun] at hbg
      refine ⟨by omega, (hd' q q.ne_child_self).trans hd, fun x => (hinc' q x).trans (hinc0 x)⟩
    have hq' : ¬Usable m q := fun hq' => hq ((hU q).2 ⟨hq', hqp⟩)
    obtain ⟨hg0, hd0, hi0⟩ := h.quiet q hq'
    refine ⟨(hg' q hqp).trans hg0, (hd' q ?_).trans hd0, fun x => (hinc' q x).trans (hi0 x)⟩
    rintro x rfl
    exact hq' hlp
  · have hold := h.owed q x
    rw [hinc', set_entry]
    grind
  · have hold := h.shape q ((hL q).1 hq).1
    rw [set_entry] at hne ⊢
    grind
  · have hj : (⟨.kernel j, []⟩ : Place) ≠ p := by
      rintro rfl
      cases hs
    rw [set_ne hj]
    exact h.kernel j
  · have hzero : PageTable.initializing 0 = false := rfl
    rw [hinit', h.init q ((hL q).1 hq).1 hqlen, set_entry]
    grind [ready_iff]
  · rw [hinit']
    by_cases hlq : Linked m q ∧ q.path.length ≤ 2
    · have hc : ∃ x, q = p.child x := by
        by_contra hno
        exact hq ⟨(hL q).2 ⟨hlq.1, fun x hx => hno ⟨x, hx⟩⟩, hlq.2⟩
      obtain ⟨x, rfl⟩ := hc
      rw [h.init _ hlq.1 hlq.2, hz]
      rfl
    · exact h.fresh q hlq

/-! ## Entries of level 1 -/

lemma Refs.leaf (h : Refs m b) (hlen : p.path.length = 2) (hshape : Usable m p → w ≠ 0 → present w)
    (hsame : ∀ k, k.place? ≠ some p → b' k = b k) (hquiet : ¬Usable m p → ∀ k, b' k = b k)
    (howed : ∀ y, b' (.inc p y) ≤ if y = x then nz w else b (.inc p y))
    (hbal : Usable m p → refCount (m.entry p) + 1 + ∑ y, b' (.inc p y) + nz (m.entry (p.child x)) =
      b' (.guard p) + m.entries p + nz w + b' (.dec p)) : Refs (m.set (p.child x) w) b' := by
  have hlong : ∀ q : Place, q.path.length ≤ 2 → q ≠ p.child x := by
    rintro q hq rfl
    simp only [child, length_cons] at hq
    omega
  have hU : ∀ q, Usable (m.set (p.child x) w) q ↔ Usable m q :=
    usable_congr fun q hq => by rw [set_ne (hlong q hq)]
  have hL := linked_congr hU
  have hother := other_places hsame
  have hne : ∀ q, q ≠ p → ∀ y, p.child x ≠ q.child y := fun q hq y he => hq (child_inj.1 he).1.symm
  refine ⟨fun q hq hs => ?_, fun q hq => ?_, fun q y => ?_, fun q hq hne => ?_, fun j => ?_, fun q hq hqlen => ?_,
    fun q hq => ?_⟩
  · have hqu := (hU q).1 hq
    rw [set_ne (hlong q hqu.short)]
    by_cases he : q = p
    · subst he
      have hent := entries_set_child (m := m) (p := q) (x := x) w
      have := hbal hqu
      omega
    · rw [hother q he _ rfl, hother q he (.dec q) rfl, sum_congr rfl fun x _ => hother q he (.inc q x) rfl,
        entries_set_other (hne q he)]
      exact h.balance q hqu hs
  · have hold := h.quiet q
    grind [place?]
  · have hold := h.owed q y
    rcases eq_or_ne q p with rfl | hqp <;> grind [place?, set_entry, child_inj]
  · have hq := (hL q).1 hq
    by_cases he : q = p.child x
    · subst he
      rw [set_self] at hne ⊢
      exact .inl (hshape hq hne)
    · rw [set_ne he] at hne ⊢
      exact h.shape q hq hne
  · rw [set_ne (hlong _ (Nat.zero_le _))]
    exact h.kernel j
  · rw [set_ne (hlong q hqlen), hsame _ (by simp [place?])]
    exact h.init q ((hL q).1 hq) hqlen
  · rw [hsame _ (by simp [place?])]
    exact h.fresh q fun hno => hq ⟨(hL q).2 hno.1, hno.2⟩

end Mushroom.L2.PageTable
