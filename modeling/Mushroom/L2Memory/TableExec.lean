import Mushroom.L2Memory.TableInv

/-!
# The steps of the page-table operations

Every access of `exec` keeps the invariant, as long as no entry of level 1 is
removed that another CPU has inserted and not counted yet; a table is taken out
only when it is empty and nobody else has a guard on it.
-/
namespace Mushroom.L2.PageTable
open List Finset Bool Function Ledger Memory PageTable

variable {ι : Type} [Fintype ι] [DecidableEq ι] {s : State ι} {i : ι} {n : Nat}

/-! ## Places of a stack -/

omit [DecidableEq ι] in
lemma Inv.linked (h : Inv s) {st : Stack n} (hw : ∀ k, st.lower k ≤ (s.cpus i).weigh k) : Linked s.mem st.place := by
  cases st with
  | top k job => trivial
  | push x rest below => exact h.usable (below.guards_place.trans (hw _))

variable {q : Place} {m m' : Memory} {w current : Nat} {pc : Pc} {frame f : PhysFrame} {r : Rel}

omit [DecidableEq ι] in
lemma parent_guard {st : Stack n} (hw : ∀ k, st.lower k ≤ (s.cpus i).weigh k) {x : Idx}
    (hp : st.place = q.child x) : 0 < books s.cpus (.guard q) := by
  cases st with
  | top k job => cases (Place.mk.inj hp).2
  | push y rest below =>
    obtain ⟨rfl, -⟩ := Place.child_inj.1 hp
    exact (below.guards_place.trans (hw _)).trans (le_books s.cpus i _)

lemma Stack.lower_le_guards (st : Stack n) (k : Key) : st.lower k ≤ st.guards k := by
  rw [st.guards_eq]
  exact Nat.le_add_left _ _

lemma Stack.short (st : Stack n) : st.place.path.length ≤ 2 := by
  have := st.place_length
  omega

variable {p : Place} {a : Acquire n} {garbage : Idx → Nat} {frame : PhysFrame} {m' : Memory}

lemma Place.static_eq (h : p.isStaticEntry) : ∃ j, p = ⟨.kernel j, []⟩ := by
  rcases p with ⟨k | ⟨t, k⟩, l⟩ <;> cases l <;> first | exact ⟨_, rfl⟩ | cases h

/-! ## `acquire_reference_count` -/

lemma Acquire.seen_ok (a : Acquire n)
    (hw : ready w → a.st.place.isStaticEntry = false → refCount w + 1 < 2 ^ 10) : (a.seen w).Ok m := by
  rw [Acquire.seen]
  split
  · trivial
  split
  · trivial
  rename_i hinit
  rw [not_eq_true] at hinit
  split
  · rename_i hp
    split
    · trivial
    split
    · exact a.st.run_ok a.body
    rename_i hs
    rw [not_eq_true] at hs
    exact ⟨hinit, fun _ => ⟨hs, hw (ready_iff.2 ⟨hp, hinit⟩) hs⟩⟩
  · rename_i hp
    exact ⟨hinit, fun hp' => absurd hp' hp⟩

lemma Inv.acquireSeen (h : Inv s) (hcard : Fintype.card ι ≤ 255)
    (hw : (s.cpus i).weigh = a.st.lower) : Inv ⟨s.mem, update s.cpus i (a.seen (s.mem.entry a.st.place))⟩ := by
  have hl : Linked s.mem a.st.place := h.linked (i := i) fun k => by rw [hw]
  have hok : (a.seen (s.mem.entry a.st.place)).Ok s.mem := a.seen_ok fun hr hs =>
    h.fits hcard (usable_iff.2 ⟨hl, a.st.short, hr⟩) hs
  by_cases hs : a.st.place.isStaticEntry
  · by_cases hrun : (a.seen (s.mem.entry a.st.place)).weigh = a.st.guards
    · refine h.static (g := one (.guard a.st.place)) (d := fun _ => 0) hs (fun k => ?_) (fun k hk => ?_)
        (fun x => ?_) hok
      · rw [hrun, hw, a.st.guards_eq]
        omega
      · refine ⟨one_ne fun he => hk (by rw [he]; rfl), rfl⟩
      · exact one_ne nofun
    -- the kernel's entries are there: all other ways out leave the books alone
    refine h.quiet ?_ hok rfl rfl
    rw [hw]
    rw [Acquire.seen] at hrun ⊢
    split
    · rfl
    split
    · rfl
    split
    · split
      · rfl
      rename_i h1 h2 h3 h4
      rw [if_neg h1, if_neg h2, if_pos h3, if_neg h4, if_pos hs, Stack.weigh_run] at hrun
      exact absurd rfl hrun
    · rfl
  · exact h.quiet ((a.weigh_seen _ hs).trans hw.symm) hok rfl rfl

lemma Inv.acquireExchange (h : Inv s) (hcard : Fintype.card ι ≤ 255)
    (hpc : s.cpus i = .acquireExchange a current)
    (he : exec s.mem frame garbage (.acquireExchange a current) = some (m', pc)) :
    Inv ⟨m', update s.cpus i pc⟩ := by
  have hok := h.cpus i
  rw [hpc] at hok
  obtain ⟨hinit, hpres⟩ := hok
  have hw : (s.cpus i).weigh = a.st.lower := by rw [hpc]; rfl
  have hle : ∀ k, a.st.lower k ≤ (s.cpus i).weigh k := fun k => by rw [hw]
  have hl := h.linked hle
  simp only [exec] at he
  split at he
  · rename_i hover
    exact absurd (hpres hover.1).2 hover.2
  split at he
  · rename_i hcur
    split at he
    · rename_i hp
      obtain ⟨hs, hfit⟩ := hpres hp
      cases he
      subst hcur
      refine h.recount (g := one (.guard a.st.place)) (d := fun _ => 0)
        (usable_iff.2 ⟨hl, a.st.short, ready_iff.2 ⟨hp, hinit⟩⟩) hfit (fun q x => parent_guard hle) (fun k => ?_)
        (fun k hk => ⟨one_ne fun he => hk (by rw [he]; rfl), rfl⟩) (fun x => one_ne nofun) ?_
        fun m => a.st.run_ok a.body
      · rw [Stack.weigh_run, hw, a.st.guards_eq]
        omega
      · simp [one]
    rename_i hp
    cases he
    have hzero : s.mem.entry a.st.place = 0 := by
      by_contra hne
      rcases h.refs.shape _ hl hne with hpr | ⟨-, hin⟩
      · exact hp (hcur ▸ hpr)
      rw [hcur, hinit] at hin
      cases hin
    have hb : ∀ k, books (update s.cpus i (.allocate a)) k =
        books s.cpus k + one (.init a.st.place) k + a.st.parentInc k := by
      intro k
      have := books_update s.cpus i (.allocate a) k
      rw [hw] at this
      simp only [Pc.weigh] at this
      omega
    refine h.move (h.refs.mark hl a.st.short hzero a.st.parentInc_key hb) ?_ trivial
      fun j _ => h.calm_set (fun q x => parent_guard hle) j
    have hready : ∀ q : Place, q.path.length ≤ 2 →
        ready ((s.mem.set a.st.place (2 ^ 9)).entry q) = ready (s.mem.entry q) := by
      intro q _
      by_cases hq : q = a.st.place
      · rw [hq, set_self, hzero]
        rfl
      · rw [set_ne hq]
    refine h.frames.congr (usable_congr hready) (fun q hq => ?_) rfl fun f => ?_
    · rw [set_ne]
      rintro rfl
      exact ready_of_ne hq.ready_self hzero
    · rw [hb]
      simp [one]
  · cases he
    exact h.acquireSeen hcard hw

lemma Inv.allocate (h : Inv s) (hpc : s.cpus i = .allocate a) (hf : s.mem.frames f = false) :
    Inv ⟨s.mem.setFrame f true, update s.cpus i (.storeNew a f)⟩ := by
  have hb : ∀ k, books (update s.cpus i (.storeNew a f)) k = books s.cpus k + one (.frame f) k := by
    intro k
    have := books_update s.cpus i (.storeNew a f) k
    rw [hpc] at this
    simp only [Pc.weigh] at this
    omega
  refine h.move (h.refs.of_entry rfl fun k hk => ?_) (h.frames.allocate hf fun f' => hb _) trivial
    fun j _ q _ x hz => hz
  rw [hb, one_ne (hk f), Nat.add_zero]

lemma Inv.sole_init (h : Inv s) {j : ι} (hij : j ≠ i) (hi : 0 < (s.cpus i).weigh (.init p)) :
    (s.cpus j).weigh (.init p) = 0 := by
  have hpos : 0 < books s.cpus (.init p) := hi.trans_le (le_books s.cpus i _)
  obtain ⟨hl, hlen⟩ := h.refs.linked_of_init hpos
  have hone : books s.cpus (.init p) ≤ 1 := (h.refs.init p hl hlen).le.trans (toNat_le _)
  have htwo : (s.cpus i).weigh (.init p) + (s.cpus j).weigh (.init p) ≤ books s.cpus (.init p) :=
    add_le_total (fun pc : Pc => pc.weigh (.init p)) s.cpus hij.symm
  omega

/-- The new table is written, with its entry still marked. -/
lemma Inv.scratch (h : Inv s)
    (hw : (s.cpus i).weigh = (Pc.storeNew a f).weigh) (hw' : pc.weigh = (Pc.storeNew a f).weigh)
    (hp : initializing (m'.entry a.st.place)) (hf : m'.frames = s.mem.frames)
    (he : ∀ q, q ≠ a.st.place → (∀ x, q ≠ a.st.place.child x) → m'.entry q = s.mem.entry q) (hok : pc.Ok m') :
    Inv ⟨m', update s.cpus i pc⟩ := by
  have hi : 0 < (s.cpus i).weigh (.init a.st.place) := by
    rw [hw]
    simp [Pc.weigh, one]
  have hpos : 0 < books s.cpus (.init a.st.place) := hi.trans_le (le_books s.cpus i _)
  have hle : ∀ k, a.st.lower k ≤ (s.cpus i).weigh k := by
    intro k
    rw [hw]
    simp only [Pc.weigh]
    omega
  have hb : books (update s.cpus i pc) = books s.cpus := by
    funext k
    have := books_update s.cpus i pc k
    rw [hw, hw'] at this
    exact Nat.add_right_cancel this
  refine h.move ?_ ?_ hok fun j hj q hq x hz => ?_
  · rw [hb]
    exact h.refs.scratch hpos hp he
  · rw [hb]
    refine h.frames.congr (usable_scratch h.refs hpos hp he) (fun q hq => ?_) hf fun _ => rfl
    rw [he]
    · rintro rfl
      exact h.refs.not_usable_of_init hpos (suffix_refl _) hq
    · rintro x rfl
      exact h.refs.not_usable_of_init hpos (suffix_cons x _) hq
  -- the table is not the other CPU's, and neither is its entry in such a table
  rw [he]
  · exact hz
  · intro hqp
    exact h.refs.not_usable_of_init (hq.trans_le (le_books s.cpus j _)) (suffix_refl _)
      (h.refs.usable (parent_guard hle hqp.symm))
  · intro y hy
    rw [(Place.child_inj.1 hy).1, h.sole_init hj hi] at hq
    exact absurd hq (Nat.lt_irrefl 0)

lemma Acquire.weigh_initialized (a : Acquire n) (k : Key) :
    a.initialized.weigh k = a.st.guards k + a.st.parentInc k := by
  rcases a with ⟨st, user, global, body⟩
  cases st with
  | top r job => exact congrFun ((Stack.top r job).weigh_run body) k
  | push x rest below => rfl

lemma Acquire.initialized_ok (a : Acquire n) : a.initialized.Ok m := by
  rcases a with ⟨st, user, global, body⟩
  cases st with
  | top r job => exact (Stack.top r job).run_ok body
  | push x rest below => trivial

lemma Inv.storeDone (h : Inv s) (hpc : s.cpus i = .storeDone a f) :
    Inv ⟨s.mem.set a.st.place (newEntry f a.user a.global false), update s.cpus i a.initialized⟩ := by
  have hz := h.cpus i
  rw [hpc] at hz
  have hw : ∀ k, (s.cpus i).weigh k =
      a.st.lower k + a.st.parentInc k + one (.init a.st.place) k + one (.frame f) k := fun k => by rw [hpc]; rfl
  have hpos : ∀ k, k = .init a.st.place ∨ k = .frame f → 0 < books s.cpus k := by
    intro k hk
    refine Nat.lt_of_lt_of_le ?_ (le_books s.cpus i k)
    rw [hw]
    rcases hk with rfl | rfl <;> simp [one]
  have hi := hpos _ (.inl rfl)
  have hle : ∀ k, a.st.lower k ≤ (s.cpus i).weigh k := by
    intro k
    rw [hw]
    omega
  have hb : ∀ k, books (update s.cpus i a.initialized) k + one (.init a.st.place) k + one (.frame f) k =
      books s.cpus k + one (.guard a.st.place) k := by
    intro k
    have := books_update s.cpus i a.initialized k
    rw [a.weigh_initialized, hw, a.st.guards_eq] at this
    omega
  have hready : ready (newEntry f a.user a.global false) :=
    ready_iff.2 ⟨present_newEntry .., initializing_newEntry ..⟩
  obtain ⟨hl, hlen⟩ := h.refs.linked_of_init hi
  have hno : ¬Usable s.mem a.st.place := h.refs.not_usable_of_init hi (suffix_refl _)
  refine h.move (h.refs.publish hi hz hready (refCount_newEntry ..) fun k hk => ?_) ?_ a.initialized_ok
    fun j _ => h.calm_set (fun q x => parent_guard hle) j
  · have := hb k
    rwa [one_ne (hk f)] at this
  refine h.frames.publish (usable_publish hl hlen hready hno hz) hno (frameOf_newEntry ..)
    (hpos _ (.inr rfl)) fun f' => ?_
  have := hb (.frame f')
  rwa [one_ne (by simp : Key.frame f' ≠ .init _), one_ne (by simp : Key.frame f' ≠ .guard _)] at this

/-! ## `increase_reference_count` -/

lemma Inc.gains_place (w : Inc) {k : Key} (hk : k.place? ≠ some w.place) : w.gains k = 0 ∧ w.pays k = 0 := by
  cases w with
  | existing st unwrap b => exact ⟨one_ne fun he => hk (by rw [he]; rfl), rfl⟩
  | initialized x rest below b | inserted st x b => exact ⟨rfl, one_ne fun he => hk (by rw [he]; rfl)⟩

lemma Inc.gains_inc (w : Inc) (x : Idx) : w.gains (.inc w.place x) = 0 := by
  cases w with
  | existing st unwrap b => exact one_ne nofun
  | initialized y rest below b | inserted st y b => rfl

/-- One more guard or one entry less that is not counted. -/
lemma Inc.balance (w : Inc) : ∑ x, w.pays (.inc w.place x) + w.gains (.guard w.place) = 1 + w.pays (.guard w.place) ∧
    w.gains (.dec w.place) = w.pays (.dec w.place) := by
  cases w with
  | existing st unwrap b => simp [Inc.pays, Inc.gains, Inc.place, one]
  | initialized y rest below b | inserted st y b =>
    simp only [Inc.pays, Inc.gains, Inc.place, sum_one_inc]
    simp [one]

lemma Inc.done_ok (w : Inc) : w.done.Ok m := by
  cases w with
  | existing st unwrap b => exact st.run_ok b
  | initialized x rest below b => exact (Stack.push x rest below).run_ok b
  | inserted st x b => exact st.run_ok b

omit [DecidableEq ι] in
/-- The entry's table, if it is there, can be used; it is there for all but
`acquire_existing`. -/
lemma Inv.inc_place (h : Inv s) {w : Inc} (hw : (s.cpus i).weigh = w.weigh) :
    (ready (s.mem.entry w.place) = true → Usable s.mem w.place) ∧
      (∀ q x, w.place = q.child x → 0 < books s.cpus (.guard q)) ∧
      ((∃ st : Σ n, Stack n, ∃ unwrap b, w = .existing st.2 unwrap b) ∨ Usable s.mem w.place) := by
  cases w with
  | existing st unwrap b =>
    have hle : ∀ k, st.lower k ≤ (s.cpus i).weigh k := fun k => by rw [hw]; rfl
    exact ⟨fun hr => usable_iff.2 ⟨h.linked hle, st.short, hr⟩, fun q x => parent_guard hle,
      .inl ⟨⟨_, st⟩, unwrap, b, rfl⟩⟩
  | initialized x rest below b =>
    have hle : ∀ k, below.guards k ≤ (s.cpus i).weigh k := fun k => by
      rw [hw]
      simp only [Inc.weigh]
      omega
    have hu : Usable s.mem below.place := h.usable (below.guards_place.trans (hle _))
    exact ⟨fun _ => hu, fun q x => parent_guard fun k => (below.lower_le_guards k).trans (hle k), .inr hu⟩
  | inserted st x b =>
    have hle : ∀ k, st.guards k ≤ (s.cpus i).weigh k := fun k => by
      rw [hw]
      simp only [Inc.weigh]
      omega
    have hu : Usable s.mem st.place := h.usable (st.guards_place.trans (hle _))
    exact ⟨fun _ => hu, fun q x => parent_guard fun k => (st.lower_le_guards k).trans (hle k), .inr hu⟩

lemma Inv.increaseSeen (h : Inv s) (hcard : Fintype.card ι ≤ 255) {w : Inc} (hw : (s.cpus i).weigh = w.weigh)
    (hs : w.place.isStaticEntry = false) : Inv ⟨s.mem, update s.cpus i (w.seen (s.mem.entry w.place))⟩ := by
  obtain ⟨hready, -, hthere⟩ := h.inc_place hw
  rw [Inc.seen]
  split
  · exact h.quiet hw.symm trivial rfl rfl
  rename_i hinit
  rw [not_eq_true] at hinit
  split
  · rename_i hp
    have hr := ready_iff.2 ⟨hp, hinit⟩
    exact h.quiet hw.symm ⟨hr, hs, h.fits hcard (hready hr) hs⟩ rfl rfl
  rename_i hp
  rcases hthere with ⟨st, unwrap, b, rfl⟩ | hu
  · cases unwrap with
    | true => exact h.quiet hw.symm trivial rfl rfl
    | false => exact h.quiet (st.2.weigh_resume.trans hw.symm) st.2.resume_ok rfl rfl
  · exact absurd (ready_iff.1 hu.ready_self).1 hp

lemma Inv.increaseDone (h : Inv s) {w : Inc} (hw : (s.cpus i).weigh = w.weigh) (hs : w.place.isStaticEntry) :
    Inv ⟨s.mem, update s.cpus i w.done⟩ :=
  h.static hs (fun k => by rw [hw]; exact w.weigh_done k) (fun _ => w.gains_place) w.gains_inc w.done_ok

lemma Inv.increaseExchange (h : Inv s) (hcard : Fintype.card ι ≤ 255) {w : Inc}
    (hpc : s.cpus i = .increaseExchange w current)
    (he : exec s.mem frame garbage (.increaseExchange w current) = some (m', pc)) :
    Inv ⟨m', update s.cpus i pc⟩ := by
  have hok := h.cpus i
  rw [hpc] at hok
  obtain ⟨hr, hs, hfit⟩ := hok
  have hw : (s.cpus i).weigh = w.weigh := by rw [hpc]; rfl
  obtain ⟨hready, hguard, -⟩ := h.inc_place hw
  simp only [exec] at he
  split at he
  · rename_i hover
    exact absurd hfit hover
  split at he
  · rename_i hcur
    cases he
    subst hcur
    obtain ⟨hone, hdec⟩ := w.balance
    refine h.recount (hready hr) hfit hguard (fun k => by rw [hw]; exact w.weigh_done k) (fun _ => w.gains_place)
      w.gains_inc ?_ fun _ => w.done_ok
    rw [sum_congr rfl fun x _ => w.gains_inc x, sum_const_zero]
    omega
  · cases he
    exact h.increaseSeen hcard hw hs

/-! ## `release_reference_count` and the drop of a guard -/

lemma Rel.pays_place (r : Rel) {k : Key} (hk : k.place? ≠ some r.place) : r.pays k = 0 := by
  cases r with
  | entry st b | guard st => exact one_ne fun he => hk (by rw [he]; rfl)

lemma Rel.balance (r : Rel) : r.pays (.guard r.place) + r.pays (.dec r.place) = 1 ∧
    ∀ x, r.pays (.inc r.place x) = 0 := by
  cases r <;> simp [Rel.pays, Rel.place, one]

lemma Rel.done_ok (r : Rel) : r.done.Ok m := by
  cases r with
  | entry st b => exact st.run_ok b
  | guard st => exact st.resume_ok

section

variable (h : Inv s) (hw : (s.cpus i).weigh = r.weigh)
include h hw

omit [DecidableEq ι] in
lemma Inv.rel_place :
    Usable s.mem r.place ∧ ∀ q x, r.place = q.child x → 0 < books s.cpus (.guard q) := by
  have main {n : Nat} {st : Stack n} (hle : ∀ k, st.guards k ≤ (s.cpus i).weigh k) :
      Usable s.mem st.place ∧ ∀ q x, st.place = q.child x → 0 < books s.cpus (.guard q) :=
    ⟨h.usable (st.guards_place.trans (hle _)), fun q x =>
      parent_guard fun k => (st.lower_le_guards k).trans (hle k)⟩
  cases r with
  | entry st b =>
    refine main fun k => ?_
    rw [hw]
    exact Nat.le_add_right _ _
  | guard st => exact main fun k => by rw [hw]; rfl

lemma Inv.releaseSeen (hs : r.place.isStaticEntry = false) :
    Inv ⟨s.mem, update s.cpus i (r.seen (s.mem.entry r.place))⟩ := by
  have hne : s.mem.entry r.place ≠ 0 := ready_of_ne (h.rel_place hw).1.ready_self
  rw [Rel.seen, if_neg hne]
  exact h.quiet hw.symm hs rfl rfl

lemma Inv.releaseDone (hs : r.place.isStaticEntry) :
    Inv ⟨s.mem, update s.cpus i r.done⟩ :=
  h.static (g := fun _ => 0) hs (fun k => by rw [hw]; exact r.weigh_done k) (fun _ hk => ⟨rfl, r.pays_place hk⟩)
    (fun _ => rfl) r.done_ok

end

omit [DecidableEq ι] in
/-- A guard that finds the stored count 0 is the last one, and the table is empty. -/
lemma Inv.last (h : Inv s) {st : Stack n} (hw : (s.cpus i).weigh = st.guards) (hs : st.place.isStaticEntry = false)
    (hcount : refCount (s.mem.entry st.place) = 0) :
    books s.cpus (.guard st.place) = 1 ∧ books s.cpus (.dec st.place) = 0 ∧ s.mem.entries st.place = 0 ∧
      ∀ q x, st.place = q.child x → books s.cpus (.inc q x) = 0 := by
  have hmine : 1 ≤ (s.cpus i).weigh (.guard st.place) := by
    rw [hw]
    exact st.guards_place
  have hu := h.usable hmine
  have hbal := h.refs.balance _ hu hs
  have hle := h.refs.sum_inc_le st.place
  have hg : 1 ≤ books s.cpus (.guard st.place) := hmine.trans (le_books s.cpus i _)
  -- every entry that is not counted is another guard's
  have hinc : ∀ x, books s.cpus (.inc st.place x) < books s.cpus (.guard st.place) := by
    refine fun x => total_lt _ s.cpus (fun j => (s.cpus j).sound.inc st.place x) (i := i) ?_
    simp only [hw, Stack.guards_inc]
    exact st.guards_place
  have hone : books s.cpus (.guard st.place) = 1 := by omega
  have hsum : ∑ x, books s.cpus (.inc st.place x) = 0 := by
    refine Finset.sum_eq_zero fun x _ => ?_
    have := hinc x
    omega
  refine ⟨hone, by omega, by omega, fun q x hp => ?_⟩
  have hlen : q.path.length < 2 := by
    have := st.short
    rwa [hp] at this
  have hlt : books s.cpus (.inc q x) <
      total (fun pc : Pc => pc.weigh (.guard st.place) + pc.weigh (.init st.place)) s.cpus := by
    refine total_lt _ s.cpus (fun j => ?_) (i := i) ?_
    · rw [hp]
      exact (s.cpus j).sound.child q x hlen
    simp only [hw, Stack.guards_inc]
    have := st.guards_place
    omega
  obtain ⟨hl, -, hr⟩ := usable_iff.1 hu
  have hinit := h.refs.init _ hl st.short
  rw [(ready_iff.1 hr).2] at hinit
  rw [total_add] at hlt
  have hsplit : total (fun pc : Pc => pc.weigh (.guard st.place)) s.cpus = 1 := hone
  have hzero : total (fun pc : Pc => pc.weigh (.init st.place)) s.cpus = 0 := hinit
  omega

lemma Inv.free (h : Inv s) {st : Stack n} (hw : (s.cpus i).weigh = st.guards) (hs : st.place.isStaticEntry = false)
    (hcount : refCount (s.mem.entry st.place) = 0) : Inv ⟨s.mem.set st.place 0,
      update s.cpus i (.deallocate st (frameOf (s.mem.entry st.place)))⟩ := by
  obtain ⟨hg, hd, hz, hpar⟩ := h.last hw hs hcount
  rw [entries_eq_zero] at hz
  have hle : ∀ k, st.lower k ≤ (s.cpus i).weigh k := fun k => by
    rw [hw]
    exact st.lower_le_guards k
  have hu : Usable s.mem st.place := h.refs.usable (by omega)
  have hb : ∀ k, books (update s.cpus i (.deallocate st (frameOf (s.mem.entry st.place)))) k +
      one (.guard st.place) k = books s.cpus k + st.parentDec k + one (.frame (frameOf (s.mem.entry st.place))) k := by
    intro k
    have := books_update s.cpus i (.deallocate st (frameOf (s.mem.entry st.place))) k
    rw [hw, st.guards_eq] at this
    simp only [Pc.weigh] at this
    omega
  refine h.move (h.refs.free hu hs hz hg hd hpar st.parentDec_key fun k hk => ?_)
    (h.frames.free (usable_free hu hz) hu rfl fun f => ?_) trivial fun j _ => h.calm_set (fun q x => parent_guard hle) j
  · have := hb k
    rwa [one_ne (hk _)] at this
  · have := hb (.frame f)
    rwa [one_ne (by simp), st.parentDec_frame] at this

lemma Stack.weigh_releaseParent (st : Stack n) (k : Key) : st.releaseParent.weigh k = st.lower k + st.parentDec k := by
  cases st with
  | top r job => exact job.weigh_next k
  | push x rest below => rfl

lemma Stack.releaseParent_ok (st : Stack n) : st.releaseParent.Ok m := by
  cases st with
  | top r job => exact job.next_ok
  | push x rest below => trivial

lemma Inv.deallocate (h : Inv s) {st : Stack n} (hpc : s.cpus i = .deallocate st f) :
    Inv ⟨s.mem.setFrame f false, update s.cpus i st.releaseParent⟩ := by
  have hb : ∀ k, books (update s.cpus i st.releaseParent) k + one (.frame f) k = books s.cpus k := by
    intro k
    have := books_update s.cpus i st.releaseParent k
    rw [hpc, st.weigh_releaseParent] at this
    simp only [Pc.weigh] at this
    omega
  have hf : 0 < books s.cpus (.frame f) := by
    have := hb (.frame f)
    rw [one_self] at this
    omega
  refine h.move (h.refs.of_entry rfl fun k hk => ?_) (h.frames.deallocate hf fun f' => hb _) st.releaseParent_ok
    fun j _ q _ x hz => hz
  have := hb k
  rwa [one_ne (hk f)] at this

lemma Inv.releaseExchange (h : Inv s) (hpc : s.cpus i = .releaseExchange r current)
    (he : exec s.mem frame garbage (.releaseExchange r current) = some (m', pc)) : Inv ⟨m', update s.cpus i pc⟩ := by
  have hs := h.cpus i
  rw [hpc] at hs
  have hs : r.place.isStaticEntry = false := hs
  have hw : (s.cpus i).weigh = r.weigh := by rw [hpc]; rfl
  obtain ⟨hu, hguard⟩ := h.rel_place hw
  simp only [exec] at he
  split at he
  · rename_i hcur
    subst hcur
    split at he
    · rename_i hone
      cases he
      obtain ⟨hpay, hinc⟩ := r.balance
      have hlt : refCount (s.mem.entry r.place) < 2 ^ 10 := Nat.mod_lt _ (by decide)
      refine h.recount (g := fun _ => 0) hu ((Nat.sub_le _ 1).trans_lt hlt) hguard
        (fun k => by rw [hw]; exact r.weigh_done k) (fun _ hk => ⟨rfl, r.pays_place hk⟩) (fun _ => rfl) ?_
        fun _ => r.done_ok
      rw [sum_congr rfl fun x _ => hinc x]
      simp only [sum_const_zero]
      omega
    rename_i hzero
    cases he
    have hcount : refCount (s.mem.entry r.place) = 0 := by omega
    cases r with
    | entry st b =>
      -- a removed entry is still counted beside the guard
      have hbal := h.refs.balance _ hu hs
      have hle := h.refs.sum_inc_le st.place
      have hg := le_books s.cpus i (.guard st.place)
      have hd := le_books s.cpus i (.dec st.place)
      have hg' := st.guards_place
      rw [hw] at hg hd
      simp only [Rel.weigh, Rel.place, one_self] at hg hd hbal hcount
      omega
    | guard st => exact h.free hw hs hcount
  · cases he
    exact h.releaseSeen hw hs

/-! ## Entries of level 1 -/

/-- Only an entry of level 1 that was inserted is not counted in a table of level 1. -/
def Pc.inserting : Pc → Option (Place × Idx)
  | .increaseLoad (.inserted st x _) | .increaseExchange (.inserted st x _) _ => some (st.place, x)
  | _ => none

variable {x : Idx}

lemma Pc.inc_leaf (pc : Pc) (hq : q.path.length = 2) (h : pc.inserting ≠ some (q, x)) : pc.weigh (.inc q x) = 0 := by
  have hpar : ∀ {n : Nat} (st : Stack n), st.parentInc (.inc q x) = 0 := by
    intro n st
    cases st with
    | top k job => rfl
    | push y rest below =>
      refine one_ne fun he => ?_
      have hlen := below.place_length
      rw [← (Key.inc.inj he).1] at hlen
      omega
  cases pc with
  | allocate a | storeNew a f | zero a f | storeDone a f => simp [Pc.weigh, hpar, one]
  | increaseLoad w | increaseExchange w v =>
    cases w with
    | existing st unwrap b => exact st.lower_inc q x
    | initialized y rest below b =>
      have := hpar (Stack.push y rest below)
      simp only [Stack.parentInc] at this
      have hg : one (.guard (below.place.child y)) (.inc q x) = 0 := one_ne (by simp)
      simp only [Pc.weigh, Inc.weigh, Stack.guards_inc, this, hg]
    | inserted st y b =>
      have hne : Key.inc q x ≠ .inc st.place y := by
        intro he
        obtain ⟨rfl, rfl⟩ := Key.inc.inj he
        exact h rfl
      simp only [Pc.weigh, Inc.weigh, Stack.guards_inc, one_ne hne]
  | releaseLoad r | releaseExchange r v => cases r <;> simp [Pc.weigh, Rel.weigh, one]
  | panicked st own => cases own <;> simp [Pc.weigh]
  | _ => simp [Pc.weigh, one]

lemma Inv.leafSet (h : Inv s) {g : Key → Nat} (hlen : p.path.length = 2)
    (hcalm : ∀ j, j ≠ i → Calm s.mem (s.mem.set (p.child x) w) (s.cpus j))
    (hw : ∀ k, pc.weigh k = (s.cpus i).weigh k + g k) (hg : ∀ k, k.place? ≠ some p → g k = 0)
    (hdead : ¬Usable s.mem p → ∀ k, g k = 0) (hshape : Usable s.mem p → w ≠ 0 → present w)
    (howed : books s.cpus (.inc p x) + g (.inc p x) ≤ nz w) (hother : ∀ y, y ≠ x → g (.inc p y) = 0)
    (hbal : Usable s.mem p → g (.inc p x) + nz (s.mem.entry (p.child x)) = g (.guard p) + nz w + g (.dec p))
    (hok : ∀ m, pc.Ok m) : Inv ⟨s.mem.set (p.child x) w, update s.cpus i pc⟩ := by
  have hb : ∀ k, books (update s.cpus i pc) k = books s.cpus k + g k := by
    intro k
    have := books_update s.cpus i pc k
    rw [hw] at this
    omega
  have hlong : ∀ q : Place, q.path.length ≤ 2 → q ≠ p.child x := by
    rintro q hq rfl
    simp only [Place.child, length_cons] at hq
    omega
  refine h.move (h.refs.leaf hlen hshape (fun k hk => ?_) (fun hno k => ?_) (fun y => ?_) fun hu => ?_) ?_ (hok _) hcalm
  · rw [hb, hg k hk, Nat.add_zero]
  · rw [hb, hdead hno k, Nat.add_zero]
  · rw [hb]
    split
    · rename_i hy
      subst hy
      exact howed
    · rename_i hy
      rw [hother y hy, Nat.add_zero]
  · have hsum : ∑ y, books (update s.cpus i pc) (.inc p y) = ∑ y, books s.cpus (.inc p y) + g (.inc p x) := by
      simp only [hb, sum_add_distrib]
      rw [sum_eq_single_of_mem x (mem_univ x) fun y _ hy => hother y hy]
    have hs : p.isStaticEntry = false := by
      rw [← not_eq_true]
      intro hs
      obtain ⟨j, rfl⟩ := Place.static_eq hs
      cases hlen
    have := h.refs.balance p hu hs
    have := hbal hu
    rw [hsum, hb, hb]
    omega
  · refine h.frames.congr (usable_congr fun q hq => by rw [set_ne (hlong q hq)]) (fun q hq => ?_) rfl fun f => ?_
    · rw [set_ne (hlong q hq.short)]
    · rw [hb, hg _ (by simp [Key.place?]), Nat.add_zero]

section

variable {st : Stack 0} {x : Idx} {w : Nat} {pc : Pc} (h : Inv s) (hw : (s.cpus i).weigh = st.guards)
include h hw

omit [DecidableEq ι] in
/-- The table is there, and only this CPU's guard is looked at. -/
lemma Inv.leaf_place : Usable s.mem st.place ∧ st.place.path.length = 2 ∧
    ∀ j, Calm s.mem (s.mem.set (st.place.child x) w) (s.cpus j) := by
  have hg : 0 < books s.cpus (.guard st.place) := by
    refine Nat.lt_of_lt_of_le ?_ (le_books s.cpus i _)
    rw [hw]
    exact st.guards_place
  refine ⟨h.refs.usable hg, st.place_length, h.calm_set fun q y hq => ?_⟩
  rw [← (Place.child_inj.1 hq).1]
  exact hg

lemma Inv.leafInsert (hold : s.mem.entry (st.place.child x) = 0) (hp : present w) (b : Body 0) :
    Inv ⟨s.mem.set (st.place.child x) w, update s.cpus i (.increaseLoad (.inserted st x b))⟩ := by
  obtain ⟨hu, hlen, hcalm⟩ := h.leaf_place hw (x := x) (w := w)
  have ho := h.refs.owed st.place x
  rw [hold] at ho
  have hz : nz 0 = 0 := rfl
  refine h.leafSet (g := one (.inc st.place x)) hlen (fun j _ => hcalm j) (fun k => by rw [hw]; rfl)
    (fun k hk => one_ne fun he => hk (by rw [he]; rfl)) (fun hno => absurd hu hno) (fun _ _ => hp) ?_
    (fun y hy => one_ne fun he => hy (Key.inc.inj he).2) (fun _ => ?_) fun _ => trivial
  · rw [nz_of_ne (ne_zero_of_present hp), one_self]
    omega
  · rw [hold, hz, nz_of_ne (ne_zero_of_present hp), one_self, one_ne (by nofun), one_ne (by nofun)]

/-- The number of entries stays as it is. -/
lemma Inv.leafReplace (hnz : nz w = nz (s.mem.entry (st.place.child x))) (hp : w ≠ 0 → present w)
    (hpc : pc.weigh = st.guards) (hok : ∀ m, pc.Ok m) : Inv ⟨s.mem.set (st.place.child x) w, update s.cpus i pc⟩ := by
  obtain ⟨hu, hlen, hcalm⟩ := h.leaf_place hw (x := x) (w := w)
  refine h.leafSet (g := fun _ => 0) hlen (fun j _ => hcalm j) (fun k => by rw [hw, hpc]; rfl)
    (fun _ _ => rfl) (fun _ _ => rfl) (fun _ => hp) ?_ (fun _ _ => rfl) (fun _ => ?_) hok
  · rw [hnz]
    exact h.refs.owed _ _
  · rw [hnz, Nat.add_comm]

lemma Inv.leafRemove (hold : present (s.mem.entry (st.place.child x)))
    (hserial : ∀ j, (s.cpus j).inserting ≠ some (st.place, x)) (b : Body 0) :
    Inv ⟨s.mem.set (st.place.child x) 0, update s.cpus i (.releaseLoad (.entry st b))⟩ := by
  obtain ⟨hu, hlen, hcalm⟩ := h.leaf_place hw (x := x) (w := 0)
  -- the entry that goes is counted
  have hinc : books s.cpus (.inc st.place x) = 0 :=
    (total_eq_zero_iff _ _).2 fun j => (s.cpus j).inc_leaf hlen (hserial j)
  refine h.leafSet (g := one (.dec st.place)) hlen (fun j _ => hcalm j) (fun k => by rw [hw]; rfl)
    (fun k hk => one_ne fun he => hk (by rw [he]; rfl)) (fun hno => absurd hu hno) (fun _ hne => absurd rfl hne) ?_
    (fun y _ => one_ne nofun) (fun _ => ?_) fun _ => trivial
  · rw [hinc, one_ne (by nofun)]
    exact Nat.zero_le _
  · rw [nz_of_ne (ne_zero_of_present hold), one_self, one_ne (by nofun), one_ne (by nofun)]
    rfl

end

/-- The entry of level 1 that the next step removes, if it is there. -/
def Pc.removing : Pc → Option (Place × Idx)
  | .leaf st x .unmap _ | .leaf st x .tryUnmap _ => some (st.place, x)
  | _ => none

lemma Inv.leafOp (h : Inv s) {st : Stack 0} {op : LeafOp} {b : Body 0} (hpc : s.cpus i = .leaf st x op b)
    (hserial : ∀ j e, (s.cpus i).removing = some e → (s.cpus j).inserting ≠ some e) :
    Inv ⟨(op.exec s.mem st x b).1, update s.cpus i (op.exec s.mem st x b).2⟩ := by
  have hw : (s.cpus i).weigh = st.guards := by rw [hpc]; rfl
  obtain ⟨hu, hlen, -⟩ := h.leaf_place hw (x := x) (w := 0)
  -- an entry that is not present is 0
  have hzero : present (s.mem.entry (st.place.child x)) ≠ true → s.mem.entry (st.place.child x) = 0 := by
    intro hp
    by_contra hne
    rcases h.refs.shape (st.place.child x) hu hne with hp' | ⟨hshort, -⟩
    · exact hp hp'
    simp only [Place.child, length_cons, hlen] at hshort
    omega
  have hremove : ∀ pc : Pc, pc.weigh = st.guards → (∀ m, pc.Ok m) → op = .unmap ∨ op = .tryUnmap →
      Inv ⟨s.mem.set (st.place.child x) 0, update s.cpus i
        (if present (s.mem.entry (st.place.child x)) then .releaseLoad (.entry st b) else pc)⟩ := by
    intro pc hpcw hok hop
    split
    · rename_i hp
      refine h.leafRemove hw hp (fun j => hserial j _ ?_) b
      rw [hpc]
      rcases hop with rfl | rfl <;> rfl
    · rename_i hp
      exact h.leafReplace hw (by rw [hzero hp]) (fun hne => absurd rfl hne) hpcw hok
  cases op with
  | map entry =>
    simp only [LeafOp.exec]
    split
    · rename_i hold
      exact h.leafInsert hw hold entry.isPresent b
    · exact h.quiet hw.symm trivial rfl rfl
  | setPage entry =>
    simp only [LeafOp.exec]
    split
    · rename_i hold
      exact h.leafInsert hw hold entry.isPresent b
    rename_i hold
    refine h.leafReplace hw ?_ (fun _ => entry.isPresent) (st.weigh_run b) fun _ => st.run_ok b
    rw [nz_of_ne (ne_zero_of_present entry.isPresent), nz_of_ne hold]
  | unmap => exact hremove (.panicked st true) rfl (fun _ => trivial) (.inl rfl)
  | tryUnmap => exact hremove (st.run b) (st.weigh_run b) (fun _ => st.run_ok b) (.inr rfl)

lemma freezeNext_ok (tables : Nat) (k : Fin 256) (path : List Idx) : (freezeNext tables k path).Ok m := by
  induction path with
  | nil =>
    rw [freezeNext]
    split <;> trivial
  | cons x path ih =>
    rw [freezeNext]
    split
    · trivial
    · exact ih

lemma Inv.freezeLeaf (h : Inv s) {tables : Nat} {k : Fin 256} {path : List Idx}
    (hpc : s.cpus i = .freeze tables k (x :: path)) (hlen : path.length = 2) (hw : ∀ key, pc.weigh key = 0)
    (hok : ∀ m, pc.Ok m) :
    Inv ⟨s.mem.set ⟨.user tables k, x :: path⟩ (frozen (s.mem.entry ⟨.user tables k, x :: path⟩)),
      update s.cpus i pc⟩ := by
  set q : Place := ⟨.user tables k, x :: path⟩
  have hzero : frozen 0 = 0 := rfl
  set p : Place := ⟨.user tables k, path⟩
  have hshape : Usable s.mem p → s.mem.entry q ≠ 0 → present (s.mem.entry q) := by
    intro hu hne
    rcases h.refs.shape q hu hne with hp | ⟨hshort, -⟩
    · exact hp
    simp only [q, length_cons, hlen] at hshort
    omega
  have hnz : Usable s.mem p → nz (frozen (s.mem.entry q)) = nz (s.mem.entry q) := by
    intro hu
    by_cases hz : s.mem.entry q = 0
    · rw [hz, hzero]
    · rw [nz_of_ne hz, nz_of_ne (frozen_ne_zero (hshape hu hz))]
  have hmine : ∀ key, (s.cpus i).weigh key = 0 := fun key => by rw [hpc]; rfl
  refine h.leafSet (p := p) (g := fun _ => 0) hlen (fun j _ q' hq y hz => ?_)
    (fun key => by rw [hw, hmine]) (fun _ _ => rfl) (fun _ _ => rfl) (fun hu hne => ?_) ?_ (fun _ _ => rfl)
    (fun hu => ?_) hok
  · by_cases he : q'.child y = q
    · rw [he] at hz
      rw [he, hz, hzero]
      exact set_self 0
    · exact (set_ne he).trans hz
  · rw [present_frozen]
    exact hshape hu fun hz => hne (by rw [hz, hzero])
  · by_cases hu : Usable s.mem p
    · rw [hnz hu]
      exact h.refs.owed _ _
    · rw [(h.refs.quiet _ hu).2.2 x]
      exact Nat.zero_le _
  · have hsame : nz (frozen (s.mem.entry q)) = nz (s.mem.entry (p.child x)) := hnz hu
    rw [hsame, Nat.add_comm]

/-! ## All steps -/

variable {garbage : Idx → Nat} {pc : Pc}

/-- The entries that storing and zeroing a new table leave alone. -/
lemma Memory.setTable_set_ne {c : Idx → Nat} (hp : q ≠ p) (hc : ∀ x, q ≠ p.child x) :
    ((m.setTable p c).set p w).entry q = m.entry q := by
  rw [set_ne hp, setTable_ne hc]

lemma Inv.exec (h : Inv s) (hcard : Fintype.card ι ≤ 255)
    (hserial : ∀ j e, (s.cpus i).removing = some e → (s.cpus j).inserting ≠ some e)
    (he : exec s.mem frame garbage (s.cpus i) = some (m', pc)) : Inv ⟨m', update s.cpus i pc⟩ := by
  generalize hpc : s.cpus i = c at he
  cases c with
  | idle | panicked st own | assertFailed => cases he
  | unlock lock =>
    cases he
    have hw : Pc.idle.weigh = (s.cpus i).weigh := by rw [hpc]; rfl
    cases lock <;> exact h.quiet hw trivial rfl rfl
  | acquireLoad a =>
    cases he
    exact h.acquireSeen hcard (by rw [hpc]; rfl)
  | acquireExchange a current => exact h.acquireExchange hcard hpc he
  | allocate a =>
    simp only [PageTable.exec] at he
    split at he
    · cases he
    rename_i hf
    cases he
    exact h.allocate hpc (not_eq_true _ ▸ hf)
  | storeNew a f =>
    cases he
    refine h.scratch (a := a) (f := f) (by rw [hpc]) rfl ?_ rfl (fun q => Memory.setTable_set_ne) trivial
    rw [Memory.set_self]
    exact initializing_newEntry ..
  | zero a f =>
    cases he
    have hinit : 0 < books s.cpus (.init a.st.place) := by
      refine Nat.lt_of_lt_of_le ?_ (le_books s.cpus i _)
      rw [hpc]
      simp [Pc.weigh, one]
    refine h.scratch (a := a) (f := f) (by rw [hpc]; rfl) rfl ?_ rfl (fun q _ hq => Memory.setTable_ne hq)
      fun x => Memory.setTable_child _
    rw [Memory.setTable_ne a.st.place.ne_child_self]
    exact h.refs.initializing hinit
  | storeDone a f =>
    cases he
    exact h.storeDone hpc
  | increaseLoad w =>
    have hw : (s.cpus i).weigh = w.weigh := by rw [hpc]; rfl
    simp only [PageTable.exec] at he
    split at he
    · rename_i hs
      cases he
      exact h.increaseDone hw hs
    · rename_i hs
      cases he
      exact h.increaseSeen hcard hw (not_eq_true _ ▸ hs)
  | increaseExchange w current => exact h.increaseExchange hcard hpc he
  | leaf st x op b =>
    have hex : op.exec s.mem st x b = (m', pc) := Option.some.inj he
    have hinv := h.leafOp hpc hserial
    rwa [hex] at hinv
  | releaseLoad r =>
    have hw : (s.cpus i).weigh = r.weigh := by rw [hpc]; rfl
    simp only [PageTable.exec] at he
    split at he
    · rename_i hs
      cases he
      exact h.releaseDone hw hs
    · rename_i hs
      cases he
      exact h.releaseSeen hw (not_eq_true _ ▸ hs)
  | releaseExchange r current => exact h.releaseExchange hpc he
  | deallocate st f =>
    cases he
    exact h.deallocate hpc
  | freeze tables k path =>
    have hnext : ∀ pc : Pc, (∀ key, pc.weigh key = 0) → pc.weigh = (s.cpus i).weigh := by
      intro pc hpc'
      rw [hpc]
      exact funext hpc'
    simp only [PageTable.exec] at he
    split at he
    · rename_i hlen
      cases path with
      | nil => cases hlen
      | cons x path =>
        cases he
        exact h.freezeLeaf hpc (Nat.succ.inj hlen) (freezeNext_weigh tables k _) fun _ => freezeNext_ok ..
    split at he
    · cases he
      exact h.quiet (hnext _ (freezeNext_weigh tables k path)) (freezeNext_ok ..) rfl rfl
    · cases he
      exact h.quiet (hnext _ fun _ => rfl) trivial rfl rfl

/-! ## Tables that go -/

lemma Usable.mono (h : ∀ q : Place, q.path.length ≤ 2 → ready (m.entry q) → ready (m'.entry q)) (hu : Usable m p) :
    Usable m' p :=
  ⟨hu.short, fun l hl => h ⟨p.root, l⟩ (hl.length_le.trans hu.short) (hu.all l hl)⟩

lemma Usable.set (hu : Usable m p) (hw : q.path.length ≤ 2 → ready (m.entry q) → ready w) : Usable (m.set q w) p := by
  refine hu.mono fun r hr hready => ?_
  by_cases he : r = q
  · subst he
    rw [set_self]
    exact hw hr hready
  · rw [set_ne he]
    exact hready

lemma Usable.of_entry (hu : Usable m p) (he : m'.entry = m.entry) : Usable m' p := (usable_of_entry he p).2 hu

omit [DecidableEq ι] in
/-- A table goes when the last guard finds the stored count 0, and no other way. -/
lemma Inv.exec_usable (h : Inv s) (he : PageTable.exec s.mem frame garbage (s.cpus i) = some (m', pc))
    (hinv : pc.Ok m') (hu : Usable s.mem p) (hgone : ¬Usable m' p) :
    ∃ n, ∃ st : Stack n, st.place = p ∧ (s.cpus i).weigh = st.guards ∧ p.isStaticEntry = false ∧
      refCount (s.mem.entry p) = 0 := by
  have hcount : ∀ q n, Usable (s.mem.set q (setRefCount (s.mem.entry q) n)) p :=
    fun q n => hu.set fun _ hr => ready_setRefCount.trans hr
  have hinit : ∀ q, 0 < (s.cpus i).weigh (.init q) → 0 < books s.cpus (.init q) :=
    fun q hq => Nat.lt_of_lt_of_le hq (le_books s.cpus i _)
  have hok := h.cpus i
  generalize hpc : s.cpus i = c at he hinit hok
  cases c with
  | idle | panicked st own | assertFailed => cases he
  | unlock lock =>
    cases he
    cases lock <;> exact (hgone (hu.of_entry rfl)).elim
  | acquireLoad a | deallocate st f =>
    cases he
    exact (hgone (hu.of_entry rfl)).elim
  | increaseLoad w | releaseLoad r | increaseExchange w current =>
    simp only [PageTable.exec] at he
    grind
  | acquireExchange a current =>
    simp only [PageTable.exec] at he
    have hnew : ∀ w, present (s.mem.entry a.st.place) ≠ true → Usable (s.mem.set a.st.place w) p :=
      fun w hp => hu.set fun _ hr => absurd (ready_iff.1 hr).1 hp
    grind
  | allocate a =>
    simp only [PageTable.exec] at he
    split at he
    · cases he
    cases he
    exact (hgone (hu.of_entry rfl)).elim
  | storeNew a f =>
    cases he
    refine absurd ((usable_scratch h.refs (hinit a.st.place (by simp [Pc.weigh, one])) ?_
      (fun q => setTable_set_ne) p).2 hu) hgone
    rw [set_self]
    exact initializing_newEntry ..
  | zero a f =>
    cases he
    have hi := hinit a.st.place (by simp [Pc.weigh, one])
    refine absurd ((usable_scratch h.refs hi ?_ (fun q _ hq => Memory.setTable_ne hq) p).2 hu) hgone
    rw [Memory.setTable_ne a.st.place.ne_child_self]
    exact h.refs.initializing hi
  | storeDone a f =>
    cases he
    exact absurd (hu.set fun _ _ => ready_iff.2 ⟨present_newEntry .., initializing_newEntry ..⟩) hgone
  | leaf st x op b =>
    have hex : (op.exec s.mem st x b).1 = m' := congrArg Prod.fst (Option.some.inj he)
    have hlen := st.place_length
    have hset : ∀ w, Usable (s.mem.set (st.place.child x) w) p := fun w => hu.set fun hshort _ => by
      simp only [Place.child, length_cons] at hshort
      omega
    refine absurd ?_ hgone
    rw [← hex]
    cases op with
    | map entry =>
      simp only [LeafOp.exec]
      split
      · exact hset _
      · exact hu
    | setPage entry => exact hset _
    | unmap => exact hset _
    | tryUnmap => exact hset _
  | releaseExchange r current =>
    have hs : r.place.isStaticEntry = false := hok
    simp only [PageTable.exec] at he
    split at he
    · rename_i hcur
      subst hcur
      split at he
      · cases he
        exact absurd (hcount _ _) hgone
      rename_i hzero
      cases he
      have hlast : refCount (s.mem.entry r.place) = 0 := by omega
      cases r with
      | entry st b => exact absurd hinv id
      | guard st =>
        have hw : (s.cpus i).weigh = st.guards := by rw [hpc]; rfl
        have hz := entries_eq_zero.1 (h.last hw hs hlast).2.2.1
        have hplace : Usable s.mem st.place := (h.rel_place (r := .guard st) hw).1
        by_cases hp : p = st.place
        · subst hp
          exact ⟨_, st, rfl, rfl, hs, hlast⟩
        · exact absurd ((usable_free hplace hz p).2 ⟨hu, hp⟩) hgone
    · cases he
      exact absurd hu hgone
  | freeze tables k path =>
    simp only [PageTable.exec] at he
    split at he
    · rename_i hlen
      cases he
      exact absurd (hu.set fun hshort _ => by simp only [hlen] at hshort; omega) hgone
    split at he <;> cases he <;> exact absurd hu hgone

end Mushroom.L2.PageTable
