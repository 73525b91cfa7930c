import Mushroom.L2Memory.TableSteps

/-!
# The invariant of the page tables

What a program counter has is consistent in itself: whoever has an entry that is
not counted, or is still counted, has a guard on its table. With that, every
access of `exec` keeps the invariant, as long as no entry of level 1 is removed
that another CPU has inserted and not counted yet.
-/
namespace Mushroom.L2.PageTable

open Function Ledger

variable {n : Nat} {m m' : Memory} {b b' w : Key → Nat} {p q : Place} {x y : Idx}

/-! ## Frames -/

lemma one_frame {f f' : PhysFrame} : one (.frame f) (.frame f') = if f' = f then 1 else 0 := by simp [one]

lemma Frames.congr (h : Frames m b) (hU : ∀ q, Usable m' q ↔ Usable m q)
    (hf : ∀ q, Usable m q → frameOf (m'.entry q) = frameOf (m.entry q)) (hm : m'.frames = m.frames)
    (hb : ∀ f, b' (.frame f) = b (.frame f)) : Frames m' b' := by
  obtain ⟨hused, hdistinct, hheld, howner⟩ := h
  constructor <;> grind

section

variable {f : PhysFrame}

variable (h : Frames m b)
include h

lemma Frames.allocate (hf : m.frames f = false)
    (hb : ∀ f', b' (.frame f') = b (.frame f') + one (.frame f) (.frame f')) : Frames (m.setFrame f true) b' := by
  have hU : ∀ q, Usable (m.setFrame f true) q ↔ Usable m q := usable_of_entry rfl
  have hframes : ∀ f', (m.setFrame f true).frames f' = if f' = f then true else m.frames f' := fun _ => update_apply ..
  have hentry : (m.setFrame f true).entry = m.entry := rfl
  obtain ⟨hused, hdistinct, hheld, howner⟩ := h
  simp only [one_frame] at hb
  constructor <;> simp only [hU, hframes, hentry] <;> grind

lemma Frames.deallocate (hf : 0 < b (.frame f))
    (hb : ∀ f', b' (.frame f') + one (.frame f) (.frame f') = b (.frame f')) : Frames (m.setFrame f false) b' := by
  have hU : ∀ q, Usable (m.setFrame f false) q ↔ Usable m q := usable_of_entry rfl
  have hframes : ∀ f', (m.setFrame f false).frames f' = if f' = f then false else m.frames f' :=
    fun _ => update_apply ..
  have hentry : (m.setFrame f false).entry = m.entry := rfl
  obtain ⟨hused, hdistinct, hheld, howner⟩ := h
  simp only [one_frame] at hb
  constructor <;> simp only [hU, hframes, hentry] <;> grind

lemma Frames.publish {w : Nat} (hU : ∀ q, Usable (m.set p w) q ↔ Usable m q ∨ q = p)
    (hno : ¬Usable m p) (hw : frameOf w = f) (hf : 0 < b (.frame f))
    (hb : ∀ f', b' (.frame f') + one (.frame f) (.frame f') = b (.frame f')) : Frames (m.set p w) b' := by
  have hframes : (m.set p w).frames = m.frames := rfl
  obtain ⟨hused, hdistinct, hheld, howner⟩ := h
  simp only [one_frame] at hb
  constructor <;> simp only [hU, hframes, Memory.set_entry] <;> grind

lemma Frames.free (hU : ∀ q, Usable (m.set p 0) q ↔ Usable m q ∧ q ≠ p) (hp : Usable m p)
    (hw : frameOf (m.entry p) = f) (hb : ∀ f', b' (.frame f') = b (.frame f') + one (.frame f) (.frame f')) :
    Frames (m.set p 0) b' := by
  have hframes : (m.set p 0).frames = m.frames := rfl
  obtain ⟨hused, hdistinct, hheld, howner⟩ := h
  simp only [one_frame] at hb
  constructor <;> simp only [hU, hframes, Memory.set_entry] <;> grind

end

/-! ## What a program counter has -/

section

variable (st : Stack n)

include st

lemma Stack.place_length : st.place.path.length + n = 2 := by
  induction st with
  | top k job => rfl
  | push x rest below ih =>
    simp only [Stack.place, Place.child, List.length_cons]
    omega

lemma Stack.guards_eq_zero {k : Key} (hk : ∀ q, k ≠ .guard q) : st.guards k = 0 := by
  induction st with
  | top r job => exact one_ne (hk _)
  | push x rest below ih => rw [Stack.guards, one_ne (hk _), ih]

lemma Stack.lower_eq_zero {k : Key} (hk : ∀ q, k ≠ .guard q) : st.lower k = 0 := by
  cases st with
  | top r job => rfl
  | push x rest below => exact below.guards_eq_zero hk

lemma Stack.guards_long (h : st.place.path.length < q.path.length) : st.guards (.guard q) = 0 := by
  induction st with
  | top r job =>
    refine one_ne fun he => ?_
    rw [Key.guard.inj he] at h
    exact Nat.lt_irrefl _ h
  | push x rest below ih =>
    have hlen : below.place.path.length < q.path.length := by
      simp only [Stack.place, Place.child, List.length_cons] at h
      omega
    rw [Stack.guards, ih hlen, Nat.add_zero]
    refine one_ne fun he => ?_
    rw [Key.guard.inj he] at h
    exact Nat.lt_irrefl _ h

lemma Stack.guards_le (q : Place) : st.guards (.guard q) ≤ 1 := by
  induction st with
  | top r job =>
    simp only [Stack.guards, one]
    split <;> omega
  | push x rest below ih =>
    rw [Stack.guards]
    by_cases he : q = below.place.child x
    · have hlen : below.place.path.length < q.path.length := by
        rw [he]
        exact Nat.lt_succ_self _
      rw [below.guards_long hlen, one]
      split <;> omega
    · rw [one_ne fun hk => he (Key.guard.inj hk), Nat.zero_add]
      exact ih

lemma Stack.guards_place : 1 ≤ st.guards (.guard st.place) := by
  rw [st.guards_eq, one_self]
  omega

end

lemma one_inc_le (h : 1 ≤ w (.guard p)) : one (.inc p y) (.inc q x) ≤ w (.guard q) := by
  by_cases he : Key.inc q x = .inc p y
  · obtain ⟨rfl, rfl⟩ := Key.inc.inj he
    rw [one_self]
    exact h
  · rw [one_ne he]
    exact Nat.zero_le _

lemma one_dec_le (h : 1 ≤ w (.guard p)) : one (.dec p) (.dec q) ≤ w (.guard q) := by
  by_cases he : q = p
  · subst he
    rw [one_self]
    exact h
  · rw [one_ne fun hk => he (Key.dec.inj hk)]
    exact Nat.zero_le _

lemma Stack.parentInc_le (st : Stack n) (q : Place) (x : Idx) :
    st.parentInc (.inc q x) ≤ st.lower (.guard q) ∧
      st.parentInc (.inc q x) ≤ one (.init st.place) (.init (q.child x)) := by
  cases st with
  | top k job => exact ⟨Nat.zero_le _, Nat.zero_le _⟩
  | push y rest below =>
    refine ⟨one_inc_le below.guards_place, ?_⟩
    by_cases he : Key.inc q x = .inc below.place y
    · obtain ⟨rfl, rfl⟩ := Key.inc.inj he
      simp only [Stack.parentInc, Stack.place, one_self, le_refl]
    · simp only [Stack.parentInc, one_ne he]
      exact Nat.zero_le _

lemma Stack.parentDec_le (st : Stack n) (q : Place) : st.parentDec (.dec q) ≤ st.lower (.guard q) := by
  cases st with
  | top k job => exact Nat.zero_le _
  | push y rest below => exact one_dec_le below.guards_place

section

variable (st : Stack n) (q : Place) (x : Idx) (f : PhysFrame)

@[simp] lemma Stack.guards_inc : st.guards (.inc q x) = 0 := st.guards_eq_zero fun _ => nofun
@[simp] lemma Stack.guards_dec : st.guards (.dec q) = 0 := st.guards_eq_zero fun _ => nofun
@[simp] lemma Stack.guards_init : st.guards (.init q) = 0 := st.guards_eq_zero fun _ => nofun
@[simp] lemma Stack.lower_inc : st.lower (.inc q x) = 0 := st.lower_eq_zero fun _ => nofun
@[simp] lemma Stack.lower_dec : st.lower (.dec q) = 0 := st.lower_eq_zero fun _ => nofun
@[simp] lemma Stack.lower_init : st.lower (.init q) = 0 := st.lower_eq_zero fun _ => nofun
@[simp] lemma Stack.lower_frame : st.lower (.frame f) = 0 := st.lower_eq_zero fun _ => nofun
@[simp] lemma Stack.parentInc_guard : st.parentInc (.guard q) = 0 := st.parentInc_key.eq_zero fun _ _ _ => nofun
@[simp] lemma Stack.parentInc_dec : st.parentInc (.dec q) = 0 := st.parentInc_key.eq_zero fun _ _ _ => nofun
@[simp] lemma Stack.parentInc_init : st.parentInc (.init q) = 0 := st.parentInc_key.eq_zero fun _ _ _ => nofun
@[simp] lemma Stack.parentInc_frame : st.parentInc (.frame f) = 0 := st.parentInc_key.eq_zero fun _ _ _ => nofun
@[simp] lemma Stack.parentDec_guard : st.parentDec (.guard q) = 0 := st.parentDec_key.eq_zero fun _ _ _ => nofun
@[simp] lemma Stack.parentDec_inc : st.parentDec (.inc q x) = 0 := st.parentDec_key.eq_zero fun _ _ _ => nofun
@[simp] lemma Stack.parentDec_init : st.parentDec (.init q) = 0 := st.parentDec_key.eq_zero fun _ _ _ => nofun
@[simp] lemma Stack.parentDec_frame : st.parentDec (.frame f) = 0 := st.parentDec_key.eq_zero fun _ _ _ => nofun

lemma Stack.lower_le : st.lower (.guard q) ≤ 1 := by
  cases st with
  | top k job => exact Nat.zero_le _
  | push y rest below => exact below.guards_le q

end

/-- Whoever has an entry that is not counted, or still counted, has a guard on its table. -/
structure Sound (w : Key → Nat) : Prop where
  guard : ∀ q, w (.guard q) ≤ 1
  dec : ∀ q, w (.dec q) ≤ w (.guard q)
  inc : ∀ q x, w (.inc q x) ≤ w (.guard q)
  child : ∀ q x, q.path.length < 2 → w (.inc q x) ≤ w (.guard (q.child x)) + w (.init (q.child x))

lemma Stack.sound_guards (st : Stack n) : Sound st.guards := by
  refine ⟨st.guards_le, fun q => ?_, fun q x => ?_, fun q x _ => ?_⟩ <;> simp

lemma Stack.sound_lower (st : Stack n) : Sound st.lower := by
  refine ⟨st.lower_le, fun q => ?_, fun q x => ?_, fun q x _ => ?_⟩ <;> simp

lemma Stack.sound_init (st : Stack n) (hg : ∀ q, w (.guard q) = st.lower (.guard q))
    (hd : ∀ q, w (.dec q) = 0) (hi : ∀ q x, w (.inc q x) = st.parentInc (.inc q x))
    (hn : ∀ q, w (.init q) = one (.init st.place) (.init q)) : Sound w := by
  refine ⟨fun q => ?_, fun q => ?_, fun q x => ?_, fun q x _ => ?_⟩
  · rw [hg]
    exact st.lower_le q
  · rw [hd]
    exact Nat.zero_le _
  · rw [hi, hg]
    exact (st.parentInc_le q x).1
  · rw [hi, hn]
    exact (st.parentInc_le q x).2.trans (Nat.le_add_left _ _)

lemma Sound.addInc (h : Sound w) (hz : ∀ q x, w (.inc q x) = 0) (hp : 1 ≤ w (.guard p))
    (hc : p.path.length < 2 → 1 ≤ w (.guard (p.child y))) : Sound fun k => w k + one (.inc p y) k := by
  refine ⟨fun q => ?_, fun q => ?_, fun q x => ?_, fun q x hq => ?_⟩
  · simpa [one] using h.guard q
  · simpa [one] using h.dec q
  · have := one_inc_le (q := q) (x := x) (y := y) hp
    simpa [one, hz] using this
  simp only [hz, Nat.zero_add]
  by_cases he : Key.inc q x = .inc p y
  · obtain ⟨rfl, rfl⟩ := Key.inc.inj he
    have := hc hq
    rw [one_self]
    omega
  · rw [one_ne he]
    exact Nat.zero_le _

lemma Sound.addDec (h : Sound w) (hz : ∀ q, w (.dec q) = 0) (hp : 1 ≤ w (.guard p)) :
    Sound fun k => w k + one (.dec p) k := by
  refine ⟨fun q => ?_, fun q => ?_, fun q x => ?_, fun q x hq => ?_⟩
  · simpa [one] using h.guard q
  · have := one_dec_le (q := q) hp
    simpa [one, hz] using this
  · simpa [one] using h.inc q x
  · simpa [one] using h.child q x hq

lemma Pc.sound (pc : Pc) : Sound pc.weigh := by
  cases pc with
  | idle | unlock lock | freeze t i path | assertFailed =>
    exact ⟨fun _ => Nat.zero_le _, fun _ => le_rfl, fun _ _ => le_rfl, fun _ _ _ => Nat.zero_le _⟩
  | acquireLoad a | acquireExchange a w => exact a.st.sound_lower
  | allocate a | storeNew a f | zero a f | storeDone a f =>
    refine a.st.sound_init (fun q => ?_) (fun q => ?_) (fun q x => ?_) fun q => ?_ <;> simp [Pc.weigh, one]
  | increaseLoad w | increaseExchange w v =>
    cases w with
    | existing st unwrap b => exact st.sound_lower
    | initialized y rest below b =>
      have hchild := (Stack.push y rest below).guards_place
      exact (Stack.push y rest below).sound_guards.addInc (fun _ _ => by simp)
        (below.guards_place.trans (Nat.le_add_left _ _)) fun _ => hchild
    | inserted st y b =>
      have hlen := st.place_length
      exact st.sound_guards.addInc (fun _ _ => by simp) st.guards_place fun hq => by omega
  | leaf st y op b => exact st.sound_guards
  | releaseLoad r | releaseExchange r v =>
    cases r with
    | entry st b => exact st.sound_guards.addDec (fun _ => by simp) st.guards_place
    | guard st => exact st.sound_guards
  | deallocate st f =>
    refine ⟨fun q => ?_, fun q => ?_, fun q x => ?_, fun q x _ => ?_⟩
    · simpa [Pc.weigh, one] using st.lower_le q
    · simpa [Pc.weigh, one] using st.parentDec_le q
    · simp [Pc.weigh, one]
    · simp [Pc.weigh, one]
  | panicked st own =>
    cases own with
    | false => exact st.sound_lower
    | true => exact st.sound_guards

/-! ## One CPU moves -/

section

variable {ι : Type} [Fintype ι] {s : State ι}

lemma books_inc_le (cpus : ι → Pc) (q : Place) (x : Idx) : books cpus (.inc q x) ≤ books cpus (.guard q) :=
  total_mono _ _ fun i => (cpus i).sound.inc q x

lemma books_dec_le (cpus : ι → Pc) (q : Place) : books cpus (.dec q) ≤ books cpus (.guard q) :=
  total_mono _ _ fun i => (cpus i).sound.dec q

lemma books_guard_le (cpus : ι → Pc) (q : Place) : books cpus (.guard q) ≤ Fintype.card ι :=
  total_le_card _ _ fun i => (cpus i).sound.guard q

/-- The reference count fits: the entries of a table and two for each CPU. -/
lemma Inv.fits (h : Inv s) (hcard : Fintype.card ι ≤ 255) (hu : Usable s.mem p) (hs : p.isStaticEntry = false) :
    refCount (s.mem.entry p) + 1 < 2 ^ 10 := by
  have hbal := h.refs.balance p hu hs
  have hg := books_guard_le s.cpus p
  have hd := books_dec_le s.cpus p
  have he := entries_le s.mem p
  omega

lemma le_books (cpus : ι → Pc) (i : ι) (k : Key) : (cpus i).weigh k ≤ books cpus k :=
  le_total (fun pc : Pc => pc.weigh k) cpus i

lemma Inv.usable (h : Inv s) {i : ι} (hg : 0 < (s.cpus i).weigh (.guard p)) : Usable s.mem p :=
  h.refs.usable (hg.trans_le (le_books s.cpus i _))

/-- What a step of another CPU leaves as it is: the new table of the CPU is empty. -/
def Calm (m m' : Memory) (pc : Pc) : Prop :=
  ∀ q, 0 < pc.weigh (.init q) → ∀ x, m.entry (q.child x) = 0 → m'.entry (q.child x) = 0

lemma Pc.Ok.calm {pc : Pc} (h : pc.Ok m) (hc : Calm m m' pc) : pc.Ok m' := by
  cases pc with
  | storeDone a f =>
    intro x
    refine hc a.st.place ?_ x (h x)
    simp [Pc.weigh, one]
  | _ => exact h

lemma Calm.refl (m : Memory) (pc : Pc) : Calm m m pc := fun _ _ _ hz => hz

/-- An entry of a table with a guard, or of level 4, changes. -/
lemma Inv.calm_set (h : Inv s) {w : Nat} (hg : ∀ q x, p = q.child x → 0 < books s.cpus (.guard q)) (j : ι) :
    Calm s.mem (s.mem.set p w) (s.cpus j) := by
  intro q hq x hz
  by_cases hp : p = q.child x
  · exact absurd (h.refs.usable (hg q x hp))
      (h.refs.not_usable_of_init (hq.trans_le (le_books s.cpus j _)) (List.suffix_refl _))
  · rw [Memory.set_ne (Ne.symm hp)]
    exact hz

lemma Stack.run_ok (st : Stack n) (b : Body n) : (st.run b).Ok m := by
  cases b with
  | done | leaf x op rest => trivial
  | enter x how inner rest => cases how <;> trivial

lemma Job.next_ok (job : Job) : job.next.Ok m := by
  rcases job with ⟨lock, todo⟩
  cases todo with
  | nil => trivial
  | cons t todo =>
    rcases t with ⟨k, how, b⟩
    cases how <;> trivial

lemma Stack.resume_ok (st : Stack n) : st.resume.Ok m := by
  cases st with
  | top k job => exact job.next_ok
  | push x rest below => exact below.run_ok rest

variable [DecidableEq ι] {i : ι} {pc : Pc}

lemma books_update (cpus : ι → Pc) (i : ι) (pc : Pc) (k : Key) :
    books (update cpus i pc) k + (cpus i).weigh k = books cpus k + pc.weigh k :=
  total_update _ _ i pc

lemma Inv.move (h : Inv s) (hrefs : Refs m' (books (update s.cpus i pc)))
    (hframes : Frames m' (books (update s.cpus i pc))) (hok : pc.Ok m')
    (hcalm : ∀ j, j ≠ i → Calm s.mem m' (s.cpus j)) : Inv ⟨m', update s.cpus i pc⟩ := by
  refine ⟨hrefs, hframes, fun j => ?_⟩
  by_cases hj : j = i
  · subst hj
    simp only [update_self]
    exact hok
  · simp only [update_of_ne hj]
    exact (h.cpus j).calm (hcalm j hj)

lemma Inv.quiet (h : Inv s) (hw : pc.weigh = (s.cpus i).weigh) (hok : pc.Ok m') (he : m'.entry = s.mem.entry)
    (hf : m'.frames = s.mem.frames) : Inv ⟨m', update s.cpus i pc⟩ := by
  have hb : ∀ k, books (update s.cpus i pc) k = books s.cpus k := by
    intro k
    have := books_update s.cpus i pc k
    rw [hw] at this
    exact Nat.add_right_cancel this
  refine h.move (h.refs.of_entry he fun k _ => hb k) ?_ hok fun j _ q _ x hz => by rw [he]; exact hz
  exact h.frames.congr (usable_of_entry he) (fun q _ => by rw [he]) hf fun f => hb _

variable {g d : Key → Nat}

lemma Inv.static (h : Inv s) (hs : p.isStaticEntry)
    (hw : ∀ k, pc.weigh k + d k = (s.cpus i).weigh k + g k) (hg : ∀ k, k.place? ≠ some p → g k = 0 ∧ d k = 0)
    (hinc : ∀ x, g (.inc p x) = 0) (hok : pc.Ok s.mem) : Inv ⟨s.mem, update s.cpus i pc⟩ := by
  have hb := books_update s.cpus i pc
  have hsame : ∀ k, k.place? ≠ some p → books (update s.cpus i pc) k = books s.cpus k := by
    intro k hk
    have := hb k
    have := hw k
    obtain ⟨hg, hd⟩ := hg k hk
    omega
  refine h.move (h.refs.static hs hsame fun x => ?_) ?_ hok fun j _ => Calm.refl _ _
  · have := hb (.inc p x)
    have := hw (.inc p x)
    have := hinc x
    omega
  · exact h.frames.congr (fun _ => Iff.rfl) (fun _ _ => rfl) rfl fun f => hsame _ (by simp [Key.place?])

lemma Inv.recount (h : Inv s) (hu : Usable s.mem p) (hn : n < 2 ^ 10)
    (hguard : ∀ q x, p = q.child x → 0 < books s.cpus (.guard q))
    (hw : ∀ k, pc.weigh k + d k = (s.cpus i).weigh k + g k) (hg : ∀ k, k.place? ≠ some p → g k = 0 ∧ d k = 0)
    (hinc : ∀ x, g (.inc p x) = 0) (hcount : n + ∑ x, g (.inc p x) + d (.guard p) + d (.dec p) =
      refCount (s.mem.entry p) + ∑ x, d (.inc p x) + g (.guard p) + g (.dec p)) (hok : ∀ m, pc.Ok m) :
    Inv ⟨s.mem.set p (setRefCount (s.mem.entry p) n), update s.cpus i pc⟩ := by
  have hb := books_update s.cpus i pc
  have hsame : ∀ k, k.place? ≠ some p → books (update s.cpus i pc) k = books s.cpus k := by
    intro k hk
    have := hb k
    have := hw k
    obtain ⟨hg, hd⟩ := hg k hk
    omega
  have hready : ∀ q : Place, q.path.length ≤ 2 →
      ready ((s.mem.set p (setRefCount (s.mem.entry p) n)).entry q) = ready (s.mem.entry q) := by
    intro q _
    by_cases hq : q = p
    · subst hq
      rw [Memory.set_self, ready_setRefCount]
    · rw [Memory.set_ne hq]
  refine h.move (h.refs.recount hu hsame (fun x => ?_) hn fun hs => ?_) ?_ (hok _) fun j _ => h.calm_set hguard j
  · have := hb (.inc p x)
    have := hw (.inc p x)
    have := hinc x
    omega
  · have hbal := h.refs.balance p hu hs
    have hsum : ∑ x, books (update s.cpus i pc) (.inc p x) + ∑ x, d (.inc p x) =
        ∑ x, books s.cpus (.inc p x) + ∑ x, g (.inc p x) := by
      rw [← Finset.sum_add_distrib, ← Finset.sum_add_distrib]
      refine Finset.sum_congr rfl fun x _ => ?_
      have := hb (.inc p x)
      have := hw (.inc p x)
      omega
    have := hb (.guard p)
    have := hw (.guard p)
    have := hb (.dec p)
    have := hw (.dec p)
    omega
  · refine h.frames.congr (usable_congr hready) (fun q _ => ?_) rfl fun f => hsame _ (by simp [Key.place?])
    by_cases hq : q = p
    · subst hq
      rw [Memory.set_self, frameOf_setRefCount]
    · rw [Memory.set_ne hq]

end

end Mushroom.L2.PageTable
