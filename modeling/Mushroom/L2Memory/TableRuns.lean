import Mushroom.L2Memory.TableExec

/-!
# Runs of the page-table operations

In every run in which no CPU removes an entry of level 1 that another CPU has
inserted and not counted yet, the counts are right and no frame is freed too
early (`table_counts`). The condition is the caller's: the locks of
`VirtualMemory` keep two operations from working on one page. Without it the
count of the table runs down under a guard (`unmap_overtakes_set`).
-/
namespace Mushroom.L2.PageTable
open Option Ledger

variable {ι : Type} [Fintype ι] [DecidableEq ι] {s : State ι} {i : ι}

/-! ## The invariant holds -/

lemma Call.start_quiet {m m' : Memory} {c : Call} {pc : Pc} (h : c.start m = some (m', pc)) :
    m'.entry = m.entry ∧ m'.frames = m.frames ∧ (∀ k, pc.weigh k = 0) ∧ ∀ m, pc.Ok m := by
  have hread : ∀ {t : Nat} {m1 : Memory}, m.read t = some m1 → m1.entry = m.entry ∧ m1.frames = m.frames := by
    intro t m1 hm
    simp only [Memory.read] at hm
    split at hm
    · cases hm
    cases hm
    exact ⟨rfl, rfl⟩
  cases c with
  | mapPage t page entry | unmapPage t page =>
    cases h
    exact ⟨rfl, rfl, Job.weigh_next _, fun _ => Job.next_ok _⟩
  | setPage t page entry =>
    simp only [Call.start] at h
    split at h
    · obtain ⟨m1, hm, hpc⟩ := map_eq_some_iff.1 h
      cases hpc
      exact ⟨(hread hm).1, (hread hm).2, Job.weigh_next _, fun _ => Job.next_ok _⟩
    · cases h
      exact ⟨rfl, rfl, fun _ => rfl, fun _ => trivial⟩
  | tryUnmapUserPages t start finish =>
    simp only [Call.start] at h
    split at h
    · cases h
      exact ⟨rfl, rfl, fun _ => rfl, fun _ => trivial⟩
    split at h
    · cases h
      exact ⟨rfl, rfl, fun _ => rfl, fun _ => trivial⟩
    obtain ⟨m1, hm, hpc⟩ := map_eq_some_iff.1 h
    cases hpc
    exact ⟨(hread hm).1, (hread hm).2, Job.weigh_next _, fun _ => Job.next_ok _⟩
  | freezeUserspace t =>
    obtain ⟨m1, hm, hpc⟩ := map_eq_some_iff.1 h
    cases hpc
    simp only [Memory.write] at hm
    split at hm
    · cases hm
    cases hm
    exact ⟨rfl, rfl, fun _ => rfl, fun _ => trivial⟩

/-- No CPU removes the entry that another has inserted and not counted yet. -/
def Serial (s : State ι) (l : ι × Act) : Prop := ∀ j e, (s.cpus l.1).removing = some e → (s.cpus j).inserting ≠ some e

variable {l : ι × Act} {s' : State ι}

lemma Inv.next (h : Inv s) (hcard : Fintype.card ι ≤ 255) (hserial : Serial s l)
    (hn : next s l = some s') : Inv s' := by
  obtain ⟨⟨m', pc⟩, ho, rfl⟩ := map_eq_some_iff.1 hn
  rcases l with ⟨i, c | ⟨frame, garbage⟩⟩
  · simp only [act] at ho
    split at ho
    · rename_i hpc
      obtain ⟨he, hf, hw, hok⟩ := Call.start_quiet ho
      refine h.quiet (funext fun k => ?_) (hok _) he hf
      rw [hw, hpc]
      rfl
    · cases ho
  · exact h.exec hcard hserial ho

omit [DecidableEq ι] in
lemma Inv.boot (hb : Boot s.mem) (hidle : ∀ i, s.cpus i = .idle) : Inv s := by
  have hzero : ∀ k, books s.cpus k = 0 := fun k => (total_eq_zero_iff _ _).2 fun i => by rw [hidle i]; rfl
  have hstatic : ∀ p : Place, s.mem.entry p ≠ 0 → ∃ j, p = ⟨.kernel j, []⟩ := by
    intro p hne
    refine Place.static_eq ?_
    by_contra hs
    exact hne (hb.empty p (Bool.not_eq_true _ ▸ hs))
  have husable : ∀ p, Usable s.mem p → ∃ j, p = ⟨.kernel j, []⟩ := fun p hu => hstatic p (ready_of_ne hu.ready_self)
  refine ⟨⟨fun p hu hs => ?_, fun p _ => ⟨hzero _, hzero _, fun x => hzero _⟩, fun p x => ?_, fun p _ hne => ?_,
    fun j => (hb.kernel j).1, fun p _ _ => ?_, fun p _ => hzero _⟩,
    ⟨fun p hu => ?_, fun p q hu hv he => ?_, fun f => ?_, fun f hf => ?_⟩, fun i => ?_⟩
  · obtain ⟨j, rfl⟩ := husable p hu
    cases hs
  · rw [hzero]
    exact Nat.zero_le _
  · obtain ⟨j, rfl⟩ := hstatic p hne
    exact .inl (ready_iff.1 (hb.kernel j).1).1
  · rw [hzero]
    by_cases hne : s.mem.entry p = 0
    · rw [hne]
      rfl
    obtain ⟨j, rfl⟩ := hstatic p hne
    rw [(ready_iff.1 (hb.kernel j).1).2]
    rfl
  · obtain ⟨j, rfl⟩ := husable p hu
    exact ⟨(hb.kernel j).2, hzero _⟩
  · obtain ⟨j, rfl⟩ := husable p hu
    obtain ⟨j', rfl⟩ := husable q hv
    rw [hb.distinct j j' he]
  · rw [hzero]
    exact ⟨Nat.zero_le _, fun hpos => absurd hpos (Nat.lt_irrefl 0)⟩
  · obtain ⟨j, hj⟩ := hb.frames f hf
    exact .inr ⟨⟨.kernel j, []⟩, usable_iff.2 ⟨trivial, Nat.zero_le _, (hb.kernel j).1⟩, hj⟩
  · rw [hidle i]
    trivial

lemma inv_reachable (hcard : Fintype.card ι ≤ 255) (hr : ((tables ι).only Serial).Reachable s) : Inv s := by
  have hind : ((tables ι).only Serial).Inductive Inv :=
    ⟨fun s hs => Inv.boot hs.1 hs.2, fun s l s' h hst => h.next hcard hst.1 hst.2⟩
  exact hind.reachable s hr

/-! ## Fixed runs -/

lemma kernelFrame_lt (i : Fin 256) : i.val < 2 ^ 40 := by omega

def bootMemory : Memory where
  entry
    | ⟨.kernel i, []⟩ => newEntry ⟨i, kernelFrame_lt i⟩ false false false
    | _ => 0
  frames f := decide (f.val < 256)
  locks _ := ⟨0, false⟩

lemma bootMemory_boot : Boot bootMemory where
  kernel i := by
    refine ⟨ready_iff.2 ⟨present_newEntry .., initializing_newEntry ..⟩, decide_eq_true ?_⟩
    simp only [bootMemory, frameOf_newEntry]
    exact i.isLt
  distinct i j h := by
    simp only [bootMemory, frameOf_newEntry, Fin.mk.injEq] at h
    exact Fin.ext h
  empty p h := by rcases p with ⟨k | ⟨t, k⟩, l⟩ <;> cases l <;> first | rfl | cases h
  frames f h := ⟨⟨f, of_decide_eq_true h⟩, by simp only [bootMemory, frameOf_newEntry]⟩
  unlocked _ := ⟨rfl, rfl⟩

def userEntry : PresentPageTableEntry := ⟨7, rfl⟩

/-- `n` steps of a CPU; the frame is for `allocate_frame`. -/
def steps {ι : Type} (i : ι) (frame : PhysFrame) (n : Nat) : List (ι × Act) :=
  List.replicate n (i, .run frame fun _ => 0xdead)

def bootState (ι : Type) : State ι := ⟨bootMemory, fun _ => .idle⟩

/-- `set_page` makes the three tables and inserts the entry. -/
def insertPage {ι : Type} (i : ι) : List (ι × Act) :=
  (i, .call (.setPage 0 0 userEntry)) :: steps i 256 6 ++ steps i 257 8 ++ steps i 258 9

omit [Fintype ι] in
lemma reachable_of_runFn {ls : List (ι × Act)} (h : LTS.runFn next (bootState ι) ls = some s) :
    (tables ι).Reachable s := ⟨bootState ι, ls, ⟨bootMemory_boot, fun _ => rfl⟩, LTS.runFn_run h⟩

omit [Fintype ι] in
/-- A run in which no entry of level 1 is removed. -/
lemma serial_of_runFn {ls : List (ι × Act)} (h : LTS.runFn (fun s l => if (s.cpus l.1).removing.isNone then next s l
    else none) (bootState ι) ls = some s) : ((tables ι).only Serial).Reachable s := by
  refine ⟨bootState ι, ls, ⟨bootMemory_boot, fun _ => rfl⟩, LTS.runFn_only _ (fun s l hl => ?_) h⟩
  intro j e hr
  rw [hr] at hl
  cases hl

def Pc.isIdle : Pc → Bool
  | .idle => true
  | _ => false

def Pc.isAssertFailed : Pc → Bool
  | .assertFailed => true
  | _ => false

/-- CPU `i` is about to free the frame of a table on which CPU `j` has a guard. -/
def freesUnder (i j : ι) (s : State ι) : Bool :=
  match s.cpus i with
  | .deallocate st _ => decide (0 < (s.cpus j).weigh (.guard st.place))
  | _ => false

/-! ## Counts and frames -/

def Guards (pc : Pc) (p : Place) : Prop := 0 < pc.weigh (.guard p)

def Initializes (pc : Pc) (p : Place) : Prop := 0 < pc.weigh (.init p)

def HasFrame (pc : Pc) (f : PhysFrame) : Prop := 0 < pc.weigh (.frame f)

omit [DecidableEq ι] in
lemma books_pos {k : Key} : 0 < books s.cpus k ↔ ∃ i, 0 < (s.cpus i).weigh k := by
  constructor
  · intro h
    by_contra hno
    have hz : books s.cpus k = 0 := (total_eq_zero_iff _ _).2 fun i => by
      by_contra hne
      exact hno ⟨i, Nat.pos_of_ne_zero hne⟩
    omega
  · rintro ⟨i, hi⟩
    exact hi.trans_le (le_books s.cpus i k)

omit [DecidableEq ι] in
/-- A table on which nobody has a guard is counted by its entries. -/
lemma Inv.count (h : Inv s) {p : Place} (hl : Linked s.mem p) (hlen : p.path.length ≤ 2)
    (hs : p.isStaticEntry = false) (hp : present (s.mem.entry p))
    (hfree : ∀ i, ¬Guards (s.cpus i) p ∧ ¬Initializes (s.cpus i) p) :
    refCount (s.mem.entry p) + 1 = s.mem.entries p := by
  have hg : books s.cpus (.guard p) = 0 := by
    by_contra hne
    obtain ⟨i, hi⟩ := books_pos.1 (Nat.pos_of_ne_zero hne)
    exact (hfree i).1 hi
  have hinit : initializing (s.mem.entry p) = false := by
    rw [← Bool.not_eq_true]
    intro hinit
    have hb := h.refs.init p hl hlen
    rw [hinit] at hb
    obtain ⟨i, hi⟩ := books_pos.1 (hb ▸ Nat.one_pos : 0 < books s.cpus (.init p))
    exact (hfree i).2 hi
  have hbal := h.refs.balance p (usable_iff.2 ⟨hl, hlen, ready_iff.2 ⟨hp, hinit⟩⟩) hs
  have hd := books_dec_le s.cpus p
  have hinc : ∑ x, books s.cpus (.inc p x) = 0 := by
    refine Finset.sum_eq_zero fun x _ => ?_
    have := books_inc_le s.cpus p x
    omega
  omega

lemma Inv.taken_out (h : Inv s) (hcard : Fintype.card ι ≤ 255) (hserial : Serial s l)
    (hn : PageTable.next s l = some s') {p : Place} (hu : Usable s.mem p) (hgone : ¬Usable s'.mem p) :
    s.mem.entries p = 0 ∧ (∀ j, j ≠ l.1 → ¬Guards (s.cpus j) p) := by
  have hinv := h.next hcard hserial hn
  obtain ⟨⟨m', pc⟩, ho, rfl⟩ := map_eq_some_iff.1 hn
  rcases l with ⟨i, c | ⟨frame, garbage⟩⟩
  · simp only [act] at ho
    split at ho
    · exact absurd (hu.of_entry (Call.start_quiet ho).1) hgone
    · cases ho
  have hok := hinv.cpus i
  simp only [Function.update_self] at hok
  obtain ⟨n, st, rfl, hw, hs, hcount⟩ := h.exec_usable ho hok hu hgone
  obtain ⟨hone, -, hent, -⟩ := h.last hw hs hcount
  refine ⟨hent, fun j hj hg => ?_⟩
  -- one guard is this CPU's
  have htwo : (s.cpus i).weigh (.guard st.place) + (s.cpus j).weigh (.guard st.place) ≤
      books s.cpus (.guard st.place) := add_le_total (fun pc : Pc => pc.weigh (.guard st.place)) s.cpus hj.symm
  have hmine := st.guards_place
  rw [hw] at htwo
  have hg : 0 < (s.cpus j).weigh (.guard st.place) := hg
  omega

/-- On up to 255 CPUs, in every run in which no CPU removes an entry of level 1 that another has inserted and not
counted yet: the stored count of a present table entry plus one is the number of non-zero entries of its table,
unless somebody has a guard on it or is making its table; a table goes only when its last entry has gone and
nobody else has a guard on it; a frame about to be freed is in no entry, a guard keeps its table, and no frame
is lost; no assertion on a count or a frame fails, that the count fits included. -/
theorem table_counts {ι : Type} [Fintype ι] [DecidableEq ι] (hcard : Fintype.card ι ≤ 255) (s : State ι)
    (hr : ((tables ι).only Serial).Reachable s) :
    (∀ p, Linked s.mem p → p.path.length ≤ 2 → p.isStaticEntry = false → present (s.mem.entry p) = true →
      (∀ i, ¬Guards (s.cpus i) p ∧ ¬Initializes (s.cpus i) p) → refCount (s.mem.entry p) + 1 = s.mem.entries p) ∧
    (∀ l s', ((tables ι).only Serial).step s l s' → ∀ p, Usable s.mem p → ¬Usable s'.mem p →
      s.mem.entries p = 0 ∧ ∀ j, j ≠ l.1 → ¬Guards (s.cpus j) p) ∧
    (∀ i n, ∀ st : Stack n, ∀ f, s.cpus i = .deallocate st f → ∀ p, Usable s.mem p → frameOf (s.mem.entry p) ≠ f) ∧
    (∀ i p, Guards (s.cpus i) p → Usable s.mem p) ∧
    (∀ f, s.mem.frames f = true → (∃ p, Usable s.mem p ∧ frameOf (s.mem.entry p) = f) ∨ ∃ i, HasFrame (s.cpus i) f) ∧
    ∀ i, s.cpus i ≠ .assertFailed := by
  have h := inv_reachable hcard hr
  refine ⟨fun p => h.count, fun l s' hst p => h.taken_out hcard hst.1 hst.2, fun i n st f hpc p hu hf => ?_,
    fun i p hg => h.usable hg, fun f hf => ?_, fun i hpc => ?_⟩
  · have hused := (h.frames.used p hu).2
    rw [hf] at hused
    have hmine := le_books s.cpus i (.frame f)
    rw [hused, hpc] at hmine
    simp [Pc.weigh, one] at hmine
  · rcases h.frames.owner f hf with hpos | hp
    · exact .inr (books_pos.1 hpos)
    · exact .inl hp
  · have hok := h.cpus i
    rwa [hpc] at hok

/-- One CPU has set a page, and another one is making the tables for a page of another root entry. -/
lemma second_root : ∃ s : State Bool, ((tables Bool).only Serial).Reachable s ∧ (s.cpus true).isIdle = false ∧
    (∀ i, ¬Guards (s.cpus i) ⟨.user 0 0, []⟩ ∧ ¬Initializes (s.cpus i) ⟨.user 0 0, []⟩) ∧
    ready (s.mem.entry ⟨.user 0 0, []⟩) = true ∧ ready (s.mem.entry ⟨.user 0 0, [0]⟩) = true := by
  have hrun : ((LTS.runFn (fun s l => if (s.cpus l.1).removing.isNone then next s l else none) (bootState Bool)
      (insertPage false ++ steps false 0 9 ++ (true, .call (.setPage 0 (2 ^ 27) userEntry)) :: steps true 259 6)).any
      fun s => decide ((s.cpus true).isIdle = false ∧ (∀ i, ¬0 < (s.cpus i).weigh (.guard ⟨.user 0 0, []⟩) ∧
        ¬0 < (s.cpus i).weigh (.init ⟨.user 0 0, []⟩)) ∧ ready (s.mem.entry ⟨.user 0 0, []⟩) = true ∧
          ready (s.mem.entry ⟨.user 0 0, [0]⟩) = true)) = true := by decide +kernel
  obtain ⟨s, hs, hp⟩ := (any_eq_true _ _).1 hrun
  simp only [decide_eq_true_eq] at hp
  exact ⟨s, serial_of_runFn hs, hp⟩

/-- The table of level 3 has one entry and the count is 0. -/
theorem table_counts_set_page : ∃ s : State Bool, ((tables Bool).only Serial).Reachable s ∧
    (s.cpus true).isIdle = false ∧ refCount (s.mem.entry ⟨.user 0 0, []⟩) + 1 = s.mem.entries ⟨.user 0 0, []⟩ := by
  obtain ⟨s, hreach, hbusy, hfree, hready, -⟩ := second_root
  exact ⟨s, hreach, hbusy,
    (table_counts (by decide) s hreach).1 _ trivial (Nat.zero_le _) rfl (ready_iff.1 hready).1 hfree⟩

/-- The frame of a table in use is allocated, no CPU is about to free it, and it is no other table's. -/
theorem tables_distinct (hcard : Fintype.card ι ≤ 255) (s : State ι)
    (hr : ((tables ι).only Serial).Reachable s) (p q : Place) (hp : Usable s.mem p) (hq : Usable s.mem q) :
    s.mem.frames (frameOf (s.mem.entry p)) = true ∧ (∀ i, ¬HasFrame (s.cpus i) (frameOf (s.mem.entry p))) ∧
      (frameOf (s.mem.entry p) = frameOf (s.mem.entry q) → p = q) := by
  have h := (inv_reachable hcard hr).frames
  obtain ⟨hused, hnone⟩ := h.used p hp
  refine ⟨hused, fun i hi => ?_, h.distinct p q hp hq⟩
  exact absurd hnone (Nat.ne_of_gt (books_pos.2 ⟨i, hi⟩))

/-- The tables of levels 3 and 2 that the first CPU has made. -/
theorem tables_distinct_set_page : ∃ s : State Bool, ((tables Bool).only Serial).Reachable s ∧
    (s.cpus true).isIdle = false ∧ s.mem.frames (frameOf (s.mem.entry ⟨.user 0 0, []⟩)) = true ∧
    frameOf (s.mem.entry ⟨.user 0 0, []⟩) ≠ frameOf (s.mem.entry ⟨.user 0 0, [0]⟩) := by
  obtain ⟨s, hreach, hbusy, -, h3, h2⟩ := second_root
  have hp : Usable s.mem ⟨.user 0 0, []⟩ := usable_iff.2 ⟨trivial, Nat.zero_le _, h3⟩
  have hq : Usable s.mem ⟨.user 0 0, [0]⟩ := usable_iff.2 ⟨hp, by decide, h2⟩
  obtain ⟨hused, -, hdistinct⟩ := tables_distinct (by decide) s hreach _ _ hp hq
  exact ⟨s, hreach, hbusy, hused, fun he => absurd (hdistinct he) (by decide)⟩

/-- `try_unmap_user_pages` removes an entry that `set_page` has inserted and not counted, and finds the stored
count 0: it frees the table under the guard of `set_page`, whose `increase_reference_count` fails. -/
theorem unmap_overtakes_set : ∃ s s' : State Bool, ∃ l, (tables Bool).Reachable s ∧ (tables Bool).step s l s' ∧
    (∃ n, ∃ st : Stack n, ∃ f, s.cpus true = .deallocate st f ∧ Guards (s.cpus false) st.place) ∧
    s'.cpus false = .assertFailed := by
  have hrun : ((LTS.runFn next (bootState Bool) (insertPage false ++
      (true, .call (.tryUnmapUserPages 0 (.included 0) (.included 0))) :: steps true 0 11)).any fun s =>
      freesUnder true false s && (next s (false, .run 0 fun _ => 0)).any fun s' => (s'.cpus false).isAssertFailed) =
        true := by decide +kernel
  obtain ⟨s, hs, hc⟩ := (any_eq_true _ _).1 hrun
  obtain ⟨hfree, hnext⟩ := Bool.and_eq_true_iff.1 hc
  obtain ⟨s', hs', hfail⟩ := (any_eq_true _ _).1 hnext
  refine ⟨s, s', _, reachable_of_runFn hs, hs', ?_, ?_⟩
  · rw [freesUnder] at hfree
    split at hfree
    · rename_i st f hpc
      have hg : 0 < (s.cpus false).weigh (.guard st.place) := of_decide_eq_true hfree
      exact ⟨_, st, f, hpc, hg⟩
    · cases hfree
  · cases hpc : s'.cpus false <;> rw [hpc] at hfail <;> first | rfl | cases hfail

end Mushroom.L2.PageTable
