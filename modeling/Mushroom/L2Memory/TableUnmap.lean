import Mushroom.L2Memory.TableRuns

/-!
# What `try_unmap_user_pages` clears

The operation runs alone. Its script visits the level 1 entries of the pages
`start..=end` after the clamps (`unmapPml4_visits`); each step clears an entry
that the script visits or frees an empty table, and shortens the script
(`Cleared`). So the operation returns with exactly the visited entries gone.

The clamp of `start` to the last user page moves a range that begins behind the
user half back into it: the last user page is unmapped although it is not in the
range (`try_unmap_exact_iff`).
-/
namespace Mushroom.L2.PageTable
open List Option Function Ledger Stack PageTable

/-! ## The entries of level 1 -/

def pte (tables page : Nat) : Place :=
  (((⟨.user tables ⟨index 3 page % 256, Nat.mod_lt _ (by decide)⟩, []⟩ : Place).child (index 2 page)).child
    (index 1 page)).child (index 0 page)

/-- What the processor finds in an entry: nothing if a table on the way is missing. -/
def Memory.walk (m : Memory) (p : Place) : Nat :=
  if p.path.tail.tails.all fun l => ready (m.entry ⟨p.root, l⟩) then m.entry p else 0

section

variable {m m' : Memory} {q : Place}

lemma walk_eq (hq : q.path.length = 3) : (Linked m q ∧ m.walk q = m.entry q) ∨ (¬Linked m q ∧ m.walk q = 0) := by
  rcases q with ⟨k, path⟩
  cases path with
  | nil => cases hq
  | cons x path =>
    have hlen : path.length ≤ 2 := by
      have : path.length + 1 = 3 := hq
      omega
    by_cases hl : Linked m ⟨k, x :: path⟩
    · refine .inl ⟨hl, if_pos (all_eq_true.2 fun l hmem => ?_)⟩
      exact hl.all l ((mem_tails l path).1 hmem)
    · refine .inr ⟨hl, if_neg fun hall => hl ⟨hlen, fun l hsub => ?_⟩⟩
      exact all_eq_true.1 hall l ((mem_tails l path).2 hsub)

lemma walk_of_entry (h : m'.entry = m.entry) : m'.walk q = m.walk q := by simp only [Memory.walk, h]

end

/-! ## Scripts that only unmap -/

def Body.Unmaps : {n : Nat} → Body n → Prop
  | _, .done => True
  | _, .leaf _ op rest => op = .tryUnmap ∧ rest.Unmaps
  | _, .enter _ how inner rest => how = .existing false ∧ inner.Unmaps ∧ rest.Unmaps

/-- The script, run in the table of `p`, has the entry `q` of level 1. -/
def Body.Visits : {n : Nat} → Body n → Place → Place → Prop
  | _, .done, _, _ => False
  | _, .leaf x _ rest, p, q => q = p.child x ∨ rest.Visits p q
  | _, .enter x _ inner rest, p, q => inner.Visits (p.child x) q ∨ rest.Visits p q

/-- A bound on the steps: five for a guard that goes, three for one that comes. -/
def Body.cost : {n : Nat} → Body n → Nat
  | _, .done => 0
  | _, .leaf _ _ rest => 4 + rest.cost
  | _, .enter _ _ inner rest => 8 + inner.cost + rest.cost

def Job.Unmaps (job : Job) : Prop := ∀ t ∈ job.todo, t.2.1 = .existing false ∧ t.2.2.Unmaps

def Job.Visits (job : Job) (q : Place) : Prop := ∃ t ∈ job.todo, t.2.2.Visits ⟨t.1, []⟩ q

def todoCost : List (Root × How × Body 2) → Nat
  | [] => 1
  | t :: todo => 8 + t.2.2.cost + todoCost todo

def Stack.Unmaps : {n : Nat} → Stack n → Prop
  | _, .top _ job => job.Unmaps
  | _, .push _ rest below => rest.Unmaps ∧ below.Unmaps

def Stack.Visits : {n : Nat} → Stack n → Place → Prop
  | _, .top _ job, q => job.Visits q
  | _, .push _ rest below, q => rest.Visits below.place q ∨ below.Visits q

def Stack.cost : {n : Nat} → Stack n → Nat
  | _, .top _ job => todoCost job.todo
  | _, .push _ rest below => rest.cost + 5 + below.cost

/-- A word that `try_unmap_user_pages` has loaded is still there, as no other CPU is active. -/
def Pc.Unmaps (m : Memory) : Pc → Prop
  | idle | unlock _ => True
  | increaseLoad (.existing st unwrap b) => unwrap = false ∧ st.Unmaps ∧ b.Unmaps
  | increaseExchange (.existing st unwrap b) current =>
    unwrap = false ∧ st.Unmaps ∧ b.Unmaps ∧ m.entry st.place = current
  | leaf st _ op b => op = .tryUnmap ∧ st.Unmaps ∧ b.Unmaps
  | releaseLoad (.entry st b) => st.Unmaps ∧ b.Unmaps
  | releaseLoad (.guard st) => st.Unmaps
  | releaseExchange (.entry st b) current => st.Unmaps ∧ b.Unmaps ∧ m.entry st.place = current
  | releaseExchange (.guard st) current => st.Unmaps ∧ m.entry st.place = current
  | deallocate st _ => st.Unmaps
  | _ => False

def Pc.Visits : Pc → Place → Prop
  | increaseLoad (.existing st _ b), q | increaseExchange (.existing st _ b) _, q => b.Visits st.place q ∨ st.Visits q
  | leaf st x _ b, q => q = st.place.child x ∨ b.Visits st.place q ∨ st.Visits q
  | releaseLoad (.entry st b), q | releaseExchange (.entry st b) _, q => b.Visits st.place q ∨ st.Visits q
  | releaseLoad (.guard st), q | releaseExchange (.guard st) _, q | deallocate st _, q => st.Visits q
  | _, _ => False

def Pc.cost : Pc → Nat
  | unlock _ => 1
  | increaseLoad (.existing st _ b) => 7 + b.cost + st.cost
  | increaseExchange (.existing st _ b) _ => 6 + b.cost + st.cost
  | leaf st _ _ b => 8 + b.cost + st.cost
  | releaseLoad (.entry st b) => 7 + b.cost + st.cost
  | releaseExchange (.entry st b) _ => 6 + b.cost + st.cost
  | releaseLoad (.guard st) => 5 + st.cost
  | releaseExchange (.guard st) _ => 4 + st.cost
  | deallocate st _ => 3 + st.cost
  | _ => 0

/-- Control goes to `pc`, with the entries `V` to visit and in at most `c` steps. -/
structure Goes (m : Memory) (pc : Pc) (V : Place → Prop) (c : Nat) : Prop where
  unmaps : pc.Unmaps m
  visits : ∀ q, pc.Visits q ↔ V q
  cost : pc.cost ≤ c

section

variable {m : Memory} {n : Nat} {st : Stack n}

lemma Stack.goes_run {b : Body n} (hst : st.Unmaps) (hb : b.Unmaps) :
    Goes m (st.run b) (fun q => b.Visits st.place q ∨ st.Visits q) (5 + b.cost + st.cost) := by
  cases b with
  | done => exact ⟨hst, fun q => (false_or _).symm ▸ Iff.rfl, by simp only [run, Pc.cost, Body.cost]; omega⟩
  | leaf x op rest =>
    obtain ⟨rfl, hrest⟩ := hb
    refine ⟨⟨rfl, hst, hrest⟩, fun q => or_assoc.symm, ?_⟩
    simp only [run, Pc.cost, Body.cost]
    omega
  | enter x how inner rest =>
    obtain ⟨rfl, hinner, hrest⟩ := hb
    refine ⟨⟨rfl, ⟨hrest, hst⟩, hinner⟩, fun q => or_assoc.symm, ?_⟩
    simp only [run, Acquire.start, Pc.cost, Body.cost, cost]
    omega

lemma Job.goes_next {job : Job} (h : job.Unmaps) : Goes m job.next job.Visits (todoCost job.todo) := by
  rcases job with ⟨lock, todo⟩
  cases todo with
  | nil =>
    refine ⟨trivial, fun q => ⟨False.elim, fun ⟨t, ht, _⟩ => ?_⟩, le_rfl⟩
    cases ht
  | cons t todo =>
    rcases t with ⟨k, how, b⟩
    obtain ⟨hhow, hb⟩ := h _ mem_cons_self
    have hhow : how = .existing false := hhow
    subst hhow
    refine ⟨⟨rfl, fun t ht => h t (mem_cons_of_mem _ ht), hb⟩, fun q => ?_, ?_⟩
    · simp only [Job.Visits, mem_cons, exists_eq_or_imp]
      rfl
    · simp only [Job.next, Acquire.start, Pc.cost, todoCost, cost]
      omega

lemma Stack.goes_resume (h : st.Unmaps) : Goes m st.resume st.Visits st.cost := by
  cases st with
  | top k job => exact Job.goes_next h
  | push x rest below =>
    have hrun := goes_run (m := m) h.2 h.1
    exact ⟨hrun.unmaps, hrun.visits, hrun.cost.trans (by simp only [cost]; omega)⟩

lemma Stack.goes_releaseParent (h : st.Unmaps) : Goes m st.releaseParent st.Visits (2 + st.cost) := by
  cases st with
  | top k job =>
    have hnext := Job.goes_next (m := m) h
    exact ⟨hnext.unmaps, hnext.visits, hnext.cost.trans (Nat.le_add_left _ _)⟩
  | push x rest below =>
    refine ⟨⟨h.2, h.1⟩, fun q => Iff.rfl, ?_⟩
    simp only [releaseParent, Pc.cost, cost]
    omega

/-- The entries that a script visits are in the tables below its place. -/
lemma Body.Visits.below {b : Body n} {p q : Place} (h : b.Visits p q) : q.root = p.root ∧ p.path <:+ q.path.tail := by
  induction b generalizing p with
  | done => exact h.elim
  | leaf x op rest ih =>
    rcases h with rfl | h
    · exact ⟨rfl, suffix_refl _⟩
    · exact ih h
  | enter x how inner rest ihi ihr =>
    rcases h with h | h
    · obtain ⟨hroot, hsub⟩ := ihi h
      exact ⟨hroot, (suffix_cons _ _).trans hsub⟩
    · exact ihr h

end

/-! ## One step -/

/-- A step of the operation: what it clears was to be visited, and what it has
visited is clear. -/
structure Cleared (m : Memory) (pc : Pc) (m' : Memory) (pc' : Pc) : Prop where
  unmaps : pc'.Unmaps m'
  cost : pc'.cost < pc.cost
  walk : ∀ q, q.path.length = 3 → m'.walk q = m.walk q ∨ m'.walk q = 0 ∧ pc.Visits q
  mono : ∀ q, pc'.Visits q → pc.Visits q
  seen : ∀ q, q.path.length = 3 → pc.Visits q → pc'.Visits q ∨ m'.walk q = 0

section

variable {m m' : Memory} {pc pc' : Pc} {V : Place → Prop} {c : Nat}

lemma Goes.cleared (h : Goes m' pc' V c) (hc : c < pc.cost) (hwalk : ∀ q, q.path.length = 3 → m'.walk q = m.walk q)
    (hV : ∀ q, pc.Visits q ↔ V q) : Cleared m pc m' pc' where
  unmaps := h.unmaps
  cost := Nat.lt_of_le_of_lt h.cost hc
  walk q hq := .inl (hwalk q hq)
  mono q hq := (hV q).2 ((h.visits q).1 hq)
  seen q _ hq := .inl ((h.visits q).2 ((hV q).1 hq))

/-- Above level 1 no page is mapped by the entry, and a table that is taken out is empty. -/
lemma walk_kept (hentry : ∀ q : Place, q.path.length = 3 → m'.entry q = m.entry q)
    (hback : ∀ p, Usable m' p → Usable m p) (hlost : ∀ p, Usable m p → ¬Usable m' p → m.entries p = 0) (q : Place)
    (hq : q.path.length = 3) : m'.walk q = m.walk q := by
  rcases q with ⟨k, path⟩
  cases path with
  | nil => cases hq
  | cons x path =>
    rcases walk_eq (m := m') hq with ⟨hl', hw'⟩ | ⟨hl', hw'⟩ <;> rcases walk_eq (m := m) hq with ⟨hl, hw⟩ | ⟨hl, hw⟩
    · rw [hw', hw, hentry _ hq]
    · exact absurd (hback _ hl') hl
    · rw [hw', hw]
      exact (entries_eq_zero.1 (hlost _ hl hl') x).symm
    · rw [hw', hw]

lemma walk_recount {p : Place} {w : Nat} (hp : p.path.length ≤ 2) (hw : ready w = ready (m.entry p)) (q : Place)
    (hq : q.path.length = 3) : (m.set p w).walk q = m.walk q := by
  have hU : ∀ r, Usable (m.set p w) r ↔ Usable m r := usable_congr fun r _ => by
    by_cases hr : r = p
    · rw [hr, Memory.set_self, hw]
    · rw [Memory.set_ne hr]
  refine walk_kept (fun r hr => Memory.set_ne ?_) (fun r => (hU r).1)
    (fun r hu hgone => absurd ((hU r).2 hu) hgone) q hq
  rintro rfl
  omega

lemma walk_unmap {p : Place} (hp : p.path.length = 3) (q : Place) (hq : q.path.length = 3) :
    (m.set p 0).walk q = if q = p then 0 else m.walk q := by
  have hU : ∀ r, Usable (m.set p 0) r ↔ Usable m r := usable_congr fun r hr => by
    rw [Memory.set_ne]
    rintro rfl
    omega
  have hL := linked_congr hU q
  split
  · rename_i he
    subst he
    rcases walk_eq (m := m.set q 0) hq with ⟨_, hw⟩ | ⟨_, hw⟩
    · rw [hw, Memory.set_self]
    · exact hw
  rename_i hne
  rcases walk_eq (m := m.set p 0) hq with ⟨hl', hw'⟩ | ⟨hl', hw'⟩ <;>
    rcases walk_eq (m := m) hq with ⟨hl, hw⟩ | ⟨hl, hw⟩
  · rw [hw', hw, Memory.set_ne hne]
  · exact absurd (hL.1 hl') hl
  · exact absurd (hL.2 hl) hl'
  · rw [hw', hw]

end

section

variable {ι : Type} [Fintype ι] [DecidableEq ι] {s : State ι} {i : ι} {n : Nat}

def Alone (s : State ι) (i : ι) : Prop := ∀ j, j ≠ i → s.cpus j = .idle

omit [DecidableEq ι] in
lemma Alone.books (h : Alone s i) (k : Key) : books s.cpus k = (s.cpus i).weigh k := by
  refine Finset.sum_eq_single i (fun j _ hj => ?_) (fun hi => absurd (Finset.mem_univ i) hi)
  rw [h j hj]
  rfl

omit [Fintype ι] in
lemma Alone.step (h : Alone s i) (m : Memory) (pc : Pc) : Alone ⟨m, update s.cpus i pc⟩ i :=
  fun j hj => (update_of_ne hj ..).trans (h j hj)

omit [Fintype ι] [DecidableEq ι] in
lemma Alone.serial (h : Alone s i) (j : ι) (e : Place × Idx) (hr : (s.cpus i).removing = some e) :
    (s.cpus j).inserting ≠ some e := by
  by_cases hj : j = i
  · subst hj
    cases hpc : s.cpus j with
    | leaf st x op b => exact fun hi => nomatch hi
    | _ =>
      rw [hpc] at hr
      cases hr
  · rw [h j hj]
    exact fun hi => nomatch hi

omit [DecidableEq ι] in
/-- No table is being made while the CPU unmaps. -/
lemma Inv.not_initializing (h : Inv s) (ha : Alone s i) {st : Stack n} {b : Body n} {u : Bool}
    (hpc : s.cpus i = .increaseLoad (.existing st u b)) : initializing (s.mem.entry st.place) = false := by
  have hl : Linked s.mem st.place := h.linked (i := i) fun k => by
    rw [hpc]
    exact le_rfl
  have hinit := h.refs.init _ hl st.short
  rw [ha.books, hpc] at hinit
  have hz : st.lower (.init st.place) = (initializing (s.mem.entry st.place)).toNat := hinit
  rw [lower_init] at hz
  cases hw : initializing (s.mem.entry st.place) with
  | false => rfl
  | true =>
    rw [hw] at hz
    cases hz

omit [DecidableEq ι] in
lemma Inv.unmap_increaseLoad (h : Inv s) (ha : Alone s i) {st : Stack n} {b : Body n}
    (hpc : s.cpus i = .increaseLoad (.existing st false b)) (hst : st.Unmaps) (hb : b.Unmaps)
    (frame : PhysFrame) (garbage : Idx → Nat) :
    ∃ pc, PageTable.exec s.mem frame garbage (.increaseLoad (.existing st false b)) = some (s.mem, pc) ∧
      Cleared s.mem (.increaseLoad (.existing st false b)) s.mem pc := by
  have hinit := h.not_initializing ha hpc
  simp only [PageTable.exec]
  split
  · refine ⟨_, rfl, (Stack.goes_run hst hb).cleared ?_ (fun q _ => rfl) fun q => Iff.rfl⟩
    simp only [Pc.cost]
    omega
  rw [Inc.seen, Inc.place, hinit, if_neg Bool.false_ne_true]
  split
  · refine ⟨_, rfl, ⟨⟨rfl, hst, hb, rfl⟩, ?_, fun q _ => .inl rfl, fun q hq => hq, fun q _ hq => .inl hq⟩⟩
    simp only [Pc.cost]
    omega
  rename_i hp
  have hgo := Stack.goes_resume (m := s.mem) hst
  refine ⟨_, rfl, ⟨hgo.unmaps, Nat.lt_of_le_of_lt hgo.cost ?_, fun q _ => .inl rfl,
    fun q hq => .inr ((hgo.visits q).1 hq), fun q hlen hq => ?_⟩⟩
  · simp only [Pc.cost]
    omega
  -- the pages under the missing table are not mapped
  · rcases hq with hq | hq
    · obtain ⟨hroot, hsub⟩ := hq.below
      rcases walk_eq (m := s.mem) hlen with ⟨hl, _⟩ | ⟨_, hw⟩
      · refine absurd ?_ hp
        rcases q with ⟨k, path⟩
        cases path with
        | nil => cases hlen
        | cons x path =>
          have hr := hl.all _ hsub
          rw [show k = st.place.root from hroot] at hr
          exact (ready_iff.1 hr).1
      · exact .inr hw
    · exact .inl ((hgo.visits q).2 hq)

omit [DecidableEq ι] in
lemma Inv.unmap_increaseExchange (h : Inv s) {st : Stack n} {b : Body n} {current : Nat}
    (hpc : s.cpus i = .increaseExchange (.existing st false b) current) (hst : st.Unmaps) (hb : b.Unmaps)
    (hcur : s.mem.entry st.place = current) (frame : PhysFrame) (garbage : Idx → Nat) :
    ∃ m' pc, PageTable.exec s.mem frame garbage (.increaseExchange (.existing st false b) current) = some (m', pc) ∧
      Cleared s.mem (.increaseExchange (.existing st false b) current) m' pc := by
  have hok := h.cpus i
  rw [hpc] at hok
  obtain ⟨-, -, hfits⟩ := hok
  have hplace : s.mem.entry (Inc.existing st false b).place = current := hcur
  simp only [PageTable.exec]
  rw [if_neg (not_not_intro hfits), if_pos hplace]
  refine ⟨_, _, rfl, (Stack.goes_run hst hb).cleared ?_ (walk_recount st.short ?_) fun q => Iff.rfl⟩
  · simp only [Pc.cost]
    omega
  · rw [ready_setRefCount, hplace]

omit [Fintype ι] [DecidableEq ι] in
lemma unmap_leaf (m : Memory) {st : Stack 0} {x : Idx} {b : Body 0} (hst : st.Unmaps) (hb : b.Unmaps)
    (frame : PhysFrame) (garbage : Idx → Nat) : ∃ m' pc, exec m frame garbage (.leaf st x .tryUnmap b) = some (m', pc) ∧
      Cleared m (.leaf st x .tryUnmap b) m' pc := by
  have hlen : (st.place.child x).path.length = 3 := by
    have := st.place_length
    simp only [Place.child, length_cons]
    omega
  -- both ways on have the rest of the script
  have hgo : Goes (m.set (st.place.child x) 0)
      (if present (m.entry (st.place.child x)) then .releaseLoad (.entry st b) else st.run b)
      (fun q => b.Visits st.place q ∨ st.Visits q) (7 + b.cost + st.cost) := by
    split
    · exact ⟨⟨hst, hb⟩, fun q => Iff.rfl, le_rfl⟩
    have hrun := goes_run (m := m.set (st.place.child x) 0) hst hb
    exact ⟨hrun.unmaps, hrun.visits, hrun.cost.trans (by omega)⟩
  refine ⟨_, _, rfl, hgo.unmaps, Nat.lt_of_le_of_lt hgo.cost ?_, fun q hq => ?_,
    fun q hq => .inr ((hgo.visits q).1 hq), fun q hq hvis => ?_⟩
  · simp only [Pc.cost]
    omega
  · rw [walk_unmap hlen q hq]
    split
    · rename_i he
      exact .inr ⟨rfl, .inl he⟩
    · exact .inl rfl
  · rcases hvis with he | hvis
    · rw [walk_unmap hlen q hq, if_pos he]
      exact .inr rfl
    · exact .inl ((hgo.visits q).2 hvis)

/-! ### `release_reference_count` -/

/-- What is left after `release_reference_count`. -/
def Rel.Unmaps : Rel → Prop
  | entry st b => st.Unmaps ∧ b.Unmaps
  | guard st => st.Unmaps

def Rel.Visits : Rel → Place → Prop
  | entry st b, q => b.Visits st.place q ∨ st.Visits q
  | guard st, q => st.Visits q

def Rel.cost : Rel → Nat
  | entry st b => 5 + b.cost + st.cost
  | guard st => 3 + st.cost

omit [Fintype ι] [DecidableEq ι] in
lemma Rel.goes_done {m : Memory} {r : Rel} (h : r.Unmaps) : Goes m r.done r.Visits r.cost := by
  cases r with
  | entry st b => exact goes_run h.1 h.2
  | guard st =>
    have hgo := goes_resume (m := m) h
    exact ⟨hgo.unmaps, hgo.visits, hgo.cost.trans (Nat.le_add_left _ _)⟩

lemma Rel.visits_load (r : Rel) (q : Place) : (Pc.releaseLoad r).Visits q ↔ r.Visits q := by cases r <;> exact Iff.rfl

lemma Rel.visits_exchange (r : Rel) (current : Nat) (q : Place) :
    (Pc.releaseExchange r current).Visits q ↔ r.Visits q := by
  cases r <;> exact Iff.rfl

lemma Rel.cost_load (r : Rel) : (Pc.releaseLoad r).cost = 2 + r.cost := by
  cases r <;> simp only [Pc.cost, Rel.cost] <;> omega

lemma Rel.cost_exchange (r : Rel) (current : Nat) : (Pc.releaseExchange r current).cost = 1 + r.cost := by
  cases r <;> simp only [Pc.cost, Rel.cost] <;> omega

variable {r : Rel} {current : Nat}

lemma Rel.unmaps_load {m : Memory} : (Pc.releaseLoad r).Unmaps m ↔ r.Unmaps := by cases r <;> exact Iff.rfl

lemma Rel.unmaps_exchange {m : Memory} :
    (Pc.releaseExchange r current).Unmaps m ↔ r.Unmaps ∧ m.entry r.place = current := by
  cases r with
  | entry st b => exact and_assoc.symm
  | guard st => exact Iff.rfl

omit [DecidableEq ι] in
lemma Inv.unmap_releaseLoad (h : Inv s) (hpc : s.cpus i = .releaseLoad r) (hr : r.Unmaps)
    (frame : PhysFrame) (garbage : Idx → Nat) :
    ∃ pc, PageTable.exec s.mem frame garbage (.releaseLoad r) = some (s.mem, pc) ∧
      Cleared s.mem (.releaseLoad r) s.mem pc := by
  simp only [PageTable.exec]
  split
  · refine ⟨_, rfl, (Rel.goes_done hr).cleared ?_ (fun q _ => rfl) r.visits_load⟩
    rw [r.cost_load]
    omega
  have hne : s.mem.entry r.place ≠ 0 := ready_of_ne (h.rel_place (i := i) (by rw [hpc]; rfl)).1.ready_self
  rw [Rel.seen, if_neg hne]
  refine ⟨_, rfl, Rel.unmaps_exchange.2 ⟨hr, rfl⟩, ?_, fun q _ => .inl rfl, fun q hq => ?_, fun q _ hq => .inl ?_⟩
  · rw [r.cost_load, r.cost_exchange]
    omega
  · exact (r.visits_load q).2 ((r.visits_exchange _ q).1 hq)
  · exact (r.visits_exchange _ q).2 ((r.visits_load q).1 hq)

omit [DecidableEq ι] in
/-- The table that the last guard takes out has no entries. -/
lemma Inv.walk_free (h : Inv s) {st : Stack n} (hw : (s.cpus i).weigh = st.guards) (hs : st.place.isStaticEntry = false)
    (hcount : refCount (s.mem.entry st.place) = 0) (q : Place) (hq : q.path.length = 3) :
    (s.mem.set st.place 0).walk q = s.mem.walk q := by
  have hz := (h.last hw hs hcount).2.2.1
  have hu : Usable s.mem st.place := h.usable (i := i) (by rw [hw]; exact st.guards_place)
  have hU := usable_free hu (entries_eq_zero.1 hz)
  refine walk_kept (fun r hr => Memory.set_ne ?_) (fun p hp => ((hU p).1 hp).1) (fun p hp hgone => ?_) q hq
  · rintro rfl
    have := st.short
    omega
  have he : p = st.place := by
    by_contra hne
    exact hgone ((hU p).2 ⟨hp, hne⟩)
  rw [he]
  exact hz

variable (h : Inv s) (hcard : Fintype.card ι ≤ 255) (ha : Alone s i)
include h hcard ha

lemma Inv.unmap_releaseExchange (hpc : s.cpus i = .releaseExchange r current) (hr : r.Unmaps)
    (hcur : s.mem.entry r.place = current)
    (frame : PhysFrame) (garbage : Idx → Nat) :
    ∃ m' pc, PageTable.exec s.mem frame garbage (.releaseExchange r current) = some (m', pc) ∧
      Cleared s.mem (.releaseExchange r current) m' pc := by
  have hs : r.place.isStaticEntry = false := by
    have hok := h.cpus i
    rwa [hpc] at hok
  have hlen : r.place.path.length ≤ 2 := by cases r <;> exact Stack.short _
  by_cases hone : 1 ≤ refCount current
  · have he : PageTable.exec s.mem frame garbage (.releaseExchange r current) =
        some (s.mem.set r.place (setRefCount current (refCount current - 1)), r.done) := by
      simp only [PageTable.exec]
      rw [if_pos hcur, if_pos hone]
    refine ⟨_, _, he, (Rel.goes_done hr).cleared ?_ (walk_recount hlen ?_) (r.visits_exchange current)⟩
    · rw [r.cost_exchange]
      omega
    · rw [ready_setRefCount, hcur]
  have he : PageTable.exec s.mem frame garbage (.releaseExchange r current) =
      some (s.mem.set r.place 0, r.freed (frameOf current)) := by
    simp only [PageTable.exec]
    rw [if_pos hcur, if_neg hone]
  have hnext : (r.freed (frameOf current)).Ok (s.mem.set r.place 0) := by
    have hinv := (h.exec hcard ha.serial (by rw [hpc]; exact he)).cpus i
    simp only [update_self] at hinv
    exact hinv
  cases r with
  | entry st b => exact hnext.elim
  | guard st =>
    have hw : (s.cpus i).weigh = st.guards := by rw [hpc]; rfl
    have hcount : refCount (s.mem.entry st.place) = 0 := by
      rw [show s.mem.entry st.place = current from hcur]
      omega
    refine ⟨_, _, he, hr, Nat.add_lt_add_right (by decide : 3 < 4) _, fun q hq => .inl (h.walk_free hw hs hcount q hq),
      fun q hq => hq,
      fun q _ hq => .inl hq⟩

/-- Alone, the operation can take its next step, and the step does what it should. -/
lemma Inv.unmap_step (hpc : (s.cpus i).Unmaps s.mem)
    (hne : s.cpus i ≠ .idle) (frame : PhysFrame) (garbage : Idx → Nat) :
    ∃ m' pc, PageTable.exec s.mem frame garbage (s.cpus i) = some (m', pc) ∧ Cleared s.mem (s.cpus i) m' pc := by
  cases hc : s.cpus i with
  | idle => exact absurd hc hne
  | unlock lock =>
    refine ⟨_, _, rfl, trivial, Nat.zero_lt_one, fun q _ => .inl ?_, fun q hq => hq, fun q _ hq => .inl hq⟩
    cases lock <;> exact walk_of_entry rfl
  | increaseLoad w =>
    rw [hc] at hpc
    cases w with
    | existing st u b =>
      obtain ⟨rfl, hst, hb⟩ := hpc
      obtain ⟨pc, he, hcl⟩ := h.unmap_increaseLoad ha hc hst hb frame garbage
      exact ⟨_, _, he, hcl⟩
    | initialized x rest below b => exact hpc.elim
    | inserted st x b => exact hpc.elim
  | increaseExchange w current =>
    rw [hc] at hpc
    cases w with
    | existing st u b =>
      obtain ⟨rfl, hst, hb, hcur⟩ := hpc
      exact h.unmap_increaseExchange hc hst hb hcur frame garbage
    | initialized x rest below b => exact hpc.elim
    | inserted st x b => exact hpc.elim
  | leaf st x op b =>
    rw [hc] at hpc
    obtain ⟨rfl, hst, hb⟩ := hpc
    exact unmap_leaf s.mem hst hb frame garbage
  | releaseLoad r =>
    rw [hc] at hpc
    obtain ⟨pc, he, hcl⟩ := h.unmap_releaseLoad hc (Rel.unmaps_load.1 hpc) frame garbage
    exact ⟨_, _, he, hcl⟩
  | releaseExchange r current =>
    rw [hc] at hpc
    obtain ⟨hr, hcur⟩ := Rel.unmaps_exchange.1 hpc
    exact h.unmap_releaseExchange hcard ha hc hr hcur frame garbage
  | deallocate st f =>
    rw [hc] at hpc
    refine ⟨_, _, rfl, (Stack.goes_releaseParent hpc).cleared ?_ (fun q _ => walk_of_entry rfl) fun q => Iff.rfl⟩
    simp only [Pc.cost]
    omega
  | acquireLoad a | acquireExchange a current | allocate a | storeNew a f | zero a f | storeDone a f | freeze t k path
  | panicked st own | assertFailed =>
    rw [hc] at hpc
    exact hpc.elim

end

/-! ## The pages of the script -/

section

variable {k start finish n : Nat} {β : Type} {visit : Idx → Nat → Nat → β → β} {done : β} {P : β → Prop}
  {R : Idx → Nat → Prop}

lemma area_iff (hk : 0 < k) (c page : Nat) : c * k ≤ page ∧ page ≤ c * k + k - 1 ↔ page / k = c :=
  (Nat.div_eq_iff hk).symm

/-- What of a range lies in an area that it reaches is not empty, and lies in that area alone. -/
lemma piece_same (hk : 0 < k) (hle : start ≤ finish) {c : Nat} (hs : start / k ≤ c) (hf : c ≤ finish / k) :
    max start (c * k) ≤ min finish (c * k + k - 1) ∧ max start (c * k) / k = min finish (c * k + k - 1) / k := by
  have h1 : c * k ≤ finish := (Nat.le_div_iff_mul_le hk).1 hf
  have h2 : start < (c + 1) * k := (Nat.div_lt_iff_lt_mul hk).1 (Nat.lt_succ_of_le hs)
  rw [Nat.succ_mul] at h2
  have hmax : max start (c * k) / k = c := (area_iff hk _ _).1 (by omega)
  have hmin : min finish (c * k + k - 1) / k = c := (area_iff hk _ _).1 (by omega)
  exact ⟨by omega, hmax.trans hmin.symm⟩

/-- The loop gets to each page of the range once: the clamps below cut it at the borders of the areas. -/
lemma eachEntry_iff (hdone : ¬P done) (hvisit : ∀ x a b rest, a ≤ b → a / 2 ^ (9 * n) = b / 2 ^ (9 * n) →
      (P (visit x a b rest) ↔ (∃ page, a ≤ page ∧ page ≤ b ∧ R x page) ∨ P rest))
    (hle : start ≤ finish) (hsame : start / 2 ^ (9 * n + 9) = finish / 2 ^ (9 * n + 9)) :
    P (eachEntry n start finish visit done) ↔ ∃ page, start ≤ page ∧ page ≤ finish ∧ R (index n page) page := by
  have hk : 0 < 2 ^ (9 * n) := Nat.two_pow_pos _
  have hpow : 2 ^ (9 * n + 9) = 2 ^ (9 * n) * 512 := Nat.pow_add 2 (9 * n) 9
  rw [hpow, ← Nat.div_div_eq_div_mul, ← Nat.div_div_eq_div_mul] at hsame
  have hfirst : ∀ j, start / 2 ^ (9 * n + 9) * 2 ^ (9 * n + 9) + j * 2 ^ (9 * n) =
      (start / 2 ^ (9 * n) / 512 * 512 + j) * 2 ^ (9 * n) := fun j => by
    rw [hpow, ← Nat.div_div_eq_div_mul, Nat.add_mul, Nat.mul_assoc _ 512, Nat.mul_comm 512]
  simp only [eachEntry, hfirst]
  have hi : (index n start).val = start / 2 ^ (9 * n) % 512 := rfl
  have hi' : (index n finish).val = finish / 2 ^ (9 * n) % 512 := rfl
  generalize hkk : 2 ^ (9 * n) = k at *
  -- the loop, entry by entry
  have hloop : ∀ L : List Nat, (∀ j ∈ L, start / k ≤ start / k / 512 * 512 + j ∧
      start / k / 512 * 512 + j ≤ finish / k) →
      (P (L.foldr (fun j rest => visit ⟨j % 512, Nat.mod_lt _ (by decide)⟩ (max start ((start / k / 512 * 512 + j) * k))
        (min finish ((start / k / 512 * 512 + j) * k + k - 1)) rest) done) ↔
        ∃ j ∈ L, ∃ page, start ≤ page ∧ page ≤ finish ∧ page / k = start / k / 512 * 512 + j ∧
          R ⟨j % 512, Nat.mod_lt _ (by decide)⟩ page) := by
    intro L hL
    induction L with
    | nil => simpa using hdone
    | cons j L ih =>
      obtain ⟨hs, hf⟩ := hL j mem_cons_self
      obtain ⟨hpos, hone⟩ := piece_same hk hle hs hf
      rw [foldr_cons, hvisit _ _ _ _ hpos hone, ih fun j hj => hL j (mem_cons_of_mem _ hj)]
      simp only [mem_cons, exists_eq_or_imp]
      refine or_congr (exists_congr fun page => ?_) Iff.rfl
      rw [← area_iff hk, max_le_iff, le_min_iff]
      tauto
  rw [hloop _ fun j hj => ?_]
  · constructor
    · rintro ⟨j, hj, page, hs, hf, hc, hR⟩
      refine ⟨page, hs, hf, ?_⟩
      have hx : index n page = ⟨j % 512, Nat.mod_lt _ (by decide)⟩ := by
        refine Fin.ext ?_
        simp only [index, hkk, hc]
        omega
      rw [hx]
      exact hR
    rintro ⟨page, hs, hf, hR⟩
    have h1 : start / k ≤ page / k := Nat.div_le_div_right hs
    have h2 : page / k ≤ finish / k := Nat.div_le_div_right hf
    refine ⟨page / k % 512, mem_range'_1.2 (by omega), page, hs, hf, by omega, ?_⟩
    have hx : index n page = ⟨page / k % 512 % 512, Nat.mod_lt _ (by decide)⟩ := by
      refine Fin.ext ?_
      simp only [index, hkk]
      omega
    rw [← hx]
    exact hR
  · have := mem_range'_1.1 hj
    omega

lemma eachEntry_all (hdone : P done) (hvisit : ∀ x a b rest, P rest → P (visit x a b rest)) :
    P (eachEntry n start finish visit done) := by
  simp only [eachEntry]
  generalize List.range' _ _ = L
  induction L with
  | nil => exact hdone
  | cons j L ih => exact hvisit _ _ _ _ ih

end

section

variable {p q : Place} {start finish : Nat}

lemma unmapPt_visits (hle : start ≤ finish) (hsame : start / 2 ^ 9 = finish / 2 ^ 9) :
    (unmapPt start finish).Visits p q ↔ ∃ page, start ≤ page ∧ page ≤ finish ∧ q = p.child (index 0 page) := by
  refine eachEntry_iff (P := fun b : Body 0 => b.Visits p q) (R := fun x _ => q = p.child x) id ?_ hle hsame
  intro x a b rest hab _
  exact or_congr ⟨fun h => ⟨a, le_rfl, hab, h⟩, fun ⟨_, _, _, h⟩ => h⟩ Iff.rfl

lemma unmapPd_visits (hle : start ≤ finish) (hsame : start / 2 ^ 18 = finish / 2 ^ 18) :
    (unmapPd start finish).Visits p q ↔
      ∃ page, start ≤ page ∧ page ≤ finish ∧ q = (p.child (index 1 page)).child (index 0 page) := by
  refine eachEntry_iff (P := fun b : Body 1 => b.Visits p q)
    (R := fun x page => q = (p.child x).child (index 0 page)) id ?_ hle hsame
  intro x a b rest hab hdiv
  exact or_congr (unmapPt_visits hab hdiv) Iff.rfl

lemma unmapPdp_visits (hle : start ≤ finish) (hsame : start / 2 ^ 27 = finish / 2 ^ 27) :
    (unmapPdp start finish).Visits p q ↔ ∃ page, start ≤ page ∧ page ≤ finish ∧
      q = ((p.child (index 2 page)).child (index 1 page)).child (index 0 page) := by
  refine eachEntry_iff (P := fun b : Body 2 => b.Visits p q)
    (R := fun x page => q = ((p.child x).child (index 1 page)).child (index 0 page)) id ?_ hle hsame
  intro x a b rest hab hdiv
  exact or_congr (unmapPd_visits hab hdiv) Iff.rfl

/-- The script visits the pages `start..=finish` and no others. -/
lemma unmapPml4_visits (tables : Nat) (lock : Held) (hle : start ≤ finish) (hlast : finish ≤ lastUserPage) :
    (Job.mk lock (unmapPml4 tables start finish)).Visits q ↔
      ∃ page, start ≤ page ∧ page ≤ finish ∧ q = pte tables page := by
  have hsame : start / 2 ^ 36 = finish / 2 ^ 36 := by
    simp only [lastUserPage] at hlast
    omega
  refine eachEntry_iff (P := fun todo => (Job.mk lock todo).Visits q)
    (R := fun x page => q = (((⟨.user tables ⟨x % 256, Nat.mod_lt _ (by decide)⟩, []⟩ : Place).child
      (index 2 page)).child (index 1 page)).child (index 0 page)) ?_ ?_ hle hsame
  · rintro ⟨t, ht, -⟩
    cases ht
  intro x a b rest hab hdiv
  rw [← unmapPdp_visits hab hdiv]
  simp [Job.Visits]

lemma unmapPml4_unmaps (tables start finish : Nat) (lock : Held) :
    (Job.mk lock (unmapPml4 tables start finish)).Unmaps := by
  have hpt : ∀ a b, (unmapPt a b).Unmaps := fun a b =>
    eachEntry_all (P := fun b : Body 0 => b.Unmaps) trivial fun _ _ _ _ h => ⟨rfl, h⟩
  have hpd : ∀ a b, (unmapPd a b).Unmaps := fun a b =>
    eachEntry_all (P := fun b : Body 1 => b.Unmaps) trivial fun _ _ _ _ h => ⟨rfl, hpt _ _, h⟩
  have hpdp : ∀ a b, (unmapPdp a b).Unmaps := fun a b =>
    eachEntry_all (P := fun b : Body 2 => b.Unmaps) trivial fun _ _ _ _ h => ⟨rfl, hpd _ _, h⟩
  refine eachEntry_all (P := fun todo => (Job.mk lock todo).Unmaps) (fun t ht => nomatch ht) fun x a b rest h t ht => ?_
  rcases mem_cons.1 ht with rfl | ht
  · exact ⟨rfl, hpdp _ _⟩
  · exact h t ht

lemma pte_inj {t page page' : Nat} (h : page ≤ lastUserPage) (h' : page' ≤ lastUserPage)
    (he : pte t page = pte t page') : page = page' := by
  simp only [pte, Place.child, index, Place.mk.injEq, Root.user.injEq, List.cons.injEq, Fin.mk.injEq] at he
  simp only [lastUserPage] at h h'
  omega

end

/-! ## The whole call -/

section

variable {ι : Type} [Fintype ι] [DecidableEq ι] {s s' : State ι} {i : ι}

def Own (i : ι) (_ : State ι) (l : ι × Act) : Prop := ∃ frame garbage, l = (i, .run frame garbage)

/-- The call, made by the CPU, returns in the state `s'`. -/
def Returns (s : State ι) (i : ι) (c : Call) (s' : State ι) : Prop :=
  ∃ s₁ ls, next s (i, .call c) = some s₁ ∧ ((tables ι).only (Own i)).Run s₁ ls s' ∧ s'.cpus i = .idle

structure ClearedRun (s : State ι) (i : ι) (s' : State ι) : Prop where
  walk : ∀ q, q.path.length = 3 → s'.mem.walk q = s.mem.walk q ∨ s'.mem.walk q = 0 ∧ (s.cpus i).Visits q
  seen : ∀ q, q.path.length = 3 → (s.cpus i).Visits q → (s'.cpus i).Visits q ∨ s'.mem.walk q = 0

variable (h : Inv s) (hcard : Fintype.card ι ≤ 255) (ha : Alone s i) (hpc : (s.cpus i).Unmaps s.mem)
include h hcard ha hpc

lemma Inv.unmap_next (hne : s.cpus i ≠ .idle) (frame : PhysFrame) (garbage : Idx → Nat) :
    ∃ s1, PageTable.next s (i, .run frame garbage) = some s1 ∧ Inv s1 ∧ Alone s1 i ∧
      Cleared s.mem (s.cpus i) s1.mem (s1.cpus i) := by
  obtain ⟨m', pc, he, hcl⟩ := h.unmap_step hcard ha hpc hne frame garbage
  refine ⟨⟨m', update s.cpus i pc⟩, ?_, h.exec hcard ha.serial he, ha.step m' pc, ?_⟩
  · simp [PageTable.next, act, he]
  simp only [update_self]
  exact hcl

lemma Inv.unmap_run {ls : List (ι × Act)} (hrun : ((tables ι).only (Own i)).Run s ls s') : ClearedRun s i s' := by
  induction hrun with
  | nil s => exact ⟨fun q _ => .inl rfl, fun q _ hq => .inl hq⟩
  | @cons s s1 s' l ls hst _ ih =>
    obtain ⟨⟨frame, garbage, rfl⟩, hst⟩ := hst
    have hne : s.cpus i ≠ .idle := by
      intro hidle
      have hn : PageTable.next s (i, .run frame garbage) = some s1 := hst
      simp only [PageTable.next, act, hidle, PageTable.exec, map_none] at hn
      cases hn
    obtain ⟨s2, hs2, hinv, halone, hcl⟩ := h.unmap_next hcard ha hpc hne frame garbage
    cases Option.some.inj (hs2.symm.trans hst)
    obtain ⟨hwalk, hseen⟩ := ih hinv halone hcl.unmaps
    refine ⟨fun q hq => ?_, fun q hq hvis => ?_⟩
    · rcases hwalk q hq with hw | ⟨hw, hvis⟩
      · rcases hcl.walk q hq with hw1 | ⟨hw1, hvis⟩
        · exact .inl (hw.trans hw1)
        · exact .inr ⟨hw.trans hw1, hvis⟩
      · exact .inr ⟨hw, hcl.mono q hvis⟩
    · rcases hcl.seen q hq hvis with hvis | hw1
      · exact hseen q hq hvis
      rcases hwalk q hq with hw | ⟨hw, -⟩
      · exact .inr (hw.trans hw1)
      · exact .inr hw

/-- The operation gets to its end: every step takes from the cost. -/
lemma Inv.unmap_returns :
    ∃ ls s', ((tables ι).only (Own i)).Run s ls s' ∧ s'.cpus i = .idle := by
  induction hc : (s.cpus i).cost using Nat.strong_induction_on generalizing s with
  | _ c ih =>
    by_cases hidle : s.cpus i = .idle
    · exact ⟨[], s, .nil s, hidle⟩
    obtain ⟨s1, hs1, hinv, halone, hcl⟩ := h.unmap_next hcard ha hpc hidle 0 fun _ => 0
    obtain ⟨ls, s', hrun, hdone⟩ := ih _ (hc ▸ hcl.cost) hinv halone hcl.unmaps rfl
    exact ⟨_, s', .cons ⟨⟨0, _, rfl⟩, hs1⟩ hrun, hdone⟩

end

/-! ### The range -/

def Bound.startsBy : Bound → Nat → Bool
  | .included first, page => first ≤ page
  | .excluded before, page => before < page
  | .unbounded, _ => true

def Bound.endsAfter : Bound → Nat → Bool
  | .included last, page => page ≤ last
  | .excluded behind, page => page < behind
  | .unbounded, _ => true

def contains (start finish : Bound) (page : Nat) : Bool := start.startsBy page && finish.endsAfter page

/-- The pages `start..=end` after the clamps; `none` for the early returns.
kernel/memory/pagetable.rs:469-491 -/
def unmapRange (start finish : Bound) : Option (Nat × Nat) :=
  match endPage finish with
  | none => none
  | some finish => if finish < startPage start then none else some (startPage start, finish)

/-- What is flushed for the pages `start..=finish`: from 64 pages on, everything.
kernel/memory/invlpgb.rs:71-92 -/
def flushUserPages (start finish page : Nat) : Bool :=
  if finish + 1 - start < 64 then decide (start ≤ page ∧ page ≤ finish) else true

def Clamped (start finish : Bound) (page : Nat) : Prop :=
  ∃ a b, unmapRange start finish = some (a, b) ∧ a ≤ page ∧ page ≤ b

section

variable {start finish : Bound} {a b page : Nat}

lemma endPage_le_last {last : Nat} (h : endPage finish = some last) : last ≤ lastUserPage := by
  rcases finish with l | (_ | behind) | _ <;> cases h
  · exact min_le_right _ _
  · exact min_le_right _ _
  · exact le_rfl

lemma unmapRange_le (h : unmapRange start finish = some (a, b)) : a ≤ b ∧ b ≤ lastUserPage := by
  simp only [unmapRange] at h
  split at h
  · cases h
  rename_i last hlast
  split at h
  · cases h
  cases h
  exact ⟨by omega, endPage_le_last hlast⟩

section

variable (hpage : page ≤ lastUserPage)
include hpage

lemma startPage_le :
    startPage start ≤ page ↔ start.startsBy page ∨ page = lastUserPage := by
  cases start with
  | included first | excluded before =>
    simp only [startPage, Bound.startsBy, decide_eq_true_eq]
    omega
  | unbounded => simp [startPage, Bound.startsBy]

lemma le_endPage :
    (∃ last, endPage finish = some last ∧ page ≤ last) ↔ finish.endsAfter page := by
  rcases finish with last | (_ | behind) | _
  · simp only [endPage, Bound.endsAfter, Option.some.injEq, exists_eq_left', decide_eq_true_eq]
    omega
  · simp [endPage, Bound.endsAfter]
  · simp only [endPage, Bound.endsAfter, Option.some.injEq, exists_eq_left', decide_eq_true_eq]
    omega
  · simpa [endPage, Bound.endsAfter] using hpage

/-- The clamps keep the user pages of the range, and can bring in the last user page. -/
lemma clamped_iff : Clamped start finish page ↔ contains start finish page ∨
      page = lastUserPage ∧ start.startsBy page = false ∧ finish.endsAfter page := by
  have hC : Clamped start finish page ↔ startPage start ≤ page ∧ ∃ last, endPage finish = some last ∧ page ≤ last := by
    simp only [Clamped, unmapRange]
    cases endPage finish with
    | none => simp
    | some last =>
      simp only [Option.some.injEq, exists_eq_left']
      split
      · simp only [reduceCtorEq, false_and, exists_false, false_iff]
        omega
      simp only [Option.some.injEq, Prod.mk.injEq]
      constructor
      · rintro ⟨a, b, ⟨rfl, rfl⟩, h⟩
        exact h
      · intro h
        exact ⟨_, _, ⟨rfl, rfl⟩, h⟩
  rw [hC, startPage_le hpage, le_endPage hpage, contains, Bool.and_eq_true]
  cases start.startsBy page <;> simp

end

lemma Clamped.le (h : Clamped start finish page) : page ≤ lastUserPage := by
  obtain ⟨a, b, hr, _, hb⟩ := h
  exact hb.trans (unmapRange_le hr).2

end

/-! ### What is cleared -/

section

variable {ι : Type} [Fintype ι] [DecidableEq ι] {s : State ι}

/-- No operation is under way, and `update_lock` is not held for writing. -/
structure AtRest (s : State ι) (tables : Nat) : Prop where
  inv : Inv s
  idle : ∀ i, s.cpus i = .idle
  unlocked : (s.mem.locks tables).writer = false

lemma start_tryUnmap (m : Memory) (tables : Nat) (start finish : Bound) :
    (Call.tryUnmapUserPages tables start finish).start m = match unmapRange start finish with
      | none => some (m, .idle)
      | some (a, b) => (m.read tables).map fun m => (m, (Job.mk (.read tables) (unmapPml4 tables a b)).next) := by
  simp only [Call.start, unmapRange]
  cases endPage finish with
  | none => rfl
  | some last =>
    dsimp only
    split <;> rfl

/-- The call begins with the script for the clamped range. -/
lemma AtRest.begin {tables : Nat} (h : AtRest s tables) (i : ι) (start finish : Bound) :
    ∃ s1, next s (i, .call (.tryUnmapUserPages tables start finish)) = some s1 ∧ Inv s1 ∧ Alone s1 i ∧
      s1.mem.entry = s.mem.entry ∧ (s1.cpus i).Unmaps s1.mem ∧
      ∀ q, (s1.cpus i).Visits q ↔ ∃ page, Clamped start finish page ∧ q = pte tables page := by
  set c : Call := .tryUnmapUserPages tables start finish
  have halone : Alone s i := fun j _ => h.idle j
  -- the invariant, whatever the call begins with
  have hkeep : ∀ {m' : Memory} {pc : Pc}, c.start s.mem = some (m', pc) →
      next s (i, .call c) = some ⟨m', update s.cpus i pc⟩ ∧ Inv ⟨m', update s.cpus i pc⟩ ∧ m'.entry = s.mem.entry := by
    intro m' pc hstart
    obtain ⟨he, hf, hw, hok⟩ := Call.start_quiet hstart
    refine ⟨?_, h.inv.quiet (funext fun k => ?_) (hok _) he hf, he⟩
    · simp [next, act, h.idle i, hstart]
    rw [hw, h.idle i]
    rfl
  cases hr : unmapRange start finish with
  | none =>
    have hstart : c.start s.mem = some (s.mem, .idle) := by rw [start_tryUnmap, hr]
    obtain ⟨hn, hinv, hent⟩ := hkeep hstart
    refine ⟨_, hn, hinv, halone.step _ _, hent, ?_, fun q => ?_⟩
    · simp only [update_self]
      trivial
    simp only [update_self]
    refine ⟨False.elim, ?_⟩
    rintro ⟨page, ⟨a, b, hc, -⟩, -⟩
    rw [hr] at hc
    cases hc
  | some r =>
    rcases r with ⟨a, b⟩
    obtain ⟨hle, hlast⟩ := unmapRange_le hr
    have hstart : c.start s.mem = some
        (s.mem.setLock tables { s.mem.locks tables with readers := (s.mem.locks tables).readers + 1 },
          (Job.mk (.read tables) (unmapPml4 tables a b)).next) := by
      simp [c, start_tryUnmap, hr, Memory.read, h.unlocked]
    obtain ⟨hn, hinv, hent⟩ := hkeep hstart
    have hgo := Job.goes_next (m := s.mem.setLock tables
      { s.mem.locks tables with readers := (s.mem.locks tables).readers + 1 })
      (unmapPml4_unmaps tables a b (.read tables))
    refine ⟨_, hn, hinv, halone.step _ _, hent, ?_, fun q => ?_⟩
    · simp only [update_self]
      exact hgo.unmaps
    simp only [update_self]
    rw [hgo.visits q, unmapPml4_visits tables _ hle hlast]
    simp only [Clamped, hr, Option.some.injEq, Prod.mk.injEq]
    constructor
    · rintro ⟨page, ha, hb, hq⟩
      exact ⟨page, ⟨a, b, ⟨rfl, rfl⟩, ha, hb⟩, hq⟩
    · rintro ⟨page, ⟨_, _, ⟨rfl, rfl⟩, ha, hb⟩, hq⟩
      exact ⟨page, ha, hb, hq⟩

/-- The call returns with the entries of the clamped range clear and no others changed. -/
lemma AtRest.unmap_spec {tables : Nat} (h : AtRest s tables) (hcard : Fintype.card ι ≤ 255) (i : ι)
    (start finish : Bound) : (∃ s', Returns s i (.tryUnmapUserPages tables start finish) s') ∧
      ∀ s', Returns s i (.tryUnmapUserPages tables start finish) s' → ∀ q, q.path.length = 3 →
        ((∃ page, Clamped start finish page ∧ q = pte tables page) → s'.mem.walk q = 0) ∧
        (s'.mem.walk q = s.mem.walk q ∨
          s'.mem.walk q = 0 ∧ ∃ page, Clamped start finish page ∧ q = pte tables page) := by
  obtain ⟨s1, hn, hinv, halone, hent, hun, hvis⟩ := h.begin i start finish
  constructor
  · obtain ⟨ls, s', hrun, hidle⟩ := hinv.unmap_returns hcard halone hun
    exact ⟨s', s1, ls, hn, hrun, hidle⟩
  rintro s' ⟨s2, ls, hn2, hrun, hidle⟩ q hq
  cases Option.some.inj (hn.symm.trans hn2)
  obtain ⟨hwalk, hseen⟩ := hinv.unmap_run hcard halone hun hrun
  constructor
  · intro hc
    rcases hseen q hq ((hvis q).2 hc) with hleft | hz
    · rw [hidle] at hleft
      exact hleft.elim
    · exact hz
  · rcases hwalk q hq with hw | ⟨hz, hv⟩
    · exact .inl (hw.trans (walk_of_entry hent))
    · exact .inr ⟨hz, (hvis q).1 hv⟩

/-- Exactly the entries of the user pages in the range are cleared, and all of them flushed. -/
structure UnmapsExactly (s : State ι) (i : ι) (tables : Nat) (start finish : Bound) : Prop where
  returns : ∃ s', Returns s i (.tryUnmapUserPages tables start finish) s'
  cleared : ∀ s', Returns s i (.tryUnmapUserPages tables start finish) s' →
    ∀ page, page ≤ lastUserPage → contains start finish page = true → s'.mem.walk (pte tables page) = 0
  kept : ∀ s', Returns s i (.tryUnmapUserPages tables start finish) s' → ∀ q : Place, q.path.length = 3 →
    (∀ page, page ≤ lastUserPage → contains start finish page = true → q ≠ pte tables page) →
    s'.mem.walk q = s.mem.walk q
  flushed : ∀ s', Returns s i (.tryUnmapUserPages tables start finish) s' → ∀ page, page ≤ lastUserPage →
    s'.mem.walk (pte tables page) ≠ s.mem.walk (pte tables page) →
    ∃ a b, unmapRange start finish = some (a, b) ∧ flushUserPages a b page = true

/-- `try_unmap_user_pages` clears what it should, except when the range begins
behind the last user page, does not end before it and that page is mapped. -/
theorem try_unmap_exact_iff {ι : Type} [Fintype ι] [DecidableEq ι] (hcard : Fintype.card ι ≤ 255) (s : State ι)
    (tables : Nat) (h : AtRest s tables) (i : ι) (start finish : Bound) : UnmapsExactly s i tables start finish ↔
      (start.startsBy lastUserPage = true ∨ finish.endsAfter lastUserPage = false ∨
        s.mem.walk (pte tables lastUserPage) = 0) := by
  obtain ⟨⟨s0, hs0⟩, hspec⟩ := h.unmap_spec hcard i start finish
  constructor
  · intro hex
    by_contra hno
    simp only [not_or, Bool.not_eq_true, Bool.not_eq_false] at hno
    obtain ⟨hstart, hend, hmapped⟩ := hno
    have hclamped : Clamped start finish lastUserPage := (clamped_iff le_rfl).2 (.inr ⟨rfl, hstart, hend⟩)
    have hgone := (hspec s0 hs0 _ rfl).1 ⟨_, hclamped, rfl⟩
    have hkept := hex.kept s0 hs0 (pte tables lastUserPage) rfl fun page hle hc he => by
      rw [← pte_inj le_rfl hle he, contains, hstart] at hc
      cases hc
    exact hmapped (hkept.symm.trans hgone)
  intro hcond
  refine ⟨⟨s0, hs0⟩, fun s' hs' page hle hc => ?_, fun s' hs' q hq hout => ?_, fun s' hs' page hle hne => ?_⟩
  · exact (hspec s' hs' _ rfl).1 ⟨page, (clamped_iff hle).2 (.inl hc), rfl⟩
  · rcases (hspec s' hs' q hq).2 with hw | ⟨hz, page, hcl, rfl⟩
    · exact hw
    -- the page that the clamp brings in is not mapped
    · rcases (clamped_iff hcl.le).1 hcl with hc | ⟨rfl, hstart, hend⟩
      · exact absurd rfl (hout page hcl.le hc)
      rw [hstart, hend] at hcond
      simp only [Bool.false_eq_true, Bool.true_eq_false, false_or] at hcond
      exact hz.trans hcond.symm
  rcases (hspec s' hs' (pte tables page) rfl).2 with hw | ⟨-, page', hcl, he⟩
  · exact absurd hw hne
  cases pte_inj hle hcl.le he
  obtain ⟨a, b, hr, ha, hb⟩ := hcl
  refine ⟨a, b, hr, ?_⟩
  rw [flushUserPages]
  split
  · exact decide_eq_true ⟨ha, hb⟩
  · rfl

/-- `set_page` on a page of the first set of page tables, on its own. -/
def setPageAlone (page : Nat) : List (Unit × Act) :=
  ((), .call (.setPage 0 page userEntry)) :: steps () 256 6 ++ steps () 257 8 ++ steps () 258 9 ++ steps () 0 9

lemma setPageAlone_atRest (page : Nat) (h : ((LTS.runFn (fun s l => if (s.cpus l.1).removing.isNone then next s l
      else none) (bootState Unit) (setPageAlone page)).any fun s =>
      (s.cpus ()).isIdle && !(s.mem.locks 0).writer && s.mem.walk (pte 0 page) == 7) = true) :
    ∃ s, (tables Unit).Reachable s ∧ AtRest s 0 ∧ s.mem.walk (pte 0 page) = 7 := by
  obtain ⟨s, hs, hc⟩ := (any_eq_true _ _).1 h
  simp only [Bool.and_eq_true, Bool.not_eq_true', beq_iff_eq] at hc
  obtain ⟨⟨hidle, hlock⟩, hwalk⟩ := hc
  obtain ⟨s0, ls, h0, hr⟩ := serial_of_runFn hs
  refine ⟨s, ⟨s0, ls, h0, hr.of_only⟩, ?_, hwalk⟩
  refine ⟨inv_reachable (by decide) ⟨s0, ls, h0, hr⟩, fun i => ?_, hlock⟩
  cases hpc : s.cpus i <;> rw [hpc] at hidle <;> first | rfl | cases hidle

/-- A mapped page goes, with everything else of the user half. -/
theorem try_unmap_exact_mapped : ∃ s : State Unit, AtRest s 0 ∧ s.mem.walk (pte 0 0) = 7 ∧
    UnmapsExactly s () 0 (.included 0) .unbounded := by
  obtain ⟨s, -, hrest, hwalk⟩ := setPageAlone_atRest 0 (by decide +kernel)
  exact ⟨s, hrest, hwalk, (try_unmap_exact_iff (by decide) s 0 hrest () _ _).2 (.inl rfl)⟩

/-- `munmap` of the first page of the kernel half unmaps the last user page. -/
theorem try_unmap_last_user_page : ∃ s s' : State Unit, (tables Unit).Reachable s ∧ AtRest s 0 ∧
    Returns s () (.tryUnmapUserPages 0 (.included (2 ^ 52 - 2 ^ 35)) (.included (2 ^ 52 - 2 ^ 35))) s' ∧
    contains (.included (2 ^ 52 - 2 ^ 35)) (.included (2 ^ 52 - 2 ^ 35)) lastUserPage = false ∧
    s.mem.walk (pte 0 lastUserPage) = 7 ∧ s'.mem.walk (pte 0 lastUserPage) = 0 := by
  obtain ⟨s, hreach, hrest, hwalk⟩ := setPageAlone_atRest lastUserPage (by decide +kernel)
  obtain ⟨⟨s', hs'⟩, hspec⟩ := hrest.unmap_spec (by decide) () (.included (2 ^ 52 - 2 ^ 35))
    (.included (2 ^ 52 - 2 ^ 35))
  refine ⟨s, s', hreach, hrest, hs', by decide, hwalk, (hspec s' hs' _ rfl).1 ⟨_, ?_, rfl⟩⟩
  exact (clamped_iff le_rfl).2 (.inr ⟨rfl, by decide, by decide⟩)

end

end Mushroom.L2.PageTable
