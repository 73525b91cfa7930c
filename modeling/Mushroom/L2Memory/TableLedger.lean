import Mushroom.L2Memory.PageTable

/-!
# The books of the page tables

The count of a table and what it counts differ by what is in transit: an entry
that was made and is not counted yet, one that was removed and is still
counted. All of it belongs to a CPU, as the guards do; `weigh` says what a
program counter has of each `Key`, and the invariant balances the counts against
the books of all CPUs.
-/
namespace Mushroom.L2.PageTable
open Function Ledger

/-! ## What a CPU has -/

inductive Key where
  /-- guards on the entry -/
  | guard (p : Place)
  /-- the entry of the table is there and not counted yet -/
  | inc (p : Place) (x : Idx)
  /-- an entry of the table is gone and still counted -/
  | dec (p : Place)
  /-- the entry is being initialized -/
  | init (p : Place)
  /-- the frame is in no entry -/
  | frame (f : PhysFrame)
  deriving DecidableEq

def one (k k' : Key) : Nat := if k' = k then 1 else 0

def Stack.guards : {n : Nat} → Stack n → Key → Nat
  | _, .top k _, key => one (.guard ⟨k, []⟩) key
  | _, .push x _ below, key => one (.guard (below.place.child x)) key + below.guards key

def Stack.lower : {n : Nat} → Stack n → Key → Nat
  | _, .top _ _, _ => 0
  | _, .push _ _ below, key => below.guards key

/-- The parent does not count the entry yet. -/
def Stack.parentInc : {n : Nat} → Stack n → Key → Nat
  | _, .top _ _, _ => 0
  | _, .push x _ below, key => one (.inc below.place x) key

/-- The parent still counts the entry. -/
def Stack.parentDec : {n : Nat} → Stack n → Key → Nat
  | _, .top _ _, _ => 0
  | _, .push _ _ below, key => one (.dec below.place) key

def Inc.weigh : Inc → Key → Nat
  | existing st _ _, key => st.lower key
  | initialized x _ below _, key =>
    one (.guard (below.place.child x)) key + below.guards key + one (.inc below.place x) key
  | inserted st x _, key => st.guards key + one (.inc st.place x) key

def Rel.weigh : Rel → Key → Nat
  | entry st _, key => st.guards key + one (.dec st.place) key
  | guard st, key => st.guards key

def Pc.weigh : Pc → Key → Nat
  | idle, _ | unlock _, _ | freeze .., _ | assertFailed, _ => 0
  | acquireLoad a, key | acquireExchange a _, key => a.st.lower key
  | allocate a, key => a.st.lower key + a.st.parentInc key + one (.init a.st.place) key
  | storeNew a f, key | zero a f, key | storeDone a f, key =>
    a.st.lower key + a.st.parentInc key + one (.init a.st.place) key + one (.frame f) key
  | increaseLoad w, key | increaseExchange w _, key => w.weigh key
  | leaf st _ _ _, key => st.guards key
  | releaseLoad r, key | releaseExchange r _, key => r.weigh key
  | deallocate st f, key => st.lower key + st.parentDec key + one (.frame f) key
  | panicked st own, key => if own then st.guards key else st.lower key

variable {n : Nat}

lemma Stack.guards_eq (st : Stack n) (key : Key) : st.guards key = one (.guard st.place) key + st.lower key := by
  cases st with
  | top k job => rfl
  | push x rest below => rfl

lemma Acquire.weigh_start (st : Stack n) (how : How) (b : Body n) : (Acquire.start st how b).weigh = st.lower := by
  cases how <;> rfl

lemma Stack.weigh_run (st : Stack n) (b : Body n) : (st.run b).weigh = st.guards := by
  cases b with
  | done | leaf x op rest => rfl
  | enter x how inner rest => exact Acquire.weigh_start (.push x rest st) how inner

lemma Job.weigh_next (job : Job) (key : Key) : job.next.weigh key = 0 := by
  rcases job with ⟨lock, todo⟩
  cases todo with
  | nil => rfl
  | cons t todo => exact congrFun (Acquire.weigh_start (.top t.1 ⟨lock, todo⟩) t.2.1 t.2.2) key

lemma Stack.weigh_resume (st : Stack n) : st.resume.weigh = st.lower := by
  cases st with
  | top k job => exact funext job.weigh_next
  | push x rest below => exact below.weigh_run rest

lemma freezeNext_weigh (tables : Nat) (i : Fin 256) (path : List Idx) (key : Key) :
    (freezeNext tables i path).weigh key = 0 := by
  induction path with
  | nil =>
    rw [freezeNext]
    split <;> rfl
  | cons x path ih =>
    rw [freezeNext]
    split
    · rfl
    · exact ih

lemma Acquire.weigh_seen (a : Acquire n) (current : Nat) (h : ¬a.st.place.isStaticEntry = true) :
    (a.seen current).weigh = a.st.lower := by
  rw [Acquire.seen, if_neg h]
  split
  · rfl
  split
  · rfl
  split
  · split <;> rfl
  · rfl

/-- When the count goes up, `acquire_existing` gets its guard, and the others have counted their entry. -/
def Inc.gains : Inc → Key → Nat
  | existing st _ _, key => one (.guard st.place) key
  | initialized .., _ | inserted .., _ => 0

def Inc.pays : Inc → Key → Nat
  | existing .., _ => 0
  | initialized x _ below _, key => one (.inc below.place x) key
  | inserted st x _, key => one (.inc st.place x) key

lemma Inc.weigh_done (w : Inc) (key : Key) : w.done.weigh key + w.pays key = w.weigh key + w.gains key := by
  cases w with
  | existing st unwrap b =>
    simp only [Inc.done, Inc.weigh, Inc.pays, Inc.gains, Stack.weigh_run, Stack.guards_eq]
    omega
  | initialized x rest below b =>
    simp only [Inc.done, Inc.weigh, Inc.pays, Inc.gains, Stack.weigh_run, Stack.guards]
    omega
  | inserted st x b =>
    simp only [Inc.done, Inc.weigh, Inc.pays, Inc.gains, Stack.weigh_run]
    omega

/-- What is given up when the count goes down. -/
def Rel.pays : Rel → Key → Nat
  | entry st _, key => one (.dec st.place) key
  | guard st, key => one (.guard st.place) key

lemma Rel.weigh_done (r : Rel) (key : Key) : r.done.weigh key + r.pays key = r.weigh key := by
  cases r with
  | entry st b => simp only [Rel.done, Rel.weigh, Rel.pays, Stack.weigh_run]
  | guard st =>
    simp only [Rel.done, Rel.weigh, Rel.pays, Stack.weigh_resume, Stack.guards_eq]
    omega

/-! ## The invariant -/

def nz (w : Nat) : Nat := if w = 0 then 0 else 1

def Memory.entries (m : Memory) (p : Place) : Nat := total nz fun x => m.entry (p.child x)

/-- The entry and all above it lead to tables that can be used. -/
structure Usable (m : Memory) (p : Place) : Prop where
  short : p.path.length ≤ 2
  all : ∀ l, l <:+ p.path → ready (m.entry ⟨p.root, l⟩) = true

/-- The table that holds the entry can be used. -/
def Linked (m : Memory) : Place → Prop
  | ⟨_, []⟩ => True
  | ⟨k, _ :: path⟩ => Usable m ⟨k, path⟩

structure Refs (m : Memory) (b : Key → Nat) : Prop where
  balance : ∀ p, Usable m p → p.isStaticEntry = false →
    refCount (m.entry p) + 1 + ∑ x, b (.inc p x) = b (.guard p) + m.entries p + b (.dec p)
  quiet : ∀ p, ¬Usable m p → b (.guard p) = 0 ∧ b (.dec p) = 0 ∧ ∀ x, b (.inc p x) = 0
  owed : ∀ p x, b (.inc p x) ≤ nz (m.entry (p.child x))
  shape : ∀ p, Linked m p → m.entry p ≠ 0 →
    present (m.entry p) = true ∨ p.path.length ≤ 2 ∧ initializing (m.entry p) = true
  kernel : ∀ i, ready (m.entry ⟨.kernel i, []⟩) = true
  init : ∀ p, Linked m p → p.path.length ≤ 2 → b (.init p) = (initializing (m.entry p)).toNat
  fresh : ∀ p, ¬(Linked m p ∧ p.path.length ≤ 2) → b (.init p) = 0

structure Frames (m : Memory) (b : Key → Nat) : Prop where
  used : ∀ p, Usable m p → m.frames (frameOf (m.entry p)) = true ∧ b (.frame (frameOf (m.entry p))) = 0
  distinct : ∀ p q, Usable m p → Usable m q → frameOf (m.entry p) = frameOf (m.entry q) → p = q
  held : ∀ f, b (.frame f) ≤ 1 ∧ (0 < b (.frame f) → m.frames f = true)
  owner : ∀ f, m.frames f = true → 0 < b (.frame f) ∨ ∃ p, Usable m p ∧ frameOf (m.entry p) = f

def Pc.Ok (m : Memory) : Pc → Prop
  | acquireExchange a current =>
    initializing current = false ∧
      (present current = true → a.st.place.isStaticEntry = false ∧ refCount current + 1 < 2 ^ 10)
  | storeDone a _ => ∀ x, m.entry (a.st.place.child x) = 0
  | increaseExchange w current => ready current = true ∧ w.place.isStaticEntry = false ∧ refCount current + 1 < 2 ^ 10
  | releaseExchange r _ => r.place.isStaticEntry = false
  | assertFailed => False
  | _ => True

section

variable {ι : Type} [Fintype ι]

def books (cpus : ι → Pc) (key : Key) : Nat := total (fun pc : Pc => pc.weigh key) cpus

structure Inv (s : State ι) : Prop where
  refs : Refs s.mem (books s.cpus)
  frames : Frames s.mem (books s.cpus)
  cpus : ∀ i, (s.cpus i).Ok s.mem

end

/-! ## Tables that can be used -/

variable {m m' : Memory} {p q : Place} {x y : Idx}

lemma Place.child_inj : p.child x = q.child y ↔ p = q ∧ x = y := by
  rcases p with ⟨k, l⟩
  rcases q with ⟨k', l'⟩
  simp only [Place.child, Place.mk.injEq, List.cons.injEq]
  tauto

lemma Place.ne_child_self (p : Place) (x : Idx) : p ≠ p.child x := by
  intro h
  have hlen := congrArg (fun r : Place => r.path.length) h
  simp [Place.child] at hlen

lemma Usable.ready_self (h : Usable m p) : ready (m.entry p) := h.all _ (List.suffix_refl _)

lemma usable_iff : Usable m p ↔ Linked m p ∧ p.path.length ≤ 2 ∧ ready (m.entry p) := by
  rcases p with ⟨k, l⟩
  cases l with
  | nil =>
    constructor
    · intro h
      exact ⟨trivial, h.short, h.ready_self⟩
    intro h
    refine ⟨h.2.1, fun l hl => ?_⟩
    rw [List.suffix_nil.1 hl]
    exact h.2.2
  | cons x l =>
    constructor
    · intro h
      have hlen : l.length + 1 ≤ 2 := h.short
      exact ⟨⟨by simp only; omega, fun l' hl => h.all l' (hl.trans (List.suffix_cons x l))⟩, h.short, h.ready_self⟩
    rintro ⟨hl, hlen, hr⟩
    refine ⟨hlen, fun l' hl' => ?_⟩
    rcases List.suffix_cons_iff.1 hl' with rfl | hsub
    · exact hr
    · exact hl.all l' hsub

lemma usable_congr (h : ∀ q : Place, q.path.length ≤ 2 → ready (m'.entry q) = ready (m.entry q)) (p : Place) :
    Usable m' p ↔ Usable m p := by
  constructor
  · intro hu
    exact ⟨hu.short, fun l hl => (h ⟨p.root, l⟩ (hl.length_le.trans hu.short)).symm.trans (hu.all l hl)⟩
  · intro hu
    exact ⟨hu.short, fun l hl => (h ⟨p.root, l⟩ (hl.length_le.trans hu.short)).trans (hu.all l hl)⟩

lemma usable_of_entry (h : m'.entry = m.entry) (p : Place) : Usable m' p ↔ Usable m p :=
  usable_congr (fun _ _ => by rw [h]) p

lemma linked_congr (h : ∀ q, Usable m' q ↔ Usable m q) (p : Place) : Linked m' p ↔ Linked m p := by
  rcases p with ⟨k, l⟩
  cases l with
  | nil => exact Iff.rfl
  | cons x l => exact h ⟨k, l⟩

/-! ## Accesses -/

lemma Memory.set_self (w : Nat) : (m.set p w).entry p = w := update_self ..

lemma Memory.set_ne {w : Nat} (h : q ≠ p) : (m.set p w).entry q = m.entry q := update_of_ne h ..

lemma Memory.setTable_child (c : Idx → Nat) : (m.setTable p c).entry (p.child x) = c x := by
  simp [Memory.setTable, Place.child]

lemma Memory.setTable_ne {c : Idx → Nat} (h : ∀ x, q ≠ p.child x) : (m.setTable p c).entry q = m.entry q := by
  rcases q with ⟨k, l⟩
  cases l with
  | nil => rfl
  | cons y l =>
    refine if_neg fun he => h y ?_
    subst he
    rfl

lemma entries_congr (h : ∀ x, nz (m'.entry (p.child x)) = nz (m.entry (p.child x))) : m'.entries p = m.entries p :=
  total_congr nz _ h

lemma entries_set_other {w : Nat} (h : ∀ x, q ≠ p.child x) : (m.set q w).entries p = m.entries p :=
  entries_congr fun x => by rw [Memory.set_ne fun he => h x he.symm]

lemma entries_set_child (w : Nat) :
    (m.set (p.child x) w).entries p + nz (m.entry (p.child x)) = m.entries p + nz w := by
  have hrow : (fun y => (m.set (p.child x) w).entry (p.child y)) =
      Function.update (fun y => m.entry (p.child y)) x w := by
    funext y
    by_cases hy : y = x
    · subst hy
      rw [Memory.set_self, update_self]
    · rw [Memory.set_ne fun he => hy (Place.child_inj.1 he).2, update_of_ne hy]
  have hsum := total_update nz (fun y => m.entry (p.child y)) x w
  rwa [← hrow] at hsum

lemma entries_le (m : Memory) (p : Place) : m.entries p ≤ 512 := by
  refine (total_le_card _ _ fun x => ?_).trans (Fintype.card_fin 512).le
  rw [nz]
  split <;> simp

lemma entries_eq_zero : m.entries p = 0 ↔ ∀ x, m.entry (p.child x) = 0 := by
  rw [Memory.entries, total_eq_zero_iff]
  simp [nz]

end Mushroom.L2.PageTable
