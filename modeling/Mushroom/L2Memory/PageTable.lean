import Mushroom.Core.LTS
import Mushroom.Core.Ledger

/-!
# Reference-counted page tables

A table entry of level 4, 3 or 2 points to a table of 512 entries and counts in
ten spare bits who needs it: its non-zero entries and the guards of the
operations in it (one less is stored). `acquire` makes a missing table,
`release_reference_count` takes the entry of an unneeded one out and its guard
frees the frame. The level 4 entries of the kernel half are not counted.

An entry is addressed by its place, the indices that lead to it; the user half
belongs to one set of `Pagetables` and the kernel half to all. Every access to an
entry is a step. What an operation does in between is a `Body`, the script of its
nested loops, and its guards are a `Stack`. TLB flushes and the accessed and
dirty bits are left out.
-/
namespace Mushroom.L2.PageTable

/-- `PageTableIndex` -/
abbrev Idx := Fin 512
/-- `PhysFrame`, by its number -/
abbrev PhysFrame := Fin (2 ^ 40)

scoped instance frames_neZero : NeZero (2 ^ 40) := ⟨by decide⟩

/-! ## Words -/

/-- kernel/memory/pagetable.rs:1263-1287 -/
def present (w : Nat) : Bool := w % 2 = 1
def userBit (w : Nat) : Bool := w / 2 ^ 2 % 2 = 1
def hugeBit (w : Nat) : Bool := w / 2 ^ 7 % 2 = 1
def globalBit (w : Nat) : Bool := w / 2 ^ 8 % 2 = 1
def initializing (w : Nat) : Bool := w / 2 ^ 9 % 2 = 1

/-- `REFERENCE_COUNT_BITS` are 52..62. -/
def refCount (w : Nat) : Nat := w / 2 ^ 52 % 2 ^ 10
def setRefCount (w n : Nat) : Nat := w / 2 ^ 62 * 2 ^ 62 + n * 2 ^ 52 + w % 2 ^ 52

def frameOf (w : Nat) : PhysFrame := ⟨w / 2 ^ 12 % 2 ^ 40, Nat.mod_lt _ (by decide)⟩

/-- The entry of a new table. pagetable.rs:885-892 -/
def newEntry (frame : PhysFrame) (user global init : Bool) : Nat :=
  frame * 2 ^ 12 + init.toNat * 2 ^ 9 + global.toNat * 2 ^ 8 + user.toNat * 2 ^ 2 + 3

/-- `WRITE_BIT` is cleared. pagetable.rs:1259 -/
def frozen (w : Nat) : Nat := w - w / 2 % 2 * 2

/-- The entry leads to a table that can be used. -/
def ready (w : Nat) : Bool := present w && !initializing w

/-- pagetable.rs:1301-1303 -/
structure PresentPageTableEntry where
  word : Nat
  isPresent : present word = true

variable {w : Nat}

lemma ready_iff : ready w ↔ present w ∧ initializing w = false := by simp [ready]

lemma ne_zero_of_present (h : present w) : w ≠ 0 := by
  rintro rfl
  cases h

lemma ne_zero_of_initializing (h : initializing w) : w ≠ 0 := by
  rintro rfl
  cases h

section

variable {w n : Nat}

lemma refCount_setRefCount (h : n < 2 ^ 10) : refCount (setRefCount w n) = n := by
  simp only [refCount, setRefCount]
  omega

lemma ready_setRefCount : ready (setRefCount w n) = ready w := by
  have h0 : setRefCount w n % 2 = w % 2 := by simp only [setRefCount]; omega
  have h9 : setRefCount w n / 2 ^ 9 % 2 = w / 2 ^ 9 % 2 := by simp only [setRefCount]; omega
  simp only [ready, present, initializing, h0, h9]

lemma frameOf_setRefCount : frameOf (setRefCount w n) = frameOf w := by
  refine Fin.ext ?_
  simp only [frameOf, setRefCount]
  omega

lemma present_frozen : present (frozen w) = present w := by
  have h0 : frozen w % 2 = w % 2 := by simp only [frozen]; omega
  simp only [present, h0]

lemma frozen_ne_zero (h : present w) : frozen w ≠ 0 := ne_zero_of_present (present_frozen.trans h)

variable (f : PhysFrame) (u g init : Bool)

lemma present_newEntry : present (newEntry f u g init) := by
  refine decide_eq_true ?_
  simp only [newEntry]
  omega

lemma initializing_newEntry : initializing (newEntry f u g init) = init := by
  cases init <;> cases u <;> cases g <;> simp [initializing, newEntry] <;> omega

lemma refCount_newEntry : refCount (newEntry f u g init) = 0 := by
  have hf := f.isLt
  cases init <;> cases u <;> cases g <;> simp only [refCount, newEntry, Bool.toNat_true, Bool.toNat_false] <;> omega

lemma frameOf_newEntry : frameOf (newEntry f u g init) = f := by
  have hf := f.isLt
  refine Fin.ext ?_
  cases init <;> cases u <;> cases g <;> simp only [frameOf, newEntry, Bool.toNat_true, Bool.toNat_false] <;> omega

end

/-! ## Places -/

/-- The kernel half of level 4 is shared, the user half belongs to one set of page tables. -/
inductive Root where
  | kernel (i : Fin 256)
  | user (tables : Nat) (i : Fin 256)
  deriving DecidableEq

/-- An entry, by the indices below level 4 that lead to it, the innermost first. -/
structure Place where
  root : Root
  path : List Idx
  deriving DecidableEq

namespace Place

/-- Entry `x` of the table to which the entry points. -/
def child (p : Place) (x : Idx) : Place := ⟨p.root, x :: p.path⟩

/-- pagetable.rs:1065-1079 -/
def isStaticEntry : Place → Bool
  | ⟨.kernel _, []⟩ => true
  | _ => false

end Place

/-! ## Operations -/

inductive LeafOp where
  | map (entry : PresentPageTableEntry)
  | setPage (entry : PresentPageTableEntry)
  | unmap
  | tryUnmap

/-- `acquire` with the flags of the entry, or `acquire_existing`, whose `None` is unwrapped or passes over
the table. -/
inductive How where
  | acquire (user global : Bool)
  | existing (unwrap : Bool)

/-- An operation in a table of level `n + 1` goes over entries and, above level 1, into their tables. -/
inductive Body : Nat → Type where
  | done {n : Nat} : Body n
  | leaf (x : Idx) (op : LeafOp) (rest : Body 0) : Body 0
  | enter {n : Nat} (x : Idx) (how : How) (inner : Body n) (rest : Body (n + 1)) : Body (n + 1)

inductive Held where
  | nothing
  | read (tables : Nat)
  | write (tables : Nat)

/-- The part of an operation that is left to do at level 4. -/
structure Job where
  lock : Held
  todo : List (Root × How × Body 2)

/-- The guards, the innermost first, each with what is left to do in the table around it. -/
inductive Stack : Nat → Type where
  | top (k : Root) (job : Job) : Stack 2
  | push {n : Nat} (x : Idx) (rest : Body (n + 1)) (below : Stack (n + 1)) : Stack n

def Stack.place : {n : Nat} → Stack n → Place
  | _, .top k _ => ⟨k, []⟩
  | _, .push x _ below => below.place.child x

/-- The locals of `acquire_reference_count`; `st` has the guard that it makes. -/
structure Acquire (n : Nat) where
  st : Stack n
  (user global : Bool)
  body : Body n

/-- The callers of `increase_reference_count`: `acquire_existing`, an `acquire` that has made a table, and a
new entry of level 1. -/
inductive Inc where
  | existing {n : Nat} (st : Stack n) (unwrap : Bool) (b : Body n)
  | initialized {n : Nat} (x : Idx) (rest : Body (n + 1)) (below : Stack (n + 1)) (b : Body n)
  | inserted (st : Stack 0) (x : Idx) (b : Body 0)

def Inc.place : Inc → Place
  | existing st _ _ => st.place
  | initialized _ _ below _ => below.place
  | inserted st _ _ => st.place

/-- The callers of `release_reference_count`: the removal of an entry, and the drop of a guard. -/
inductive Rel where
  | entry {n : Nat} (st : Stack n) (b : Body n)
  | guard {n : Nat} (st : Stack n)

def Rel.place : Rel → Place
  | entry st _ => st.place
  | guard st => st.place

/-- The next access to the entries, with the locals. -/
inductive Pc where
  | idle
  | unlock (lock : Held)
  -- `acquire_reference_count`
  | acquireLoad {n : Nat} (a : Acquire n)
  | acquireExchange {n : Nat} (a : Acquire n) (current : Nat)
  | allocate {n : Nat} (a : Acquire n)
  | storeNew {n : Nat} (a : Acquire n) (frame : PhysFrame)
  | zero {n : Nat} (a : Acquire n) (frame : PhysFrame)
  | storeDone {n : Nat} (a : Acquire n) (frame : PhysFrame)
  -- `increase_reference_count`
  | increaseLoad (w : Inc)
  | increaseExchange (w : Inc) (current : Nat)
  -- the entries of level 1
  | leaf (st : Stack 0) (x : Idx) (op : LeafOp) (b : Body 0)
  -- `release_reference_count`
  | releaseLoad (r : Rel)
  | releaseExchange (r : Rel) (current : Nat)
  -- the drop of a guard
  | deallocate {n : Nat} (st : Stack n) (frame : PhysFrame)
  | freeze (tables : Nat) (i : Fin 256) (path : List Idx)
  -- a panic for the arguments' sake; the innermost guard of `st` is held if `own`
  | panicked {n : Nat} (st : Stack n) (own : Bool)
  -- an assertion on counts or frames
  | assertFailed

/-! ## Control -/

def Acquire.start {n : Nat} (st : Stack n) (how : How) (b : Body n) : Pc :=
  match how with
  | .acquire user global => .acquireLoad ⟨st, user, global, b⟩
  | .existing unwrap => .increaseLoad (.existing st unwrap b)

def Stack.run : {n : Nat} → Stack n → Body n → Pc
  | _, st, .done => .releaseLoad (.guard st)
  | _, st, .leaf x op rest => .leaf st x op rest
  | _, st, .enter x how inner rest => Acquire.start (.push x rest st) how inner

def Job.next (job : Job) : Pc :=
  match job.todo with
  | [] => .unlock job.lock
  | (k, how, b) :: todo => Acquire.start (.top k { job with todo }) how b

def Stack.resume : {n : Nat} → Stack n → Pc
  | _, .top _ job => job.next
  | _, .push _ rest below => below.run rest

/-- What `acquire_reference_count` does with the entry that it has seen.
pagetable.rs:829-880 -/
def Acquire.seen {n : Nat} (a : Acquire n) (current : Nat) : Pc :=
  if a.st.place.path ≠ [] ∧ hugeBit current = true then .panicked a.st false
  else if initializing current then .acquireLoad a
  else if present current then
    if a.user ≠ userBit current ∨ a.global ≠ globalBit current then .panicked a.st false
    else if a.st.place.isStaticEntry then a.st.run a.body
    else .acquireExchange a current
  else .acquireExchange a current

/-- The parent's count goes up after its entry was made.
pagetable.rs:785-809 -/
def Acquire.initialized : {n : Nat} → Acquire n → Pc
  | _, ⟨.top k job, _, _, b⟩ => (Stack.top k job).run b
  | _, ⟨.push x rest below, _, _, b⟩ => .increaseLoad (.initialized x rest below b)

def Inc.done : Inc → Pc
  | existing st _ b => st.run b
  | initialized x rest below b => (Stack.push x rest below).run b
  | inserted st _ b => st.run b

def Inc.failed : Inc → Pc
  | existing st unwrap _ => if unwrap then .panicked st false else st.resume
  | initialized .. | inserted .. => .assertFailed

/-- pagetable.rs:932-945 -/
def Inc.seen (w : Inc) (current : Nat) : Pc :=
  if initializing current then .increaseLoad w
  else if present current then .increaseExchange w current
  else w.failed

/-- pagetable.rs:977-979 -/
def Rel.seen (r : Rel) (current : Nat) : Pc :=
  if current = 0 then .assertFailed else .releaseExchange r current

/-- `release_reference_count` has returned `None`. -/
def Rel.done : Rel → Pc
  | entry st b => st.run b
  | guard st => st.resume

/-- `release_reference_count` has returned the frame. -/
def Rel.freed (frame : PhysFrame) : Rel → Pc
  | entry .. => .assertFailed
  | guard st => .deallocate st frame

/-- pagetable.rs:1189-1198 -/
def Stack.releaseParent : {n : Nat} → Stack n → Pc
  | _, .top _ job => job.next
  | _, .push _ rest below => .releaseLoad (.entry below rest)

/-- The entry after the ones at and below `path`.
pagetable.rs:1232-1243 -/
def freezeNext (tables : Nat) (i : Fin 256) : List Idx → Pc
  | [] => if h : i.val + 1 < 256 then .freeze tables ⟨i + 1, h⟩ [] else .unlock (.write tables)
  | x :: path => if h : x.val + 1 < 512 then .freeze tables i (⟨x + 1, h⟩ :: path) else freezeNext tables i path

/-! ## Steps -/

structure Lock where
  readers : Nat
  writer : Bool

/-- `frames` has the frames of the page tables. -/
structure Memory where
  entry : Place → Nat
  frames : PhysFrame → Bool
  locks : Nat → Lock

namespace Memory

def set (m : Memory) (p : Place) (w : Nat) : Memory := { m with entry := Function.update m.entry p w }

def setTable (m : Memory) (p : Place) (contents : Idx → Nat) : Memory :=
  { m with entry := fun q =>
      match q with
      | ⟨k, x :: path⟩ => if (⟨k, path⟩ : Place) = p then contents x else m.entry q
      | _ => m.entry q }

def setFrame (m : Memory) (f : PhysFrame) (allocated : Bool) : Memory :=
  { m with frames := Function.update m.frames f allocated }

def setLock (m : Memory) (tables : Nat) (l : Lock) : Memory := { m with locks := Function.update m.locks tables l }

def unlock (m : Memory) : Held → Memory
  | .nothing => m
  | .read tables => m.setLock tables { m.locks tables with readers := (m.locks tables).readers - 1 }
  | .write tables => m.setLock tables { m.locks tables with writer := false }

end Memory

/-- pagetable.rs:1091-1139 -/
def LeafOp.exec (op : LeafOp) (m : Memory) (st : Stack 0) (x : Idx) (b : Body 0) : Memory × Pc :=
  let p := st.place.child x
  let old := m.entry p
  match op with
  | .map entry => if old = 0 then (m.set p entry.word, .increaseLoad (.inserted st x b)) else (m, .panicked st true)
  | .setPage entry => (m.set p entry.word, if old = 0 then .increaseLoad (.inserted st x b) else st.run b)
  | .unmap => (m.set p 0, if present old then .releaseLoad (.entry st b) else .panicked st true)
  | .tryUnmap => (m.set p 0, if present old then .releaseLoad (.entry st b) else st.run b)

/-- One access; `allocate_frame` returns `frame` with `garbage` in it, `none` is a step that cannot be taken.
pagetable.rs:824-1028 and 1215-1261 -/
def exec (m : Memory) (frame : PhysFrame) (garbage : Idx → Nat) : Pc → Option (Memory × Pc)
  | .idle | .panicked .. | .assertFailed => none
  | .unlock lock => some (m.unlock lock, .idle)
  | .acquireLoad a => some (m, a.seen (m.entry a.st.place))
  | .acquireExchange a current =>
    let p := a.st.place
    if present current ∧ ¬refCount current + 1 < 2 ^ 10 then some (m, .assertFailed)
    else if m.entry p = current then
      if present current then
        some (m.set p (setRefCount current (refCount current + 1)), a.st.run a.body)
      else some (m.set p (2 ^ 9), .allocate a)
    else some (m, a.seen (m.entry p))
  | .allocate a => if m.frames frame then none else some (m.setFrame frame true, .storeNew a frame)
  | .storeNew a f => some ((m.setTable a.st.place garbage).set a.st.place (newEntry f a.user a.global true), .zero a f)
  | .zero a f => some (m.setTable a.st.place fun _ => 0, .storeDone a f)
  | .storeDone a f => some (m.set a.st.place (newEntry f a.user a.global false), a.initialized)
  | .increaseLoad w => if w.place.isStaticEntry then some (m, w.done) else some (m, w.seen (m.entry w.place))
  | .increaseExchange w current =>
    if ¬refCount current + 1 < 2 ^ 10 then some (m, .assertFailed)
    else if m.entry w.place = current then
      some (m.set w.place (setRefCount current (refCount current + 1)), w.done)
    else some (m, w.seen (m.entry w.place))
  | .leaf st x op b => some (op.exec m st x b)
  | .releaseLoad r => if r.place.isStaticEntry then some (m, r.done) else some (m, r.seen (m.entry r.place))
  | .releaseExchange r current =>
    if m.entry r.place = current then
      if 1 ≤ refCount current then
        some (m.set r.place (setRefCount current (refCount current - 1)), r.done)
      else some (m.set r.place 0, r.freed (frameOf current))
    else some (m, r.seen (m.entry r.place))
  | .deallocate st f => some (m.setFrame f false, st.releaseParent)
  | .freeze tables i path =>
    let p : Place := ⟨.user tables i, path⟩
    if path.length = 3 then some (m.set p (frozen (m.entry p)), freezeNext tables i path)
    else if m.entry p = 0 then some (m, freezeNext tables i path)
    else some (m, .freeze tables i (0 :: path))

/-! ## Calls -/

/-- A page is its number; the index of level `n + 1` has the nine bits from `9 * n`. -/
def index (n page : Nat) : Idx := ⟨page / 2 ^ (9 * n) % 512, Nat.mod_lt _ (by decide)⟩

def isUserPage (page : Nat) : Bool := index 3 page < 256

/-- The level 4 entry of the page while the page tables are active. -/
def rootOf (tables page : Nat) : Root :=
  let i : Fin 256 := ⟨page / 2 ^ 27 % 256, Nat.mod_lt _ (by decide)⟩
  if isUserPage page then .user tables i else .kernel i

/-- The guards down to the table of level 1; `CAN_SET_GLOBAL` is false at level 4. -/
def onPage (tables page : Nat) (how : Bool → How) (op : LeafOp) : List (Root × How × Body 2) :=
  [(rootOf tables page, how false,
    .enter (index 2 page) (how true) (.enter (index 1 page) (how true) (.leaf (index 0 page) op .done) .done) .done)]

/-- `flags.contains(USER)` and `flags.contains(GLOBAL) & CAN_SET_GLOBAL` -/
def PresentPageTableEntry.acquire (entry : PresentPageTableEntry) (canSetGlobal : Bool) : How :=
  .acquire (userBit entry.word) (globalBit entry.word && canSetGlobal)

/-- The entries over which `try_unmap_user_pages` loops for `start..=end`, with what of the range lies in each.
pagetable.rs:499-571 -/
def eachEntry {β : Type} (n start finish : Nat) (visit : Idx → Nat → Nat → β → β) (done : β) : β :=
  let i := index n start
  (List.range' i (index n finish + 1 - i)).foldr (fun j rest =>
    let first := start / 2 ^ (9 * n + 9) * 2 ^ (9 * n + 9) + j * 2 ^ (9 * n)
    visit ⟨j % 512, Nat.mod_lt _ (by decide)⟩ (max start first) (min finish (first + 2 ^ (9 * n) - 1)) rest) done

def unmapPt (start finish : Nat) : Body 0 := eachEntry 0 start finish (fun i _ _ rest => .leaf i .tryUnmap rest) .done

def unmapPd (start finish : Nat) : Body 1 :=
  eachEntry 1 start finish (fun i start finish rest => .enter i (.existing false) (unmapPt start finish) rest) .done

def unmapPdp (start finish : Nat) : Body 2 :=
  eachEntry 2 start finish (fun i start finish rest => .enter i (.existing false) (unmapPd start finish) rest) .done

def unmapPml4 (tables start finish : Nat) : List (Root × How × Body 2) :=
  eachEntry 3 start finish (fun i start finish rest =>
    (.user tables ⟨i % 256, Nat.mod_lt _ (by decide)⟩, .existing false, unmapPdp start finish) :: rest) []

inductive Bound where
  | included (page : Nat)
  | excluded (page : Nat)
  | unbounded

def lastUserPage : Nat := 2 ^ 35 - 1

/-- pagetable.rs:469-474 -/
def startPage : Bound → Nat
  | .included page => min page lastUserPage
  | .excluded page => min (page + 1) lastUserPage
  | .unbounded => 0

/-- pagetable.rs:475-486 -/
def endPage : Bound → Option Nat
  | .included page => some (min page lastUserPage)
  | .excluded 0 => none
  | .excluded (page + 1) => some (min page lastUserPage)
  | .unbounded => some lastUserPage

inductive Call where
  | mapPage (tables page : Nat) (entry : PresentPageTableEntry)
  | unmapPage (tables page : Nat)
  | setPage (tables page : Nat) (entry : PresentPageTableEntry)
  | tryUnmapUserPages (tables : Nat) (start finish : Bound)
  | freezeUserspace (tables : Nat)

def Memory.read (m : Memory) (tables : Nat) : Option Memory :=
  let l := m.locks tables
  if l.writer then none else some (m.setLock tables { l with readers := l.readers + 1 })

def Memory.write (m : Memory) (tables : Nat) : Option Memory :=
  let l := m.locks tables
  if l.writer ∨ l.readers ≠ 0 then none else some (m.setLock tables { l with writer := true })

/-- An operation begins; it waits (`none`) for the `update_lock`.
pagetable.rs:166-213 and 416-500 -/
def Call.start (m : Memory) : Call → Option (Memory × Pc)
  | .mapPage tables page entry => some (m, (Job.mk .nothing (onPage tables page entry.acquire (.map entry))).next)
  | .unmapPage tables page => some (m, (Job.mk .nothing (onPage tables page (fun _ => .existing true) .unmap)).next)
  | .setPage tables page entry =>
    -- `check_user_page`
    if isUserPage page then (m.read tables).map fun m =>
      (m, (Job.mk (.read tables) (onPage tables page entry.acquire (.setPage entry))).next)
    else some (m, .idle)
  | .tryUnmapUserPages tables start finish =>
    match endPage finish with
    | none => some (m, .idle)
    | some finish =>
      if finish < startPage start then some (m, .idle)
      else (m.read tables).map fun m => (m, (Job.mk (.read tables) (unmapPml4 tables (startPage start) finish)).next)
  | .freezeUserspace tables => (m.write tables).map fun m => (m, .freeze tables 0 [])

structure State (ι : Type) where
  mem : Memory
  cpus : ι → Pc

inductive Act where
  | call (c : Call)
  | run (frame : PhysFrame) (garbage : Idx → Nat)

variable {ι : Type} [DecidableEq ι]

def act (m : Memory) (pc : Pc) : Act → Option (Memory × Pc)
  | .call c => match pc with
    | .idle => c.start m
    | _ => none
  | .run frame garbage => exec m frame garbage pc

def next (s : State ι) (l : ι × Act) : Option (State ι) :=
  (act s.mem (s.cpus l.1) l.2).map fun o => ⟨o.1, Function.update s.cpus l.1 o.2⟩

/-- After `INIT_KERNEL_PML4ES` the kernel half leads to tables of its own, and there are no others. -/
structure Boot (m : Memory) : Prop where
  kernel : ∀ i, ready (m.entry ⟨.kernel i, []⟩) = true ∧ m.frames (frameOf (m.entry ⟨.kernel i, []⟩)) = true
  distinct : ∀ i j, frameOf (m.entry ⟨.kernel i, []⟩) = frameOf (m.entry ⟨.kernel j, []⟩) → i = j
  empty : ∀ p : Place, p.isStaticEntry = false → m.entry p = 0
  frames : ∀ f, m.frames f = true → ∃ i, frameOf (m.entry ⟨.kernel i, []⟩) = f
  unlocked : ∀ tables, (m.locks tables).readers = 0 ∧ (m.locks tables).writer = false

/-- Any number of CPUs, any operations, any interleaving. -/
def tables (ι : Type) [DecidableEq ι] : LTS (State ι) (ι × Act) :=
  LTS.ofFn (fun s => Boot s.mem ∧ ∀ i, s.cpus i = .idle) next

end Mushroom.L2.PageTable
