import Mushroom.Core.LTS
import Mushroom.L2Memory.VmStep

/-!
# All address spaces together

`World` holds the address spaces and what they share. Its steps are page faults,
stores through present entries, `VirtualMemory::clone`, drops, the calls that
change mappings, and what the file system does to file contents. A kernel write
is a sequence of faults and stores (`writeBytes_run`), with other steps between.

The TLB is not modelled: every removal or weakening of an entry is followed by
a broadcast invalidation before the lock is released. `CR0.WP` is set, so kernel
stores heed the writable flag as well.
-/
namespace Mushroom.L2
open Option OrdMap

/-! ## `clone` -/

/-- A clone in progress: the outcome so far, the original, the copy, and the pages of the mapping in work. -/
structure Cloned (α : Type) where
  result : Except Errno Unit
  (self copy : α)
  loose : List UserPage
  heap : Heap

/-- kernel/user/process/memory.rs:978-983 -/
def cloneSlots (A : Allocator) : List (Option UserPage) → Heap → Cloned (List (Option UserPage))
  | [], h => ⟨.ok (), [], [], [], h⟩
  | none :: ps, h =>
    let c := cloneSlots A ps h
    ⟨c.result, none :: c.self, none :: c.copy, c.loose, c.heap⟩
  | some u :: ps, h =>
    match u.page.clone A h with
    | (.error e, h) => ⟨.error e, some u :: ps, [], [], h⟩
    | (.ok k, h) =>
      let c := cloneSlots A ps h
      ⟨c.result, some { u with page := k } :: c.self, some { u with page := k } :: c.copy,
        { u with page := k } :: c.loose, c.heap⟩

/-- memory.rs:112-116,978-992 -/
def cloneMappings (A : Allocator) : Mappings → Heap → Cloned Mappings
  | [], h => ⟨.ok (), [], [], [], h⟩
  | (k, m) :: L, h =>
    let c := cloneSlots A m.pages h
    match c.result with
    | .error e => ⟨.error e, (k, { m with pages := c.self }) :: L, [], c.loose, c.heap⟩
    | .ok () =>
      let r := cloneMappings A L c.heap
      ⟨r.result, (k, { m with pages := c.self }) :: r.self, (k, { m with pages := c.copy }) :: r.copy, r.loose, r.heap⟩

/-- `unmap(VirtAddr::new(0), !0)`, then the fields are dropped.
memory.rs:348-352 -/
def Space.drop (g : Kernel) (s : Space) : Option Kernel :=
  match s.vm g (.unmap .zero (2 ^ 64 - 1)) with
  | none => none
  | some (_, g, s) => some { g with heap := dropAll g.heap s.handles }

/-- A failed clone drops what it has cloned so far.
memory.rs:99-121 -/
def Space.clone (A : Allocator) (g : Kernel) (s : Space) : Option (Except Errno Space × Kernel × Space) :=
  let c := cloneMappings A s.state.mappings g.heap
  let this : Space := ⟨⟨c.copy, s.state.brkEnd⟩, fun _ => none, s.usage.fork⟩
  let s' : Space := ⟨⟨c.self, s.state.brkEnd⟩, freezeUserspace s.pagetables, s.usage⟩
  match c.result with
  | .ok () => some (.ok this, { g with heap := c.heap }, s')
  | .error e =>
    match this.drop { g with heap := dropAll c.heap (c.loose.map UserPage.page) } with
    | none => none
    | some g => some (.error e, g, s')

/-! ## Stores -/

def Heap.store (h : Heap) (frame offset : Nat) (val : UInt8) : Heap :=
  h.setBytes frame fun i => if i = offset then val else h.bytes frame i

/-- One byte through the present entry of a page. -/
def Space.store (g : Kernel) (s : Space) (page offset : Nat) (val : UInt8) : Option Kernel :=
  match s.pagetables page with
  | none => none
  | some e =>
    if e.writable = true ∧ offset < 4096 then some { g with heap := g.heap.store e.frame offset val }
    else none

/-- Byte by byte, up to the first entry that is not present or not writable.
kernel/memory/pagetable.rs:614-631 -/
def Space.writeFast (s : Space) : Kernel → Nat → List UInt8 → Bool × Kernel
  | g, _, [] => (true, g)
  | g, addr, b :: bytes =>
    match s.store g (addr / 4096) (addr % 4096) b with
    | none => (false, g)
    | some g => s.writeFast g (addr + 1) bytes

/-- memory.rs:921-928 -/
def PageFaultError.errno : PageFaultError → Errno
  | .unmapped e => e
  | .missingPermissions e => e
  | .other e => e

/-- `map_addrs`: the first page that fails ends it.
memory.rs:180-195 -/
def Space.mapPages (A : Allocator) (required : RequiredFlags) (tables : Nat → Bool) :
    List Nat → Kernel → Space → Option (Except Errno Unit × Kernel × Space)
  | [], g, s => some (.ok (), g, s)
  | page :: pages, g, s =>
    match mapPage A g s page required (tables page) with
    | none => none
    | some (.error e, g, s) => some (.error e.errno, g, s)
    | some (.ok (), g, s) => Space.mapPages A required tables pages g s

/-- The second attempt is `unwrap`ped.
memory.rs:275-291 -/
def Space.writeBytes (A : Allocator) (tables : Nat → Bool) (g : Kernel) (s : Space) (addr : VirtAddr)
    (bytes : List UInt8) : Option (Except Errno Unit × Kernel × Space) :=
  if bytes = [] then some (.ok (), g, s)
  else if ¬ addr.addr + (bytes.length - 1) < 2 ^ 47 then some (.error .fault, g, s)
  else
    match s.writeFast g addr.addr bytes with
    | (true, g) => some (.ok (), g, s)
    | (false, g) =>
      let last := (addr.addr + (bytes.length - 1)) / 4096
      match Space.mapPages A ⟨true, false⟩ tables (List.range' addr.page (last + 1 - addr.page)) g s with
      | none => none
      | some (.error e, g, s) => some (.error e, g, s)
      | some (.ok (), g, s) =>
        match s.writeFast g addr.addr bytes with
        | (true, g) => some (.ok (), g, s)
        | (false, _) => none

/-! ## The world -/

structure World where
  kernel : Kernel
  spaces : List (Option Space)

namespace World

inductive Act where
  | fault (i page : Nat) (required : RequiredFlags) (tables : Bool)
  | store (i page offset : Nat) (val : UInt8)
  | clone (i : Nat)
  | drop (i : Nat)
  | vm (i : Nat) (op : VmOp)
  | new
  | create
  | write (f offset : Nat) (buf : List UInt8)
  | truncate (f len : Nat)
  deriving DecidableEq

def space (w : World) (i : Nat) : Option Space := (w.spaces[i]?).join

def setSpace (w : World) (g : Kernel) (i : Nat) (s : Option Space) : World := ⟨g, w.spaces.set i s⟩

def addClone (w : World) : Except Errno Space → World
  | .ok this => { w with spaces := w.spaces ++ [some this] }
  | .error _ => w

/-- One step; `none` if it is not enabled or panics. -/
def step (A : Allocator) (w : World) : Act → Option World
  | .fault i page required tables =>
    (w.space i).bind fun s => (mapPage A w.kernel s page required tables).map fun r => w.setSpace r.2.1 i (some r.2.2)
  | .store i page offset val =>
    (w.space i).bind fun s => (s.store w.kernel page offset val).map fun g => { w with kernel := g }
  | .clone i =>
    (w.space i).bind fun s => (s.clone A w.kernel).map fun r => (w.setSpace r.2.1 i (some r.2.2)).addClone r.1
  | .drop i => (w.space i).bind fun s => (s.drop w.kernel).map fun g => w.setSpace g i none
  | .vm i op => (w.space i).bind fun s => (s.vm w.kernel op).map fun r => w.setSpace r.2.1 i (some r.2.2)
  | .new => some { w with spaces := w.spaces ++ [some .new] }
  | .create => some { w with kernel := { w.kernel with files := w.kernel.files ++ [.new] } }
  | .write f offset buf =>
    (w.kernel.files[f]?).map fun b =>
      let r := b.write A w.kernel.heap offset buf
      { w with kernel := w.kernel.setFile f r.2.1 r.2.2 }
  | .truncate f len =>
    (w.kernel.files[f]?).map fun b =>
      let r := b.truncate A w.kernel.heap len
      { w with kernel := w.kernel.setFile f r.2.1 r.2.2 }

/-- The zero page and the trampoline page, with the instructions `code`. -/
def start (code : Nat → UInt8) : World :=
  ⟨⟨⟨fun f i => if f = 1 then code i else 0, fun f => f ≤ 1, fun _ => none, 0⟩, [], ⟨1, none⟩⟩, []⟩

def system (A : Allocator) : LTS World Act := LTS.ofFn (fun w => ∃ code, w = start code) (step A)

/-! ## A kernel write is a sequence of faults and stores -/

/-- A fault or a store of address space `i`. -/
def Act.Touch (i : Nat) : Act → Prop
  | .fault j .. => j = i
  | .store j .. => j = i
  | _ => False

section

variable {A : Allocator} {w : World} {i : Nat} {s : Space} {g g' : Kernel} {bytes : List UInt8} {tables : Nat → Bool}
  {r : Except Errno Unit}

lemma space_setSpace (hi : w.space i = some s) (s' : Option Space) : (w.setSpace g i s').space i = s' := by
  unfold space at hi
  obtain ⟨o, ho, -⟩ := bind_eq_some_iff.1 hi
  obtain ⟨hlt, -⟩ := List.getElem?_eq_some_iff.1 ho
  simp [space, setSpace, hlt]

lemma setSpace_self (hi : w.space i = some s) : w.setSpace w.kernel i (some s) = w := by
  have ho : w.spaces[i]? = some (some s) := by
    unfold space at hi
    cases h : w.spaces[i]? with
    | none => rw [h] at hi; cases hi
    | some o => rw [h] at hi; exact congrArg some hi
  obtain ⟨hlt, he⟩ := List.getElem?_eq_some_iff.1 ho
  unfold setSpace
  rw [← he, List.set_getElem_self]

lemma setSpace_setSpace (w : World) (g g' : Kernel) (i : Nat) (s s' : Option Space) :
    (w.setSpace g i s).setSpace g' i s' = w.setSpace g' i s' := by
  simp [setSpace]

variable (hi : w.space i = some s)
include hi

lemma writeFast_run
    {ok : Bool} {addr : Nat} (h : s.writeFast g addr bytes = (ok, g')) : ∃ acts, (∀ a ∈ acts, a.Touch i) ∧
      (system A).Run (w.setSpace g i (some s)) acts (w.setSpace g' i (some s)) := by
  induction bytes generalizing g addr with
  | nil =>
    cases h
    exact ⟨[], by simp, .nil _⟩
  | cons b bytes ih =>
    unfold Space.writeFast at h
    split at h
    · cases h
      exact ⟨[], by simp, .nil _⟩
    rename_i g1 hst
    obtain ⟨acts, hacts, hrun⟩ := ih h
    refine ⟨.store i (addr / 4096) (addr % 4096) b :: acts, List.forall_mem_cons.2 ⟨rfl, hacts⟩, ?_⟩
    refine .via (w.setSpace g1 i (some s)) ?_ hrun
    show step A _ _ = _
    rw [step, space_setSpace hi, bind_some]
    exact map_eq_some_iff.2 ⟨g1, hst, rfl⟩

lemma mapPages_run {s' : Space} {required : RequiredFlags} {pages : List Nat}
    (h : Space.mapPages A required tables pages g s = some (r, g', s')) : ∃ acts, (∀ a ∈ acts, a.Touch i) ∧
      (system A).Run (w.setSpace g i (some s)) acts (w.setSpace g' i (some s')) := by
  induction pages generalizing w g s with
  | nil =>
    cases h
    exact ⟨[], by simp, .nil _⟩
  | cons page pages ih =>
    unfold Space.mapPages at h
    have hstep : ∀ r1 g1 s1, mapPage A g s page required (tables page) = some (r1, g1, s1) →
        (system A).step (w.setSpace g i (some s)) (.fault i page required (tables page))
          (w.setSpace g1 i (some s1)) := by
      intro r1 g1 s1 hmap
      show step A _ _ = _
      rw [step, space_setSpace hi, bind_some]
      exact map_eq_some_iff.2 ⟨_, hmap, setSpace_setSpace ..⟩
    split at h
    · cases h
    · rename_i e g1 s1 hmap
      cases h
      exact ⟨[.fault i page required (tables page)], by simp [Act.Touch], .cons (hstep _ _ _ hmap) (.nil _)⟩
    rename_i g1 s1 hmap
    obtain ⟨acts, hacts, hrun⟩ := ih (w := w.setSpace g1 i (some s1)) (space_setSpace hi _) h
    rw [setSpace_setSpace, setSpace_setSpace] at hrun
    exact ⟨.fault i page required (tables page) :: acts, List.forall_mem_cons.2 ⟨rfl, hacts⟩,
      .cons (hstep _ _ _ hmap) hrun⟩

/-- **A kernel write** is a run of faults and stores of its address space. -/
lemma writeBytes_run {s' : Space} {addr : VirtAddr}
    (h : s.writeBytes A tables w.kernel addr bytes = some (r, g', s')) :
    ∃ acts, (∀ a ∈ acts, a.Touch i) ∧ (system A).Run w acts (w.setSpace g' i (some s')) := by
  have hself := setSpace_self hi
  have hnil : (system A).Run w [] (w.setSpace w.kernel i (some s)) := by rw [hself]; exact .nil w
  unfold Space.writeBytes at h
  split at h
  · cases h
    exact ⟨[], by simp, hnil⟩
  split at h
  · cases h
    exact ⟨[], by simp, hnil⟩
  split at h
  · rename_i g1 hw
    cases h
    obtain ⟨acts, hacts, hrun⟩ := writeFast_run (A := A) hi hw
    rw [hself] at hrun
    exact ⟨acts, hacts, hrun⟩
  rename_i g1 hw
  obtain ⟨acts, hacts, hrun⟩ := writeFast_run (A := A) hi hw
  rw [hself] at hrun
  simp only at h
  split at h
  · cases h
  · rename_i hm
    cases h
    obtain ⟨acts', hacts', hrun'⟩ := mapPages_run hi hm
    exact ⟨acts ++ acts', List.forall_mem_append.2 ⟨hacts, hacts'⟩, hrun.append hrun'⟩
  rename_i g2 s2 hm
  obtain ⟨acts', hacts', hrun'⟩ := mapPages_run hi hm
  split at h
  · rename_i g3 hw'
    cases h
    obtain ⟨acts'', hacts'', hrun''⟩ := writeFast_run (A := A) (w := w.setSpace g2 i (some s'))
      (space_setSpace hi _) hw'
    rw [setSpace_setSpace, setSpace_setSpace] at hrun''
    refine ⟨acts ++ (acts' ++ acts''), ?_, hrun.append (hrun'.append hrun'')⟩
    exact List.forall_mem_append.2 ⟨hacts, List.forall_mem_append.2 ⟨hacts', hacts''⟩⟩
  · cases h

end

end World

end Mushroom.L2
