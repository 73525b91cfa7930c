import Mushroom.L2Memory.Buffer
import Mushroom.L2Memory.Resolve

/-!
# Address spaces

`VirtualMemory` of `kernel/user/process/memory.rs`: the mappings, the user half of
the page tables and the memory usage of an address space, and what all of them
share (`Kernel`): the heap, the files and the sigreturn trampoline.

The page tables are a partial function from pages to entries; that a table cannot
be allocated is an argument of `mapPage` (`tables`). `none` is a panic.
-/
namespace Mushroom.L2

open OrdMap

/-! ## Page tables -/

/-- A present entry of a user page.
kernel/memory/pagetable.rs, PresentPageTableEntry -/
structure Pte where
  frame : Nat
  (writable executable : Bool)
  deriving DecidableEq

abbrev Pagetables := Nat → Option Pte

def userPages : Nat := 2 ^ 35

def lastUserPage : Nat := userPages - 1

/-- pagetable.rs:465-492 -/
def tryUnmapUserPages (pt : Pagetables) (start stop : Nat) : Pagetables :=
  fun p => if min start lastUserPage ≤ p ∧ p ≤ min stop lastUserPage then none else pt p

/-- pagetable.rs:446-457 -/
def freezeUserspace (pt : Pagetables) : Pagetables :=
  fun p => (pt p).map ({ · with writable := false })

/-- `tables`: the upper tables exist or can be allocated.
pagetable.rs:299-302,418-443 -/
def setPage (pt : Pagetables) (page : Nat) (entry : Pte) (tables : Bool) : Except Errno Pagetables :=
  if ¬ page < userPages then .error .fault
  else if tables then .ok fun p => if p = page then some entry else pt p
  else .error .noMem

structure RequiredFlags where
  (writable executable : Bool)
  deriving DecidableEq

/-- `entry.flags().contains(required_flags)`. -/
def Pte.contains (e : Pte) (r : RequiredFlags) : Bool := (!r.writable || e.writable) && (!r.executable || e.executable)

/-- kernel/memory/page/user.rs:35-46 -/
def UserPage.entry (u : UserPage) : Pte := ⟨u.page.content, u.perms.write && u.page.mutable u.shared, u.perms.execute⟩

/-! ## Memory usage -/

/-- kernel/user/process/usage.rs:9-15 -/
structure MemoryUsage where
  (maxrss minflt majflt rss : Nat)
  deriving DecidableEq

namespace MemoryUsage

def default : MemoryUsage := ⟨0, 0, 0, 0⟩

/-- usage.rs:18-26 -/
def fork (u : MemoryUsage) : MemoryUsage := ⟨u.rss, 0, 0, u.rss⟩

/-- `fetch_add` wraps around.
usage.rs:30-36 -/
def recordMinorPageFault (u : MemoryUsage) : MemoryUsage := { u with minflt := (u.minflt + 1) % 2 ^ 64 }

def recordMajorPageFault (u : MemoryUsage) : MemoryUsage := { u with majflt := (u.majflt + 1) % 2 ^ 64 }

/-- usage.rs:38-41 -/
def increaseRss (u : MemoryUsage) : MemoryUsage := { u with rss := u.rss + 1, maxrss := max u.maxrss (u.rss + 1) }

/-- `fetch_sub` wraps around.
usage.rs:43-46 -/
def decreaseRss (u : MemoryUsage) (delta : Nat) : MemoryUsage := { u with rss := (u.rss + (2 ^ 64 - delta)) % 2 ^ 64 }

end MemoryUsage

/-! ## Address spaces and what they share -/

/-- memory.rs:61-65 -/
structure Space where
  state : VirtualMemoryState
  pagetables : Pagetables
  usage : MemoryUsage

def Space.new : Space := ⟨.new, fun _ => none, .default⟩

structure Kernel where
  heap : Heap
  files : List Buffer
  trampoline : KernelPage

def Kernel.setFile (g : Kernel) (f : Nat) (b : Buffer) (h : Heap) : Kernel :=
  { g with heap := h, files := g.files.set f b }

/-- `none`: a trampoline offset other than 0 (an assertion), or no such file.
memory.rs:406-408,463-479,549-552 -/
def getInitialPage (A : Allocator) (g : Kernel) (backing : Backing) (offset : Nat) :
    Option (Except Errno KernelPage × Kernel) :=
  match backing with
  | .zero => some (.ok .zeroed, g)
  | .trampoline =>
    if offset ≠ 0 then none
    else
      match g.trampoline.clone A g.heap with
      | (.error e, h) => some (.error e, { g with heap := h })
      | (.ok k, h) => some (.ok k, { g with heap := h, trampoline := k })
  | .file f zeroOffset shared zeroPad =>
    let startOffset := zeroOffset - offset * 4096
    if startOffset = 0 then some (if zeroPad then .ok .zeroed else .error .acces, g)
    else
      match g.files[f]? with
      | none => none
      | some b =>
        match b.getPage A g.heap offset shared with
        | (.error e, b, h) => some (.error e, g.setFile f b h)
        | (.ok k, b, h) =>
          if startOffset < 4096 ∧ shared = false then
            match k.zeroRange A h startOffset 4096 false with
            | (.error e, h) => some (.error e, g.setFile f b (k.drop h))
            | (.ok k, h) => some (.ok k, g.setFile f b h)
          else some (.ok k, g.setFile f b h)

/-! ## Page faults -/

/-- memory.rs:915-919 -/
inductive PageFaultError where
  | unmapped (e : Errno)
  | missingPermissions (e : Errno)
  | other (e : Errno)
  deriving DecidableEq

def Mapping.setPage (m : Mapping) (offset : Nat) (u : UserPage) : Mapping :=
  { m with pages := m.pages.set offset (some u) }

def setSlot (L : Mappings) (page : Nat) (u : UserPage) : Mappings :=
  match getLE L page with
  | none => L
  | some (k, _) => L.map fun x => if x.1 = k then (k, x.2.setPage (page - k) u) else x

def Space.setSlot (s : Space) (page : Nat) (u : UserPage) : Space :=
  { s with state := { s.state with mappings := L2.setSlot s.state.mappings page u } }

/-- The page of the slot `x`, taken from the backing if the slot is empty.
memory.rs:939-964 -/
def populate (A : Allocator) (g : Kernel) (s : Space) (page : Nat) (x : Slot) :
    Option (Except Errno UserPage × Kernel × Space) :=
  match x.page with
  | some u => some (.ok u, g, s)
  | none =>
    match getInitialPage A g x.backing x.offset with
    | none => none
    | some (.error e, g) => some (.error e, g, s)
    | some (.ok k, g) =>
      let u : UserPage := ⟨k, x.permissions, x.shared⟩
      some (.ok u, g, { s.setSlot page u with usage := s.usage.recordMajorPageFault.increaseRss })

/-- `make_mut` on a resident page, with its entry removed first.
memory.rs:160-165 -/
def writable (A : Allocator) (g : Kernel) (s : Space) (page : Nat) (u : UserPage) :
    Except Errno UserPage × Kernel × Space :=
  let s := { s with pagetables := tryUnmapUserPages s.pagetables page page }
  match u.page.makeMut A g.heap u.shared with
  | (.error e, h) => (.error e, { g with heap := h }, s)
  | (.ok k, h) =>
    let u := { u with page := k }
    (.ok u, { g with heap := h }, s.setSlot page u)

/-- Install the entry of a resident page.
memory.rs:167-177 -/
def install (g : Kernel) (s : Space) (page : Nat) (u : UserPage) (required : RequiredFlags)
    (tables : Bool) : Except PageFaultError Unit × Kernel × Space :=
  if ¬ u.entry.contains required then (.error (.missingPermissions .fault), g, s)
  else
    match setPage s.pagetables page u.entry tables with
    | .error e => (.error (.other e), g, s)
    | .ok pt => (.ok (), g, { s with pagetables := pt })

/-- What `map_page` does once it has the page of the slot.
memory.rs:150-178 -/
def mapUserPage (A : Allocator) (g : Kernel) (s : Space) (page : Nat) (u : UserPage) (required : RequiredFlags)
    (tables : Bool) : Option (Except PageFaultError Unit × Kernel × Space) :=
  if ¬ (u.perms.read || u.perms.write) then some (.error (.missingPermissions .fault), g, s)
  else if required.writable && u.perms.write then
    match writable A g s page u with
    | (.error e, g, s) => some (.error (.other e), g, s)
    | (.ok u, g, s) => some (install g s page u required tables)
  else some (install g s page u required tables)

/-- memory.rs:134-178 -/
def mapPage (A : Allocator) (g : Kernel) (s : Space) (page : Nat) (required : RequiredFlags)
    (tables : Bool) : Option (Except PageFaultError Unit × Kernel × Space) :=
  let s := { s with usage := s.usage.recordMinorPageFault }
  match resolve s.state.mappings page with
  | none => some (.error (.unmapped .fault), g, s)
  | some x =>
    match populate A g s page x with
    | none => none
    | some (.error e, g, s) => some (.error (.other e), g, s)
    | some (.ok u, g, s) => mapUserPage A g s page u required tables

end Mushroom.L2
