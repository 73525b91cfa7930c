import Mushroom.Core.OrdMap
import Mushroom.L2Memory.Addr

/-!
# Mappings of an address space

`VirtualMemoryState` of `kernel/user/process/memory.rs`: a `BTreeMap` from the
first page of each mapping to the `Mapping`, and the end of the brk area. A
mapping holds one slot per page, filled with a `UserPage` by the first fault on
it; `SplitVec` is the list of the slots it owns.

The functions also return the pages whose destructor runs (`gone`): these decide
about frames and reference counts.
-/
namespace Mushroom.L2

/-- memory.rs:837-844 -/
structure MemoryPermissions where
  (execute write read : Bool)
  deriving DecidableEq

/-- A pointer to a frame, and the cell with the reference count, if it has one.
kernel/memory/page/kernel.rs:28-31 -/
structure KernelPage where
  content : Nat
  referenceCount : Option Nat
  deriving DecidableEq

/-- kernel/memory/page/user.rs:12-16 -/
structure UserPage where
  page : KernelPage
  perms : MemoryPermissions
  shared : Bool
  deriving DecidableEq

/-- user.rs:52-54 -/
def UserPage.setPerms (u : UserPage) (p : MemoryPermissions) : UserPage := { u with perms := p }

/-- The implementations of the `Backing` trait: `ZeroBacking`, `FileBacking`
(the file, `zero_offset`, `shared` and `zero_pad`) and `TrampolineCode`.
memory.rs:403-413,454-493,546-557 -/
inductive Backing where
  | zero
  | file (file zeroOffset : Nat) (shared zeroPad : Bool)
  | trampoline
  deriving DecidableEq

/-- memory.rs:930-936 -/
structure Mapping where
  backing : Backing
  pageOffset : Nat
  permissions : MemoryPermissions
  shared : Bool
  pages : List (Option UserPage)
  deriving DecidableEq

abbrev Mappings := List (Nat × Mapping)

namespace Mapping

def len (m : Mapping) : Nat := m.pages.length

def resident (m : Mapping) : List UserPage := m.pages.filterMap id

/-- `none`: the assertion `self.len >= at` of `SplitVec::split_off` fails.
memory.rs:966-976,1074-1084 -/
def splitOff (m : Mapping) (offset : Nat) : Option (Mapping × Mapping) :=
  if offset ≤ m.len then
    some ({ m with pages := m.pages.take offset },
      { m with pageOffset := m.pageOffset + offset, pages := m.pages.drop offset })
  else none

/-- memory.rs:994-999 -/
def setPerms (m : Mapping) (p : MemoryPermissions) : Mapping :=
  { m with permissions := p, pages := m.pages.map (Option.map (·.setPerms p)) }

/-- `discard_page` for every offset in `start..end`.
memory.rs:716-718,1001-1011 -/
def discard (m : Mapping) (start stop : Nat) : Mapping × List UserPage :=
  ({ m with pages := m.pages.mapIdx fun i p => if start ≤ i ∧ i < stop then none else p },
    ((m.pages.drop start).take (stop - start)).filterMap id)

end Mapping

/-! ## `unmap` -/

/-- What `unmap` leaves in the map, and the mappings it removed. -/
abbrev Unmapped := Option (Mappings × List Mapping)

/-- `page + u64::from_usize(mapping.pages.len() - 1)`. -/
def lastPage (page : Nat) (m : Mapping) : Option Nat :=
  if m.len = 0 then none else pageAdd page (m.len - 1)

/-- One pass over an entry at or behind `start_page`; `next` is the rest of the loop.
memory.rs:663-688 -/
def unmapVisit (stop : Nat) (before : Mappings) (gone : List Mapping) (page : Nat) (m : Mapping)
    (rest : Mappings) (next : Mappings → List Mapping → Unmapped) : Unmapped :=
  match lastPage page m with
  | none => none
  | some mappingEnd =>
    if stop < page then some (before.reverse ++ (page, m) :: rest, gone)
    else if mappingEnd ≤ stop then next before (gone ++ [m])
    else
      match m.splitOff (stop - page + 1), pageAdd stop 1 with
      | some (m₁, m₂), some k =>
        -- `remove_prev`, then `insert_before(end_page + 1, ..).unwrap()`
        if OrdMap.insertable k before rest then
          some (((k, m₂) :: before).reverse ++ rest, gone ++ [m₁])
        else none
      | _, _ => none

/-- The loop over the entries in front of the cursor, with those behind it in `before`. An entry that begins
below `start_page` is split there; `insert_after` makes the new part the next one.
memory.rs:648-689 -/
def unmapLoop (start stop : Nat) : Mappings → Mappings → List Mapping → Unmapped
  | [], before, gone => some (before.reverse, gone)
  | (page, m) :: rest, before, gone =>
    if page < start then
      match lastPage page m with
      | none => none
      | some mappingEnd =>
        if mappingEnd < start then some (before.reverse ++ (page, m) :: rest, gone)
        else
          match m.splitOff (start - page) with
          | none => none
          | some (m₁, m₂) =>
            if OrdMap.insertable start ((page, m₁) :: before) rest then
              unmapVisit stop ((page, m₁) :: before) gone start m₂ rest
                fun b g => unmapLoop start stop rest b g
            else none
    else unmapVisit stop before gone page m rest fun b g => unmapLoop start stop rest b g

/-- `unmap` on the page range `start..=stop`.
memory.rs:643-689 -/
def unmapPages (L : Mappings) (start stop : Nat) : Unmapped :=
  let c := OrdMap.seekLE L start
  unmapLoop start stop c.2 c.1 []

/-! ## `mprotect` -/

/-- `page + u64::from_usize(mapping.pages.len()) - 1`. -/
def lastPageExcl (page : Nat) (m : Mapping) : Option Nat := (pageAdd page m.len).bind fun p => pageSub p 1

/-- `none` is a panic, an error leaves the map as it is at that point. -/
abbrev Changed := Option (Except Errno Unit × Mappings)

/-- memory.rs:605-622 -/
def mprotectVisit (stop : Nat) (perms : MemoryPermissions) (before : Mappings) (page : Nat)
    (m : Mapping) (rest : Mappings) (next : Mappings → Changed) : Changed :=
  match lastPageExcl page m with
  | none => none
  | some mappingEnd =>
    if stop < page then some (.ok (), before.reverse ++ (page, m) :: rest)
    else if mappingEnd ≤ stop then next ((page, m.setPerms perms) :: before)
    else
      match m.splitOff (stop - page + 1), pageAdd stop 1 with
      | some (m₁, m₂), some k =>
        if OrdMap.insertable k ((page, m₁.setPerms perms) :: before) rest then
          some (.ok (), ((k, m₂) :: (page, m₁.setPerms perms) :: before).reverse ++ rest)
        else none
      | _, _ => none

/-- memory.rs:592-623 -/
def mprotectLoop (start stop : Nat) (perms : MemoryPermissions) : Mappings → Mappings → Changed
  | [], before => some (.ok (), before.reverse)
  | (page, m) :: rest, before =>
    if page < start then
      match lastPageExcl page m with
      | none => none
      | some mappingEnd =>
        if mappingEnd < start then some (.error .fault, before.reverse ++ (page, m) :: rest)
        else
          match m.splitOff (start - page) with
          | none => none
          | some (m₁, m₂) =>
            if OrdMap.insertable start ((page, m₁) :: before) rest then
              mprotectVisit stop perms ((page, m₁) :: before) start m₂ rest
                fun b => mprotectLoop start stop perms rest b
            else none
    else mprotectVisit stop perms before page m rest fun b => mprotectLoop start stop perms rest b

/-- memory.rs:587-623 -/
def mprotectPages (L : Mappings) (start stop : Nat) (perms : MemoryPermissions) : Changed :=
  let c := OrdMap.seekLE L start
  mprotectLoop start stop perms c.2 c.1

/-! ## `discard_pages` -/

/-- `start` is `start_page`, `dropped` the pages dropped so far.
memory.rs:707-721 -/
def discardLoop (stop : Nat) :
    Mappings → Mappings → Nat → List UserPage → Option (Except Errno Unit × Mappings × List UserPage)
  | [], before, start, dropped => some (if start = stop then .ok () else .error .noMem, before.reverse, dropped)
  | (page, m) :: rest, before, start, dropped =>
    if start = stop then some (.ok (), before.reverse ++ (page, m) :: rest, dropped)
    else if ¬ page ≤ start then some (.error .noMem, before.reverse ++ (page, m) :: rest, dropped)
    else if ¬ start - page ≤ m.len then
      some (.error .noMem, before.reverse ++ (page, m) :: rest, dropped)
    else
      let endOffset := min (stop - page) m.len
      let d := m.discard (start - page) endOffset
      match pageAdd page endOffset with
      | none => none
      | some start' => discardLoop stop rest ((page, d.1) :: before) start' (dropped ++ d.2)

/-- memory.rs:701-723 -/
def discardPages (L : Mappings) (start stop : Nat) : Option (Except Errno Unit × Mappings × List UserPage) :=
  let c := OrdMap.seekLE L start
  discardLoop stop c.2 c.1 start []

end Mushroom.L2
