import Mushroom.L2Memory.WorldOk

/-!
# Resident pages and page faults, counted

`MemoryUsage` of `kernel/user/process/usage.rs` counts the resident pages of an
address space (`rss`), the most there have been (`maxrss`) and the page faults.
The counters are changed by a fault that fills a slot, `record_unmapping` and
`discard_page`.

`UsageStep` is what a step does to the resident pages and to the counters at
once; `usage_counts` says that in every state reached the counters are exact.

Physical addresses have at most 52 bits: `Fits` leaves out states with more
resident slots than that, and those after 2 ^ 64 faults of one address space,
where its fault counters wrap around.
-/
namespace Mushroom.L2
open List OrdMap World

/-! ## What is reported -/

/-- kernel/user/process/syscall/args.rs:878-881 -/
structure Timespec where
  (tvSec tvNsec : Nat)
  deriving DecidableEq

/-- kernel/time.rs:173-178 -/
def Timespec.fromNs (ns : Nat) : Option Timespec :=
  if ns / 1000000000 < 2 ^ 32 then some ⟨ns / 1000000000, ns % 1000000000⟩ else none

/-- args.rs:939-942 -/
structure Timeval where
  (tvSec tvUsec : Nat)
  deriving DecidableEq

/-- args.rs:968-975 -/
def Timeval.ofTimespec (value : Timespec) : Timeval := ⟨value.tvSec, value.tvNsec / 1000⟩

/-- usage.rs:49-58 -/
structure ThreadUsage where
  (lastStart totalNs userNs voluntaryContextSwitches : Nat)
  deriving DecidableEq

/-- The fields `collect` sets; the others stay 0.
args.rs:1440-1473 -/
structure Rusage where
  (utime stime : Timeval)
  (maxrss minflt majflt nvcsw : Nat)
  deriving DecidableEq

/-- The time a thread has run, at the time `now`.
usage.rs:83-91 -/
def ThreadUsage.sysTime (thread : ThreadUsage) (now : Nat) : Option Nat :=
  if thread.lastStart = 0 then
    if thread.userNs ≤ thread.totalNs then some (thread.totalNs - thread.userNs) else none
  else
    if thread.lastStart ≤ now ∧ thread.totalNs + (now - thread.lastStart) < 2 ^ 64 ∧
        thread.userNs ≤ thread.totalNs + (now - thread.lastStart) then
      some (thread.totalNs + (now - thread.lastStart) - thread.userNs)
    else none

/-- `minflt.load() - majflt`. -/
def MemoryUsage.minorFaults (memory : MemoryUsage) : Option Nat :=
  if memory.majflt ≤ memory.minflt then some (memory.minflt - memory.majflt) else none

/-- `none`: an overflow, or a time with more seconds than 32 bits hold.
usage.rs:82-107 -/
def collect (now : Nat) (memory : MemoryUsage) (thread : ThreadUsage) : Option Rusage :=
  (thread.sysTime now).bind fun sysTime =>
  (Timespec.fromNs thread.userNs).bind fun utime =>
  (Timespec.fromNs sysTime).bind fun stime =>
  if memory.maxrss * 0x1000 < 2 ^ 64 then
    memory.minorFaults.map fun minflt =>
      ⟨.ofTimespec utime, .ofTimespec stime, memory.maxrss * 0x1000, minflt, memory.majflt,
        thread.voluntaryContextSwitches⟩
  else none

/-! ## What a step does to the counters -/

def Space.residentPages (s : Space) : Nat := (resident s.state.mappings).length

/-- A step of an address space with `faults` page faults, as far as its counters and the number of its resident
pages go. -/
inductive UsageStep (faults : Nat) (s s' : Space) : Prop where
  | same (count : faults = 0) (slots : s'.residentPages = s.residentPages) (usage : s'.usage = s.usage)
  | minor (count : faults = 1) (slots : s'.residentPages = s.residentPages)
      (usage : s'.usage = s.usage.recordMinorPageFault)
  | filled (count : faults = 1) (slots : s'.residentPages = s.residentPages + 1)
      (usage : s'.usage = s.usage.recordMinorPageFault.recordMajorPageFault.increaseRss)
  | released (n : Nat) (count : faults = 0) (slots : s'.residentPages + n = s.residentPages)
      (usage : s'.usage = s.usage.decreaseRss n)

/-! ### Faults -/

section

variable {A : Allocator} {g g' : Kernel} {s s' : Space} {page : Nat} {x : Slot} {u : UserPage} {tables : Bool}
  {required : RequiredFlags}

lemma residentPages_setSlot (hs : Sorted s.state.mappings) (hx : resolve s.state.mappings page = some x)
    (u : UserPage) : (s.setSlot page u).residentPages + x.page.toList.length = s.residentPages + 1 := by
  obtain ⟨R, h1, h2⟩ := setSlot_resident hs hx u
  have h1 := h1.length_eq
  have h2 := h2.length_eq
  simp only [Space.residentPages, Space.setSlot, length_append, length_cons] at h1 h2 ⊢
  omega

variable {r : Except Errno UserPage}

section

variable (hs : Sorted s.state.mappings) (hx : resolve s.state.mappings page = some x)
include hs hx

lemma populate_usage (h : populate A g s page x = some (r, g', s')) :
    (s' = s ∧ ∀ u, r = .ok u → x.page = some u) ∨ (s'.residentPages = s.residentPages + 1 ∧
        s'.usage = s.usage.recordMajorPageFault.increaseRss ∧ Sorted s'.state.mappings ∧
        ∀ u, r = .ok u → ∃ x', resolve s'.state.mappings page = some x' ∧ x'.page = some u) := by
  unfold populate at h
  split at h
  · rename_i u hu
    cases h
    exact .inl ⟨rfl, fun v hv => by cases hv; exact hu⟩
  rename_i hnone
  split at h
  · cases h
  · cases h
    exact .inl ⟨rfl, nofun⟩
  rename_i k g1 hk
  cases h
  refine .inr ⟨?_, rfl, sorted_of_shape (setSlot_shape hs hx _) hs, fun v hv => ?_⟩
  · have := residentPages_setSlot hs hx ⟨k, x.permissions, x.shared⟩
    rwa [hnone] at this
  · cases hv
    exact ⟨_, resolve_setSlot_self hs hx _, rfl⟩

lemma writable_usage (hu : x.page = some u) (h : writable A g s page u = (r, g', s')) :
    s'.residentPages = s.residentPages ∧ s'.usage = s.usage := by
  unfold writable at h
  split at h
  · cases h
    exact ⟨rfl, rfl⟩
  rename_i k h1 hk
  cases h
  refine ⟨?_, rfl⟩
  have := residentPages_setSlot hs hx { u with page := k }
  rw [hu] at this
  simp only [Option.toList_some, length_singleton] at this
  exact Nat.succ.inj this

end

variable {r : Except PageFaultError Unit}

lemma install_usage (h : install g s page u required tables = (r, g', s')) :
    s'.residentPages = s.residentPages ∧ s'.usage = s.usage := by
  unfold install at h
  split at h
  · cases h
    exact ⟨rfl, rfl⟩
  · split at h <;> cases h <;> exact ⟨rfl, rfl⟩

/-- With the page of a slot `map_page` counts nothing more. -/
lemma mapUserPage_usage (hs : Sorted s.state.mappings) (hx : resolve s.state.mappings page = some x)
    (hu : x.page = some u)
    (h : mapUserPage A g s page u required tables = some (r, g', s')) :
    s'.residentPages = s.residentPages ∧ s'.usage = s.usage := by
  unfold mapUserPage at h
  split at h
  · cases h
    exact ⟨rfl, rfl⟩
  split at h
  · split at h
    · rename_i e g1 s1 hw
      cases h
      exact writable_usage hs hx hu hw
    rename_i v g1 s1 hw
    obtain ⟨h1, h2⟩ := writable_usage hs hx hu hw
    obtain ⟨h3, h4⟩ := install_usage (Option.some.inj h)
    exact ⟨h3.trans h1, h4.trans h2⟩
  · exact install_usage (Option.some.inj h)

/-- **A page fault** is a minor one, or fills a slot. -/
lemma mapPage_usage (hs : Sorted s.state.mappings) (h : mapPage A g s page required tables = some (r, g', s')) :
    UsageStep 1 s s' := by
  unfold mapPage at h
  simp only at h
  split at h
  · cases h
    exact .minor rfl rfl rfl
  rename_i x hx
  split at h
  · cases h
  · rename_i e g1 s1 hpop
    cases h
    rcases populate_usage (s := { s with usage := s.usage.recordMinorPageFault }) hs hx hpop with
      ⟨rfl, -⟩ | ⟨h1, h2, -, -⟩
    · exact .minor rfl rfl rfl
    · exact .filled rfl h1 h2
  rename_i u g1 s1 hpop
  rcases populate_usage (s := { s with usage := s.usage.recordMinorPageFault }) hs hx hpop with
    ⟨rfl, hpage⟩ | ⟨h1, h2, hs1, hpage⟩
  · obtain ⟨h3, h4⟩ := mapUserPage_usage (s := { s with usage := s.usage.recordMinorPageFault }) hs hx
      (hpage u rfl) h
    exact .minor rfl h3 h4
  · obtain ⟨x', hx', hu'⟩ := hpage u rfl
    obtain ⟨h3, h4⟩ := mapUserPage_usage hs1 hx' hu' h
    exact .filled rfl (h3.trans h1) (h4.trans h2)

end

/-! ### Calls and clones -/

variable {op : VmOp} {r : VmRes} {st st' : VirtualMemoryState} {eff : Effect} {s s' : Space} {g g' : Kernel}
  {L L' : Mappings} {A : Allocator}

/-- Every page a call drops is taken off `rss`. -/
lemma vmCall_released (hs : Sorted st.mappings)
    (hn : Nonempty st.mappings) (h : vmCall st op = some (r, st', eff)) : eff.released = eff.dropped.length := by
  have hunmap : ∀ {L L' : Mappings} {addr : VirtAddr} {len : Nat} {eff : Effect},
      unmap L addr len = some (L', eff) → eff.released = eff.dropped.length := by
    intro L L' addr len eff h
    rcases unmap_eq_some h with ⟨-, -, rfl⟩ | ⟨-, gone, -, rfl⟩
    · rfl
    · rfl
  have hmmap : ∀ {L L' : Mappings} {bias : Bias} {len : Nat} {permissions : MemoryPermissions}
      {backing : Backing} {pageOffset : Nat} {shared : Bool} {addr : VirtAddr} {eff : Effect},
      Sorted L → Nonempty L → mmap L bias len permissions backing pageOffset shared = some (addr, L', eff) →
      eff.released = eff.dropped.length := by
    intro L L' bias len permissions backing pageOffset shared addr eff hs hn h
    obtain ⟨hlen, -, -, L1, eff1, hun, rfl, rfl⟩ := mmap_eq_some h
    have hle := addr.page_le_last len
    -- nothing is left where the new mapping goes
    have hfresh : (L1.filter fun x => x.1 = addr.page) = [] := by
      rcases unmap_eq_some hun with ⟨rfl, -, -⟩ | ⟨-, gone, hpages, -⟩
      · cases hlen
      rw [filter_eq_nil_iff]
      intro y hy
      simpa using (unmapPages_spec hle hs hn hpages).fresh y hy
    simp [hfresh, residents, hunmap hun]
  cases op with
  | mmap bias len permissions backing pageOffset shared =>
    obtain ⟨⟨addr, L, e⟩, hm, heq⟩ := Option.map_eq_some_iff.1 h
    cases heq
    exact hmmap hs hn hm
  | unmap addr len =>
    obtain ⟨⟨L, e⟩, hm, heq⟩ := Option.map_eq_some_iff.1 h
    cases heq
    exact hunmap hm
  | mprotect addr len permissions =>
    obtain ⟨⟨r1, L, e⟩, hm, heq⟩ := Option.map_eq_some_iff.1 h
    cases heq
    rcases mprotect_eq_some hm with ⟨-, -, -, rfl⟩ | ⟨-, -, rfl⟩ | ⟨-, -, rfl, -⟩ <;> rfl
  | setBrkEnd brkEnd =>
    obtain ⟨⟨r1, s1, e⟩, hm, heq⟩ := Option.map_eq_some_iff.1 h
    cases heq
    rcases setBrkEnd_eq_some hm with ⟨-, -, rfl⟩ | ⟨-, -, -, L, hmm, -⟩ | ⟨-, -, L, hun, -⟩
    · rfl
    · exact hmmap hs hn hmm
    · exact hunmap hun
  | discardPages address len =>
    obtain ⟨⟨r1, L, e⟩, hm, heq⟩ := Option.map_eq_some_iff.1 h
    cases heq
    rcases discard_eq_some hm with ⟨-, -, rfl⟩ | ⟨-, -, dropped, -, rfl⟩ <;> rfl

/-- **A call** takes the pages it drops off `rss`, also when it fails. -/
lemma vm_usage (hs : Sorted s.state.mappings)
    (hn : Nonempty s.state.mappings) (h : s.vm g op = some (r, g', s')) : UsageStep 0 s s' := by
  unfold Space.vm at h
  split at h
  · cases h
  rename_i r1 st eff hcall
  cases h
  have hlen := (vmCall_spec hs hn hcall).handles.length_eq
  simp only [length_append, length_map] at hlen
  refine .released eff.released rfl ?_ rfl
  rw [vmCall_released hs hn hcall]
  show (resident st.mappings).length + _ = (resident s.state.mappings).length
  omega

lemma residentPages_of_blur (h : blur L' = blur L) : (resident L').length = (resident L).length := by
  have hmap : (resident L').map UserPage.blur = (resident L).map UserPage.blur := by
    rw [← resident_blur, h, resident_blur]
  have := congrArg List.length hmap
  rwa [length_map, length_map] at this

/-- A resident page of the original is resident in the copy, which starts with the counters of `fork`. -/
lemma clone_usage {r : Except Errno Space}
    (h : s.clone A g = some (r, g', s')) : UsageStep 0 s s' ∧ ∀ this, r = .ok this →
      this.residentPages = s.residentPages ∧ this.usage = s.usage.fork := by
  unfold Space.clone at h
  simp only at h
  have hspec := cloneMappings_spec A s.state.mappings g.heap
  split at h
  · rename_i hok
    cases h
    refine ⟨.same rfl (residentPages_of_blur hspec.self) rfl, fun this hthis => ?_⟩
    cases hthis
    refine ⟨?_, rfl⟩
    rw [(hspec.ok hok).1]
    exact residentPages_of_blur hspec.self
  · split at h
    · cases h
    cases h
    exact ⟨.same rfl (residentPages_of_blur hspec.self) rfl, by simp⟩

/-! ## All address spaces together -/

/-- The page faults of the address space `j` in a step. -/
def World.Act.faults : World.Act → Nat → Nat
  | .fault i _ _ _, j => if j = i then 1 else 0
  | _, _ => 0

/-- An address space after the step `a` took it, is new, or is the copy of another. -/
inductive Origin (w : World) (a : World.Act) (j : Nat) (t' : Space) : Prop where
  | stepped (t : Space) (was : w.space j = some t) (step : UsageStep (a.faults j) t t')
  | new (none : w.space j = none) (slots : t'.residentPages = 0) (usage : t'.usage = .default)
  | copy (none : w.space j = none) (i : Nat) (t : Space) (was : w.space i = some t)
      (slots : t'.residentPages = t.residentPages) (usage : t'.usage = t.usage.fork)

variable {w w' : World} {j : Nat} {t' : Space} {a : World.Act}

lemma Origin.unchanged {t : Space} (h : w.space j = some t) (ha : a.faults j = 0) : Origin w a j t :=
  .stepped t h (.same ha rfl rfl)

lemma Origin.set {i : Nat} (hi : w.space i = some s) (hst : UsageStep (a.faults i) s s')
    (ha : ∀ j ≠ i, a.faults j = 0) (h : (w.setSpace g' i (some s')).space j = some t') : Origin w a j t' := by
  by_cases hj : j = i
  · subst hj
    rw [space_setSpace hi] at h
    cases h
    exact .stepped s hi hst
  · rw [space_setSpace_ne _ _ hj] at h
    exact .unchanged h (ha j hj)

lemma space_append {spaces : List (Option Space)} {this t : Space}
    (h : (⟨g, spaces ++ [some this]⟩ : World).space j = some t) :
    (⟨g, spaces⟩ : World).space j = some t ∨ ((⟨g, spaces⟩ : World).space j = none ∧ t = this) := by
  rw [space_eq_some, List.getElem?_append] at h
  split at h
  · exact .inl (space_eq_some.2 h)
  rename_i hlt
  have hmem := mem_of_getElem? h
  simp only [mem_singleton, Option.some.injEq] at hmem
  refine .inr ⟨?_, hmem⟩
  simp [space, List.getElem?_eq_none (Nat.not_lt.1 hlt)]

/-- **Every step**, as far as the counters go. -/
lemma step_origin (hw : WorldOk w) (h : step A w a = some w') (ht : w'.space j = some t') : Origin w a j t' := by
  cases a with
  | fault i page required tables =>
    obtain ⟨s, hi, h⟩ := Option.bind_eq_some_iff.1 h
    obtain ⟨⟨r, g', s'⟩, hmap, rfl⟩ := Option.map_eq_some_iff.1 h
    have hone : UsageStep ((World.Act.fault i page required tables).faults i) s s' := by
      rw [World.Act.faults, if_pos rfl]
      exact mapPage_usage (hw.ok i s hi).sorted hmap
    exact .set hi hone (fun j hj => if_neg hj) ht
  | store i page offset val =>
    obtain ⟨s, hi, h⟩ := Option.bind_eq_some_iff.1 h
    obtain ⟨g', -, rfl⟩ := Option.map_eq_some_iff.1 h
    exact .unchanged ht rfl
  | clone i =>
    obtain ⟨s, hi, h⟩ := Option.bind_eq_some_iff.1 h
    obtain ⟨⟨r, g', s'⟩, hc, rfl⟩ := Option.map_eq_some_iff.1 h
    obtain ⟨hself, hthis⟩ := clone_usage hc
    cases r with
    | error e => exact .set hi hself (fun _ _ => rfl) ht
    | ok this =>
      obtain ⟨hslots, husage⟩ := hthis this rfl
      rcases space_append ht with ht | ⟨hnone, rfl⟩
      · exact .set hi hself (fun _ _ => rfl) ht
      have hnone : (w.setSpace g' i (some s')).space j = none := hnone
      have hne : j ≠ i := by
        rintro rfl
        rw [space_setSpace hi] at hnone
        cases hnone
      rw [space_setSpace_ne _ _ hne] at hnone
      exact .copy hnone i s hi hslots husage
  | drop i =>
    obtain ⟨s, hi, h⟩ := Option.bind_eq_some_iff.1 h
    obtain ⟨g', -, rfl⟩ := Option.map_eq_some_iff.1 h
    by_cases hj : j = i
    · subst hj
      rw [space_setSpace hi] at ht
      cases ht
    · rw [space_setSpace_ne _ _ hj] at ht
      exact .unchanged ht rfl
  | vm i op =>
    obtain ⟨s, hi, h⟩ := Option.bind_eq_some_iff.1 h
    obtain ⟨⟨r, g', s'⟩, hvm, rfl⟩ := Option.map_eq_some_iff.1 h
    exact .set hi (vm_usage (hw.ok i s hi).sorted (hw.ok i s hi).nonempty hvm) (fun _ _ => rfl) ht
  | new =>
    cases h
    rcases space_append ht with ht | ⟨hnone, rfl⟩
    · exact .unchanged ht rfl
    · exact .new hnone rfl rfl
  | create =>
    cases h
    exact .unchanged ht rfl
  | write f offset buf | truncate f len =>
    obtain ⟨b, -, rfl⟩ := Option.map_eq_some_iff.1 h
    exact .unchanged ht rfl

def World.Fits (w : World) : Prop := ∀ i s, w.space i = some s → s.residentPages < 2 ^ 52

/-- Of each address space since it was created: the greatest `rss`, and how many page faults it had. -/
structure History where
  (peak faults : Nat → Nat)

def World.history (w : World) (a : World.Act) (w' : World) (x : History) : History where
  peak i := match w.space i, w'.space i with
    | some _, some s' => max (x.peak i) s'.usage.rss
    | none, some s' => s'.usage.rss
    | _, none => x.peak i
  faults i := if (w.space i).isSome then x.faults i + a.faults i else 0

/-- The runs of all address spaces, with their history. -/
def usageSystem (A : Allocator) : LTS (World × History) World.Act where
  init x := (system A).init x.1
  step x a x' := (system A).step x.1 a x'.1 ∧ x'.1.Fits ∧ (∀ i, x'.2.faults i < 2 ^ 64) ∧
    x'.2 = x.1.history a x'.1 x.2

structure Balanced (s : Space) (peak faults : Nat) : Prop where
  rss : s.usage.rss = s.residentPages
  maxrss : s.usage.maxrss = peak
  le : s.usage.rss ≤ peak
  bound : peak < 2 ^ 52
  minflt : s.usage.minflt = faults
  majflt : s.usage.majflt ≤ faults

lemma decreaseRss_rss {u : MemoryUsage} {n : Nat} (hn : n ≤ u.rss) (hlt : u.rss < 2 ^ 64) :
    (u.decreaseRss n).rss = u.rss - n := by
  have hsum : u.rss + (2 ^ 64 - n) = u.rss - n + 2 ^ 64 := by omega
  show (u.rss + (2 ^ 64 - n)) % 2 ^ 64 = u.rss - n
  rw [hsum, Nat.add_mod_right, Nat.mod_eq_of_lt (by omega)]

lemma Balanced.step {s s' : Space} {peak faults n : Nat} (h : Balanced s peak faults)
    (hfits : s'.residentPages < 2 ^ 52) (hfaults : faults + n < 2 ^ 64) (hst : UsageStep n s s') :
    Balanced s' (max peak s'.usage.rss) (faults + n) := by
  obtain ⟨hrss, hmax, hle, hbound, hmin, hmaj⟩ := h
  cases hst with
  | same count slots usage =>
    rw [max_eq_left (by rw [usage]; exact hle), count]
    exact ⟨by rw [usage, slots]; exact hrss, by rw [usage]; exact hmax, by rw [usage]; exact hle, hbound,
      by rw [usage]; exact hmin, by rw [usage]; exact hmaj⟩
  | minor count slots usage =>
    rw [max_eq_left (by rw [usage]; exact hle)]
    have hmin' : s'.usage.minflt = s.usage.minflt + 1 := by
      rw [usage]
      exact Nat.mod_eq_of_lt (by omega)
    have hmaj' : s'.usage.majflt = s.usage.majflt := by rw [usage]; rfl
    exact ⟨by rw [usage, slots]; exact hrss, by rw [usage]; exact hmax, by rw [usage]; exact hle, hbound, by omega,
      by omega⟩
  | filled count slots usage =>
    have hrss' : s'.usage.rss = s.usage.rss + 1 := by rw [usage]; rfl
    have hmax' : s'.usage.maxrss = max s.usage.maxrss (s.usage.rss + 1) := by rw [usage]; rfl
    have hmin' : s'.usage.minflt = s.usage.minflt + 1 := by
      rw [usage]
      exact Nat.mod_eq_of_lt (by omega)
    have hmaj' : s'.usage.majflt = s.usage.majflt + 1 := by
      rw [usage]
      exact Nat.mod_eq_of_lt (show s.usage.majflt + 1 < 2 ^ 64 by omega)
    exact ⟨by omega, by rw [hmax', hrss', hmax], le_max_right _ _, max_lt hbound (by omega), by omega, by omega⟩
  | released m count slots usage =>
    have hrss' : s'.usage.rss = s.usage.rss - m := by
      rw [usage]
      exact decreaseRss_rss (by omega) (by omega)
    rw [max_eq_left (by omega), count]
    exact ⟨by omega, by rw [usage]; exact hmax, by omega, hbound, by rw [usage]; exact hmin, by rw [usage]; exact hmaj⟩

/-- The counters of an address space that was created with `n` resident pages. -/
lemma balanced_created {s : Space} {n : Nat} (hn : n < 2 ^ 52) (hslots : s.residentPages = n)
    (husage : s.usage = ⟨n, 0, 0, n⟩) : Balanced s s.usage.rss 0 := by
  rw [husage]
  exact ⟨by rw [husage, hslots], by rw [husage], by rw [husage], hn, by rw [husage], by rw [husage]⟩

structure UsageOk (x : World × History) : Prop where
  world : WorldOk x.1
  fits : x.1.Fits
  balanced : ∀ i s, x.1.space i = some s → Balanced s (x.2.peak i) (x.2.faults i)

lemma UsageOk.step {A : Allocator} {x x' : World × History} {a : World.Act} (h : UsageOk x)
    (hst : (usageSystem A).step x a x') : UsageOk x' := by
  obtain ⟨hstep, hfits, hfaults, hhist⟩ := hst
  refine ⟨(step_ok h.world hstep).1, hfits, fun i s' hs' => ?_⟩
  have hlt := hfaults i
  rw [hhist] at hlt ⊢
  unfold history at hlt ⊢
  cases step_origin h.world hstep hs' with
  | stepped t was step =>
    simp only [was, hs', Option.isSome_some, if_true] at hlt ⊢
    exact (h.balanced i t was).step (hfits i s' hs') hlt step
  | new none slots usage =>
    simp only [none, hs', Option.isSome_none]
    exact balanced_created (Nat.two_pow_pos 52) slots usage
  | copy none k t was slots usage =>
    simp only [none, hs', Option.isSome_none]
    have hrss := (h.balanced k t was).rss
    refine balanced_created (h.fits k t was) slots ?_
    rw [usage, ← hrss]
    rfl

lemma usage_ok {x : World × History} (hx : (usageSystem A).Reachable x) : UsageOk x := by
  have hind : (usageSystem A).Inductive UsageOk := by
    refine ⟨?_, fun x a x' hx h => hx.step h⟩
    rintro ⟨w, history⟩ ⟨code, rfl⟩
    have hspace : ∀ i s, (start code).space i ≠ some s := by
      intro i s h
      rw [space_eq_some] at h
      cases h
    exact ⟨worldOk_start code, fun i s h => absurd h (hspace i s), fun i s h => absurd h (hspace i s)⟩
  exact hind.reachable x hx

/-- A call never takes more off `rss` than the pages that are resident. -/
lemma vmCall_released_le (hs : Sorted st.mappings) (hn : Nonempty st.mappings) (h : vmCall st op = some (r, st', eff)) :
    eff.released ≤ (resident st.mappings).length := by
  have hlen := (vmCall_spec hs hn h).handles.length_eq
  simp only [length_append, length_map] at hlen
  rw [vmCall_released hs hn h]
  omega

/-- As far as it got, a clone is well-formed and holds no more pages than the
original. -/
lemma cloneMappings_copy {h : Heap} (hs : Sorted L) (hn : Nonempty L) :
    Sorted (cloneMappings A L h).copy ∧ Nonempty (cloneMappings A L h).copy ∧
      (resident (cloneMappings A L h).copy).length ≤ (resident L).length := by
  have hspec := cloneMappings_spec A L h
  have hshape := shape_of_blur hspec.self
  obtain ⟨B, hB⟩ := hspec.copy
  have hs' := sorted_of_shape hshape hs
  have hn' := nonempty_of_shape hshape hn
  rw [← hB] at hs' hn'
  refine ⟨(sorted_append.1 hs').1, fun y hy => hn' y (mem_append_left _ hy), ?_⟩
  rw [← residentPages_of_blur hspec.self, ← hB, resident_append, length_append]
  omega

lemma collect_of_balanced {peak faults now sysTime : Nat} {thread : ThreadUsage} (h : Balanced s peak faults)
    (hsys : thread.sysTime now = some sysTime) (hu : thread.userNs / 1000000000 < 2 ^ 32)
    (ht : sysTime / 1000000000 < 2 ^ 32) :
    ∃ usage, collect now s.usage thread = some usage ∧ usage.minflt + usage.majflt = s.usage.minflt := by
  have hmax : s.usage.maxrss * 0x1000 < 2 ^ 64 := by
    have := h.maxrss
    have := h.bound
    omega
  have hfaults : s.usage.majflt ≤ s.usage.minflt := h.majflt.trans h.minflt.ge
  have hcollect : collect now s.usage thread = some ⟨.ofTimespec ⟨thread.userNs / 1000000000,
      thread.userNs % 1000000000⟩, .ofTimespec ⟨sysTime / 1000000000, sysTime % 1000000000⟩,
      s.usage.maxrss * 0x1000, s.usage.minflt - s.usage.majflt, s.usage.majflt,
      thread.voluntaryContextSwitches⟩ := by
    simp only [collect, hsys, Option.bind_some, Timespec.fromNs, if_pos hu, if_pos ht, if_pos hmax,
      MemoryUsage.minorFaults, if_pos hfaults, Option.map_some]
  exact ⟨_, hcollect, Nat.sub_add_cancel hfaults⟩

/-- **Resident-set accounting**: in every state `rss` is the number of resident slots, `maxrss` the greatest `rss`
since the address space was created, and `minflt` the number of its faults, of which `majflt` is a part. No call,
and no drop of what a failed clone leaves, takes `rss` below 0, and `collect` reports the faults. -/
theorem usage_counts {A : Allocator} {x : World × History} (hx : (usageSystem A).Reachable x) {i : Nat}
    {s : Space} (hi : x.1.space i = some s) :
    s.usage.rss = (resident s.state.mappings).length ∧ s.usage.maxrss = x.2.peak i ∧
      s.usage.minflt = x.2.faults i ∧ s.usage.majflt ≤ s.usage.minflt ∧
      (∀ op r st eff, vmCall s.state op = some (r, st, eff) → eff.released ≤ s.usage.rss) ∧
      (∀ h op r st eff, vmCall ⟨(cloneMappings A s.state.mappings h).copy, s.state.brkEnd⟩ op =
        some (r, st, eff) → eff.released ≤ s.usage.fork.rss) ∧
      ∀ now thread sysTime, thread.sysTime now = some sysTime → thread.userNs / 1000000000 < 2 ^ 32 →
        sysTime / 1000000000 < 2 ^ 32 → ∃ usage, collect now s.usage thread = some usage ∧
          usage.minflt + usage.majflt = s.usage.minflt := by
  have hok := usage_ok hx
  have hb := hok.balanced i s hi
  have hspace := hok.world.ok i s hi
  refine ⟨hb.rss, hb.maxrss, hb.minflt, hb.majflt.trans hb.minflt.ge, fun op r st eff h => ?_,
    fun h0 op r st eff h => ?_,
    fun now thread sysTime => collect_of_balanced hb⟩
  · rw [hb.rss]
    exact vmCall_released_le hspace.sorted hspace.nonempty h
  obtain ⟨hs, hn, hle⟩ := cloneMappings_copy (A := A) (h := h0) hspace.sorted hspace.nonempty
  refine le_trans (vmCall_released_le hs hn h) ?_
  show _ ≤ s.usage.rss
  rw [hb.rss]
  exact hle

/-! ## Short runs fit -/

lemma UsageStep.residentPages_le {faults : Nat} (h : UsageStep faults s s') :
    s'.residentPages ≤ s.residentPages + 1 := by cases h <;> omega

lemma World.Act.faults_le (a : World.Act) (j : Nat) : a.faults j ≤ 1 := by
  unfold World.Act.faults
  split
  · split <;> omega
  · exact Nat.zero_le _

/-- A step fills at most one slot, so a run that fills all of memory is long. -/
lemma usage_run {acts : List World.Act} {n : Nat} (hw : WorldOk w)
    (hn : ∀ i s, w.space i = some s → s.residentPages ≤ n) {x : History} (hx : ∀ i, x.faults i ≤ n)
    (hlen : n + acts.length < 2 ^ 52) (hrun : (system A).Run w acts w') :
    ∃ x', (usageSystem A).Run (w, x) acts (w', x') := by
  induction hrun generalizing n x with
  | nil w => exact ⟨x, .nil _⟩
  | cons hst hrun ih =>
    rename_i w w1 w' a acts
    have hn1 : ∀ i s, w1.space i = some s → s.residentPages ≤ n + 1 := by
      intro i s hs
      cases step_origin hw hst hs with
      | stepped t was step => exact step.residentPages_le.trans (Nat.succ_le_succ (hn i t was))
      | new none slots usage => omega
      | copy none k t was slots usage =>
        have := hn k t was
        omega
    have hx1 : ∀ i, (w.history a w1 x).faults i ≤ n + 1 := by
      intro i
      unfold history
      simp only
      split
      · exact Nat.add_le_add (hx i) (a.faults_le i)
      · exact Nat.zero_le _
    rw [length_cons] at hlen
    obtain ⟨x', hrun'⟩ := ih (step_ok hw hst).1 hn1 hx1 (by omega)
    refine ⟨x', .via (w1, w.history a w1 x) ⟨hst, fun i s hs => ?_, fun i => ?_, rfl⟩ hrun'⟩
    · exact (hn1 i s hs).trans_lt (by omega)
    · exact (hx1 i).trans_lt (by omega)

/-- An anonymous page is touched and discarded again. -/
theorem usage_counts_touched_page :
    ∃ x s, (usageSystem fun n => some (n + 2)).Reachable x ∧ x.1.space 0 = some s ∧ s.usage.maxrss = 1 ∧
      s.usage.rss = (resident s.state.mappings).length ∧ s.usage.maxrss = x.2.peak 0 ∧
      s.usage.minflt = x.2.faults 0 := by
  let acts : List World.Act := [.new, .vm 0 (.mmap (.fixed ⟨0x1000, by decide⟩) 4096 ⟨false, true, true⟩ .zero 0 false),
    .fault 0 1 ⟨true, false⟩ true, .vm 0 (.discardPages ⟨0x1000, by decide⟩ 4096)]
  have h : ((LTS.runFn (step fun n => some (n + 2)) (start fun _ => 0) acts).bind fun w =>
      (w.space 0).map fun s => s.usage.maxrss) = some 1 := by decide
  obtain ⟨w, hw, h⟩ := Option.bind_eq_some_iff.1 h
  obtain ⟨s, hs, hmax⟩ := Option.map_eq_some_iff.1 h
  obtain ⟨x, hrun⟩ := usage_run (n := 0) (x := ⟨fun _ => 0, fun _ => 0⟩) (worldOk_start fun _ => 0)
    (fun i s h => by rw [space_eq_some] at h; cases h) (fun _ => le_rfl) (by decide) (LTS.runFn_run hw)
  have hreach : (usageSystem fun n => some (n + 2)).Reachable (w, x) := ⟨_, acts, ⟨_, rfl⟩, hrun⟩
  obtain ⟨hrss, hpeak, hminor, -⟩ := usage_counts hreach hs
  exact ⟨(w, x), s, hreach, hs, hmax, hrss, hpeak, hminor⟩

end Mushroom.L2
