import Mushroom.L2Memory.Fault
import Mushroom.L2Memory.Protect
import Mushroom.L2Memory.Unmap

/-!
# Calls that change the mappings

A call on `VirtualMemoryWriteGuard` together with what it does besides: the
entries it removes from the page tables and the pages it drops. `VmSpec` says
what all the operations do to the map, also when mappings overlap: outside the
flushed range nothing resolves differently, and no page appears that was not
there before. From it follows that a call is a `SpaceStep`.
-/
namespace Mushroom.L2
open List Option OrdMap

def Effect.Covers (eff : Effect) (p : Nat) : Prop := ∃ r, eff.flush = some r ∧ r.1 ≤ p ∧ p ≤ r.2

def Effect.flushed (eff : Effect) (pt : Pagetables) : Pagetables :=
  match eff.flush with
  | none => pt
  | some r => tryUnmapUserPages pt r.1 r.2

def Space.vm (g : Kernel) (s : Space) (op : VmOp) : Option (VmRes × Kernel × Space) :=
  match vmCall s.state op with
  | none => none
  | some (r, state, eff) =>
    some (r, { g with heap := dropAll g.heap (eff.dropped.map UserPage.page) },
      ⟨state, eff.flushed s.pagetables, s.usage.decreaseRss eff.released⟩)

/-! ## What the operations do to the map -/

structure VmSpec (L L' : Mappings) (eff : Effect) : Prop where
  sorted : Sorted L'
  nonempty : Nonempty L'
  outside : ∀ p x, p < userPages → ¬ eff.Covers p → resolve L p = some x → resolve L' p = some x
  parts : ∀ y ∈ L', y.2.resident = [] ∨ ∃ z ∈ L, PartOf y z
  handles : ((resident L).map UserPage.page).Perm
    (eff.dropped.map UserPage.page ++ (resident L').map UserPage.page)

variable {L L' : Mappings} {len : Nat} {eff : Effect} {addr : VirtAddr} {permissions : MemoryPermissions} {op : VmOp}
  {g g' : Kernel}

lemma VmSpec.nothing (hs : Sorted L) (hn : Nonempty L) : VmSpec L L .nothing :=
  ⟨hs, hn, fun _ _ _ _ h => h, fun y hy => .inr ⟨y, hy, .refl y⟩, List.Perm.refl _⟩

lemma not_covers {start stop released p : Nat} {dropped : List UserPage}
    (h : ¬ (⟨some (start, stop), dropped, released⟩ : Effect).Covers p) : p < start ∨ stop < p := by
  by_contra hc
  exact h ⟨(start, stop), rfl, by simp only; omega, by simp only; omega⟩

lemma unmap_vmSpec (hs : Sorted L) (hn : Nonempty L) (h : unmap L addr len = some (L', eff)) : VmSpec L L' eff := by
  rcases unmap_eq_some h with ⟨-, rfl, rfl⟩ | ⟨hlen, gone, hun, rfl⟩
  · exact .nothing hs hn
  have hle := addr.page_le_last len
  have hspec := unmapPages_spec hle hs hn hun
  refine ⟨hspec.sorted, hspec.nonempty, ?_, fun y hy => .inr (hspec.parts y hy), ?_⟩
  · intro p x _ hp hx
    rcases not_covers hp with hp | hp
    · rw [hspec.below p hp]; exact hx
    obtain ⟨y, hy, -, hslot⟩ := hspec.above p hp x hx
    unfold resolve
    rw [hy]; exact hslot
  · rw [← map_append]
    exact hspec.resident.map UserPage.page

lemma mmap_vmSpec {bias : Bias} {backing : Backing} {pageOffset : Nat} {shared : Bool} (hs : Sorted L) (hn : Nonempty L)
    (h : mmap L bias len permissions backing pageOffset shared = some (addr, L', eff)) : VmSpec L L' eff := by
  obtain ⟨hlen, -, -, L1, eff1, hun, rfl, rfl⟩ := mmap_eq_some h
  rcases unmap_eq_some hun with ⟨rfl, -, -⟩ | ⟨-, gone, hpages, rfl⟩
  · cases hlen
  have hle := addr.page_le_last len
  have hspec := unmapPages_spec hle hs hn hpages
  generalize hm : (⟨backing, pageOffset, permissions, shared,
    List.replicate ((addr.addr + (len - 1)) / 4096 - addr.page + 1) none⟩ : Mapping) = m
  have hempty : m.resident = [] := by rw [← hm]; simp [Mapping.resident, filterMap_replicate_of_none]
  have hpos : 0 < m.len := by rw [← hm]; simp [Mapping.len]
  have hreplaced : (L1.filter fun x => x.1 = addr.page) = [] := by
    rw [filter_eq_nil_iff]
    intro y hy
    simpa using hspec.fresh y hy
  obtain ⟨a, b, rfl, ha, hb⟩ := split_of_fresh hspec.sorted hspec.fresh
  obtain ⟨hsa, hsb, hab⟩ := sorted_append.1 hspec.sorted
  rw [insert_split ha hb]
  refine ⟨?_, ?_, ?_, ?_, ?_⟩
  · refine sorted_append.2 ⟨hsa, sorted_cons.2 ⟨hb, hsb⟩, fun x hx y hy => ?_⟩
    rcases mem_cons.1 hy with rfl | hy
    · exact ha x hx
    · exact hab x hx y hy
  · intro y hy
    simp only [mem_append, mem_cons] at hy
    rcases hy with hy | rfl | hy
    · exact hspec.nonempty y (mem_append_left _ hy)
    · exact hpos
    · exact hspec.nonempty y (mem_append_right _ hy)
  · intro p x _ hp hx
    rcases not_covers hp with hp | hp
    · -- the new entry begins behind `p`
      have hgt : ∀ y ∈ b, p < y.1 := fun y hy => lt_trans hp (hb y hy)
      rw [← hspec.below p hp, resolve_append_of_gt hgt] at hx
      rw [resolve_append_of_gt (forall_mem_cons.2 ⟨hp, hgt⟩)]
      exact hx
    -- the entry found for `p` begins behind the new one
    obtain ⟨y, hy, hstart, hslot⟩ := hspec.above p hp x hx
    have hyb : getLE b p = some y := by
      rw [getLE_append] at hy
      cases hgb : getLE b p with
      | some z => rw [hgb] at hy; simpa using hy
      | none =>
        rw [hgb] at hy
        have := ha y (getLE_mem (by simpa using hy)).1
        omega
    unfold resolve
    rw [getLE_append, getLE_cons, hyb]
    exact hslot
  · intro y hy
    simp only [mem_append, mem_cons] at hy
    rcases hy with hy | rfl | hy
    · exact .inr (hspec.parts y (mem_append_left _ hy))
    · exact .inl hempty
    · exact .inr (hspec.parts y (mem_append_right _ hy))
  · have hres : resident (a ++ (addr.page, m) :: b) = resident (a ++ b) := by
      rw [resident_append, resident_cons, hempty, nil_append, resident_append]
    rw [hres, hreplaced, ← map_append]
    exact (hspec.resident.trans (by simp [residents])).map UserPage.page

variable {r : Except Errno Unit}

/-- `mprotect` besides keeps every slot, up to the permissions. -/
lemma mprotect_vmSpec (hs : Sorted L) (hn : Nonempty L) (h : mprotect L addr len permissions = some (r, L', eff)) :
    VmSpec L L' eff ∧ ∀ p x, resolve L p = some x → ∃ x', resolve L' p = some x' ∧ x.Like x' := by
  rcases mprotect_eq_some h with ⟨-, -, rfl, rfl⟩ | ⟨-, rfl, rfl⟩ | ⟨-, -, rfl, hp⟩
  iterate 2 exact ⟨.nothing hs hn, fun p x hx => ⟨x, hx, .refl x⟩⟩
  rcases mprotectPages_spec hs hn hp with ⟨-, hspec⟩ | ⟨-, rfl⟩
  · refine ⟨⟨hspec.sorted, hspec.nonempty, ?_, fun y hy => .inr (hspec.parts y hy), ?_⟩, ?_⟩
    · intro p x _ hcov hx
      have hout := not_covers hcov
      rw [hspec.resolves p, hx, map_some, if_neg (by omega)]
    · rw [hspec.handles]; exact List.Perm.refl _
    intro p x hx
    rw [hspec.resolves p, hx]
    refine ⟨_, rfl, ?_⟩
    split
    · exact ⟨rfl, rfl, by simp only [Slot.setPerms, Option.map_map]; rfl⟩
    · exact .refl x
  · exact ⟨⟨hs, hn, fun _ _ _ _ hx => hx, fun y hy => .inr ⟨y, hy, .refl y⟩, List.Perm.refl _⟩,
      fun p x hx => ⟨x, hx, .refl x⟩⟩

lemma pageBack_ge {p q : Nat} (hp : p < userPages) (hpq : p < q) : ∃ last, pageBack q = some last ∧ p ≤ last := by
  unfold userPages at hp
  unfold pageBack
  split
  · omega
  split
  · exact ⟨_, rfl, by omega⟩
  · exact ⟨_, rfl, by omega⟩

lemma discard_vmSpec {address : VirtAddr} (hs : Sorted L) (hn : Nonempty L)
    (h : discard L address len = some (r, L', eff)) : VmSpec L L' eff := by
  rcases discard_eq_some h with ⟨-, rfl, rfl⟩ | ⟨-, -, dropped, hd, rfl⟩
  · exact .nothing hs hn
  have hle : address.page ≤ (address.addr + len) / 4096 := by unfold VirtAddr.page; omega
  have hspec := discardPages_spec hle hs hd
  refine ⟨sorted_of_shape hspec.shape hs, nonempty_of_shape hspec.shape hn, ?_, fun y hy => .inr (hspec.parts y hy), ?_⟩
  · intro p x hp hcov hx
    rcases hspec.resolves p with heq | ⟨h1, h2, -⟩
    · rw [heq]; exact hx
    obtain ⟨last, hlast, hple⟩ := pageBack_ge hp h2
    exact absurd ⟨(address.page, last), by simp [hlast], h1, hple⟩ hcov
  · rw [← map_append]
    exact hspec.resident.map UserPage.page

variable {r : VmRes}

/-- **What a call does to the map.** -/
lemma vmCall_spec {st st' : VirtualMemoryState} (hs : Sorted st.mappings) (hn : Nonempty st.mappings)
    (h : vmCall st op = some (r, st', eff)) : VmSpec st.mappings st'.mappings eff := by
  cases op with
  | mmap bias len permissions backing pageOffset shared =>
    obtain ⟨⟨a, L, e⟩, hm, heq⟩ := map_eq_some_iff.1 h
    cases heq
    exact mmap_vmSpec hs hn hm
  | unmap addr len =>
    obtain ⟨⟨L, e⟩, hm, heq⟩ := map_eq_some_iff.1 h
    cases heq
    exact unmap_vmSpec hs hn hm
  | mprotect addr len permissions =>
    obtain ⟨⟨r, L, e⟩, hm, heq⟩ := map_eq_some_iff.1 h
    cases heq
    exact (mprotect_vmSpec hs hn hm).1
  | setBrkEnd brkEnd =>
    obtain ⟨⟨r, st1, e⟩, hm, heq⟩ := map_eq_some_iff.1 h
    cases heq
    rcases setBrkEnd_eq_some hm with ⟨-, rfl, rfl⟩ | ⟨-, -, -, L, hmm, rfl⟩ | ⟨-, -, L, hun, rfl⟩
    · exact .nothing hs hn
    · exact mmap_vmSpec hs hn hmm
    · exact unmap_vmSpec hs hn hun
  | discardPages address len =>
    obtain ⟨⟨r, L, e⟩, hm, heq⟩ := map_eq_some_iff.1 h
    cases heq
    exact discard_vmSpec hs hn hm

/-! ## A call as a step -/

/-- Those a call flushes, unless it only changes their permissions. -/
def VmOp.Remaps (op : VmOp) (eff : Effect) (p : Nat) : Prop :=
  match op with
  | .mprotect .. => False
  | _ => userPages ≤ p ∨ eff.Covers p

lemma VmSpec.mem_resident (h : VmSpec L L' eff) {u : UserPage} (hu : u ∈ resident L') :
    ∃ v ∈ resident L, u.page = v.page ∧ u.shared = v.shared := by
  obtain ⟨m, hm, hum⟩ := mem_flatMap.1 hu
  obtain ⟨y, hy, rfl⟩ := mem_map.1 hm
  rcases h.parts y hy with hempty | ⟨z, hz, hpart⟩
  · rw [hempty] at hum; cases hum
  obtain ⟨v, hv, hp, hs⟩ := hpart.pages u hum
  exact ⟨v, L2.mem_resident hz hv, hp, hs⟩

/-- A frame stays isolated when pages are dropped. -/
lemma VmSpec.iso (h : VmSpec L L' eff) {h' : Heap} {R : List UserPage} {f : Nat} (hi : Iso g (resident L ++ R) f) :
    Iso { g with heap := h' } (resident L' ++ R) f := by
  refine hi.mono rfl fun u hu => ?_
  rcases mem_append.1 hu with hu | hu
  · obtain ⟨v, hv, hp, hs⟩ := h.mem_resident hu
    exact ⟨v, mem_append_left _ hv, by rw [hp], hs.symm⟩
  · exact ⟨u, mem_append_right _ hu, rfl, rfl⟩

lemma VmSpec.coherent (h : VmSpec L L' eff) {pt : Pagetables} (hc : Coherent L pt) : Coherent L' (eff.flushed pt) := by
  intro p e he
  have hpt : pt p = some e ∧ (p < userPages → ¬ eff.Covers p) := by
    unfold Effect.flushed at he
    unfold Effect.Covers
    cases hf : eff.flush with
    | none =>
      rw [hf] at he
      exact ⟨he, by simp⟩
    | some r =>
      rw [hf] at he
      simp only [tryUnmapUserPages] at he
      split at he
      · cases he
      rename_i hout
      refine ⟨he, fun hp hcov => hout ?_⟩
      obtain ⟨r', hr', h1, h2⟩ := hcov
      cases hr'
      unfold lastUserPage
      omega
  obtain ⟨hp, x, u, hx, hu, hfor⟩ := hc p e hpt.1
  exact ⟨hp, x, u, h.outside p x hp (hpt.2 hp) hx, hu, hfor⟩

lemma SpaceOk.vm {s s' : Space} (hok : SpaceOk s) (h : s.vm g op = some (r, g', s')) : SpaceOk s' := by
  unfold Space.vm at h
  split at h
  · cases h
  rename_i r1 st eff hcall
  cases h
  have hspec := vmCall_spec hok.sorted hok.nonempty hcall
  refine ⟨hspec.sorted, hspec.nonempty, fun y hy => ?_, hspec.coherent hok.coherent⟩
  rcases hspec.parts y hy with hempty | ⟨z, hz, hpart⟩
  · intro u hu
    rw [hempty] at hu; cases hu
  · exact hpart.tidy (hok.tidy z hz)

/-- **A call** keeps the invariant; isolated pages it does not remap keep their
bytes. -/
lemma vm_step {s s' : Space} (hok : SpaceOk s) (h : s.vm g op = some (r, g', s')) :
    ∃ eff, vmCall s.state op = some (r, s'.state, eff) ∧
      SpaceStep (op.Remaps eff) g s g' s' := by
  have hok' := hok.vm h
  unfold Space.vm at h
  split at h
  · cases h
  rename_i r1 st eff hcall
  cases h
  have hspec := vmCall_spec hok.sorted hok.nonempty hcall
  refine ⟨eff, hcall, ⟨?_, fun _ _ hd => hd, fun _ => hok', ?_, ?_, ?_⟩⟩
  · intro R o
    refine Own.dropAll (o.perm ?_)
    have hp := (hspec.handles.append_right R).append_left g.pages
    refine hp.trans ?_
    rw [append_assoc]
    exact perm_append_comm_assoc ..
  · intro R o u hu hi
    exact ⟨hspec.iso hi, by rw [dropAll_bytes]⟩
  · intro R o p x hp hx hi
    have hlike : ∃ x', resolve st.mappings p = some x' ∧ x.Like x' := by
      cases op with
      | mprotect addr len permissions =>
        obtain ⟨⟨r, L, e⟩, hm, heq⟩ := map_eq_some_iff.1 hcall
        cases heq
        exact (mprotect_vmSpec hok.sorted hok.nonempty hm).2 p x hx
      | _ =>
        simp only [VmOp.Remaps, not_or, Nat.not_le] at hp
        exact ⟨x, hspec.outside p x hp.1 hp.2 hx, .refl x⟩
    obtain ⟨x', hx', hlike⟩ := hlike
    refine ⟨x', hx', hi.like hlike fun u _ hiso => ⟨hspec.iso hiso, ?_⟩⟩
    rw [dropAll_bytes]
  · intro R o hanon y hy hb hs u hu
    rcases hspec.parts y hy with hempty | ⟨z, hz, hpart⟩
    · rw [hempty] at hu; cases hu
    obtain ⟨v, hv, hp, -⟩ := hpart.pages u hu
    rw [hp]
    exact hspec.iso (hanon z hz (hpart.backing ▸ hb) (hpart.shared ▸ hs) v hv)

end Mushroom.L2
