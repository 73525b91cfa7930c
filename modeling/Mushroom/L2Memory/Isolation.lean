import Mushroom.L2Memory.Contents
import Mushroom.L2Memory.WorldOk

/-!
# Fork isolation and page table coherence

`World.read` is what a read of a byte gives: the byte of the resident page, or
the one the first fault would bring in.

A store to a page of a non-shared mapping is not seen elsewhere (`store_read`),
and isolated pages read as before, overlaid with the stores to them
(`run_isolated`). Pages of non-shared mappings are isolated if they are anonymous
or have been stored to; another page of a private file mapping is still the page
of the file (`private_file_page_counterexample`).
-/
namespace Mushroom.L2
open List Option OrdMap World

/-! ## Reading -/

/-- The byte the first fault on the page would bring in, if it succeeds.
kernel/user/process/memory.rs:406-408,463-479,549-552 -/
def Kernel.initialByte (g : Kernel) (backing : Backing) (offset o : Nat) : Option UInt8 :=
  match backing with
  | .zero => some 0
  | .trampoline => if offset = 0 then some (g.heap.bytes g.trampoline.content o) else none
  | .file f zeroOffset shared zeroPad =>
    if zeroOffset - offset * 4096 = 0 then if zeroPad then some 0 else none
    else (g.files[f]?).bind fun b =>
      if offset < b.pages.length then
        some (if zeroOffset - offset * 4096 ≤ o ∧ shared = false then 0
          else b.byte g.heap (offset * 4096 + o))
      else none

def Slot.read (g : Kernel) (x : Slot) (o : Nat) : Option UInt8 :=
  match x.page with
  | some u => some (g.heap.bytes u.page.content o)
  | none => g.initialByte x.backing x.offset o

namespace World

/-- Byte `o` of page `q` of address space `j`. -/
def read (w : World) (j q o : Nat) : Option UInt8 := (w.slot j q).bind fun x => x.read w.kernel o

def Isolated (w : World) (j q : Nat) : Prop := ∃ x, w.slot j q = some x ∧ x.Isolated w.kernel w.residents

end World

variable {g g' : Kernel} {x : Slot} {A : Allocator} {j i : Nat} {w w' : World}

lemma Slot.Isolated.read {us : List UserPage} (h : x.Isolated g us) (o : Nat) : x.read g o = some (x.bytes g o) := by
  unfold Slot.read Slot.bytes
  cases hx : x.page with
  | some u => rfl
  | none => simp only [h.zero hx, Kernel.initialByte]

/-! ## Stores to non-shared pages -/

lemma initialByte_congr {h' : Heap} (hb : ∀ k ∈ g.pages, h'.bytes k.content = g.heap.bytes k.content)
    (backing : Backing) (offset o : Nat) :
    Kernel.initialByte { g with heap := h' } backing offset o = g.initialByte backing offset o := by
  cases backing with
  | zero => rfl
  | trampoline => simp only [Kernel.initialByte, hb g.trampoline (mem_cons_self ..)]
  | file f zeroOffset shared zeroPad =>
    simp only [Kernel.initialByte]
    congr 1
    cases hf : g.files[f]? with
    | none => rfl
    | some b =>
      have hraw : ∀ i, rawByte h' b.pages i = rawByte g.heap b.pages i := by
        intro i
        unfold rawByte
        cases hk : b.pages[i / 4096]? with
        | none => rfl
        | some k =>
          refine congrFun (hb k (mem_cons_of_mem _ ?_)) _
          exact mem_flatMap.2 ⟨b, mem_of_getElem? hf, mem_of_getElem? hk⟩
      simp [Buffer.byte, hraw]

/-- **A store to a page of a non-shared mapping** is seen at no other page and isolates the page. -/
lemma store_read (hw : WorldOk w) {page offset : Nat} {val : UInt8} (hx : w.slot i page = some x)
    (hns : x.shared = false) (h : step A w (.store i page offset val) = some w') :
    (∀ j q o, (j, q) ≠ (i, page) → w'.read j q o = w.read j q o) ∧ w'.Isolated i page := by
  obtain ⟨s, hi, h⟩ := bind_eq_some_iff.1 h
  obtain ⟨g', hst, rfl⟩ := map_eq_some_iff.1 h
  obtain ⟨e, he, hwr, -, rfl⟩ := WorldOk.store_eq_some hst
  obtain ⟨y, u, hy, hu, hframe, -, hshared, -, hwritable⟩ := hw.entry hi he
  have hyx : y = x := by
    rw [slot, hi, bind_some, hy] at hx
    exact Option.some.inj hx
  subst hyx
  obtain ⟨hkernel, hres, hslots⟩ := hw.alone hi hy hu ((hwritable hwr).2.2 hns)
  refine ⟨fun j q o hne => ?_, y, hx, ?_⟩
  · show ((slot _ j q).bind fun z => z.read _ o) = (w.slot j q).bind fun z => z.read _ o
    change ((w.slot j q).bind fun z => z.read _ o) = _
    cases hz : w.slot j q with
    | none => rfl
    | some z =>
      simp only [bind_some, Slot.read]
      cases hv : z.page with
      | some v =>
        have hvne := hslots j q z v hne hz hv
        simp [Heap.store, Heap.setBytes, hframe, if_neg hvne]
      | none =>
        refine initialByte_congr (fun k hk => ?_) z.backing z.offset o
        simp [Heap.store, Heap.setBytes, hframe, if_neg (hkernel k hk)]
  · refine ⟨hns, fun hnone => ?_, fun v hv => .inr ⟨?_, fun t ht hc => ?_⟩⟩
    · rw [hu] at hnone; cases hnone
    · rw [hu] at hv
      cases hv
      exact hkernel
    rw [hu] at hv
    cases hv
    rw [hres t ht hc, hshared]
    exact hns

/-! ## Runs -/

namespace World

/-- The bytes `v` of page `q` of address space `j` after the stores of a run. -/
def overlay (j q : Nat) : List Act → (Nat → UInt8) → Nat → UInt8
  | [], v => v
  | .store i page offset val :: acts, v =>
    overlay j q acts (if i = j ∧ page = q then fun o => if o = offset then val else v o else v)
  | _ :: acts, v => overlay j q acts v

/-- The runs in which page `q` of address space `j` is not mapped anew. -/
def avoiding (A : Allocator) (j q : Nat) : LTS World Act where
  init := (system A).init
  step w a w' := step A w a = some w' ∧ ¬ a.Remaps w j q

end World

variable {acts : List World.Act} {q : Nat}

lemma avoiding_of_touch (hr : (system A).Run w acts w')
    (ht : ∀ a ∈ acts, a.Touch i) (j q : Nat) : (avoiding A j q).Run w acts w' := by
  induction hr with
  | nil w => exact .nil w
  | cons hs _ ih =>
    obtain ⟨h1, h2⟩ := forall_mem_cons.1 ht
    refine .cons ⟨hs, fun hre => ?_⟩ (ih h2)
    rename_i a _ _
    cases a <;> first | exact hre | exact h1

/-- One step, seen from an isolated page. -/
lemma step_isolated {a : World.Act} (hw : WorldOk w) (h : (avoiding A j q).step w a w')
    (hx : w.slot j q = some x) (hiso : x.Isolated w.kernel w.residents) :
    ∃ x', w'.slot j q = some x' ∧ x'.Isolated w'.kernel w'.residents ∧
      ∀ acts, overlay j q (a :: acts) (x.bytes w.kernel) = overlay j q acts (x'.bytes w'.kernel) := by
  obtain ⟨hstep, hav⟩ := h
  by_cases hst : a.StoresTo j q
  · cases a with
    | store i page offset val =>
      obtain ⟨rfl, rfl⟩ := hst
      obtain ⟨s, hi, h⟩ := bind_eq_some_iff.1 hstep
      obtain ⟨g', hg, rfl⟩ := map_eq_some_iff.1 h
      obtain ⟨hiso', hbytes⟩ := (hw.store_step hi hg).2.2 x hx hiso
      refine ⟨x, hx, hiso', fun acts => ?_⟩
      rw [overlay, if_pos ⟨rfl, rfl⟩]
      exact congrArg _ hbytes.symm
    | _ => exact absurd hst id
  · obtain ⟨x', hx', hiso', hbytes⟩ := (step_ok hw hstep).2 j q hav hst x hx hiso
    refine ⟨x', hx', hiso', fun acts => ?_⟩
    rw [hbytes]
    cases a with
    | store i page offset val =>
      have hne : ¬ (i = j ∧ page = q) := hst
      rw [overlay, if_neg hne]
    | _ => rfl

/-- **A run, seen from an isolated page**: it reads as before, overlaid with the
stores to it. -/
lemma run_isolated (hr : (avoiding A j q).Run w acts w')
    (hw : WorldOk w) (hx : w.slot j q = some x) (hiso : x.Isolated w.kernel w.residents) :
    ∃ x', w'.slot j q = some x' ∧ x'.Isolated w'.kernel w'.residents ∧
      x'.bytes w'.kernel = overlay j q acts (x.bytes w.kernel) := by
  induction hr generalizing x with
  | nil w => exact ⟨x, hx, hiso, rfl⟩
  | cons hs _ ih =>
    obtain ⟨x1, hx1, hiso1, hover⟩ := step_isolated hw hs hx hiso
    obtain ⟨x', hx', hiso', hbytes⟩ := ih (step_ok hw hs.1).1 hx1 hiso1
    exact ⟨x', hx', hiso', hbytes.trans (hover _).symm⟩

/-! ## Forks -/

lemma Slot.read_of_blur {x' : Slot} (hx : x'.blur = x.blur) (hb : g'.heap.bytes = g.heap.bytes)
    (hf : g'.files = g.files) (ht : g'.trampoline = g.trampoline) (o : Nat) : x'.read g' o = x.read g o := by
  have hg : g' = { g with heap := g'.heap } := by
    obtain ⟨h', f', t'⟩ := g'
    simp only at hf ht
    rw [hf, ht]
  have hlike := (Slot.like_of_blur hx).frame
  have hoffset : x'.offset = x.offset := by
    simp only [Slot.blur, Slot.mk.injEq] at hx
    exact hx.2.1
  unfold Slot.read
  cases hp : x.page with
  | none =>
    have hp' : x'.page = none := by simpa [hp] using hlike
    rw [hp', hg, initialByte_congr (fun k _ => congrFun hb k.content), (Slot.like_of_blur hx).backing, hoffset]
  | some u =>
    obtain ⟨u', hp', hc⟩ : ∃ u', x'.page = some u' ∧ u'.page.content = u.page.content := by simpa [hp] using hlike
    simp [hp', hb, hc]

/-- **A fork**: the copy reads as the original did, and isolated pages are isolated in both. -/
lemma clone_read (hw : WorldOk w) (h : World.step A w (.clone i) = some w')
    (hlen : w.spaces.length < w'.spaces.length) (q : Nat) :
    (∀ o, w'.read w.spaces.length q o = w.read i q o ∧ w'.read i q o = w.read i q o) ∧
      (w.Isolated i q → w'.Isolated i q ∧ w'.Isolated w.spaces.length q) := by
  have hkeeps := (step_ok hw h).2 i q id id
  obtain ⟨s, hi, h⟩ := bind_eq_some_iff.1 h
  obtain ⟨⟨r, g', s'⟩, hc, rfl⟩ := map_eq_some_iff.1 h
  have hstep := clone_step (hw.ok i s hi) hc
  cases r with
  | error e => simp [World.addClone, World.setSpace] at hlen
  | ok this =>
    obtain ⟨hmaps, -, hbytes, hfiles, htramp⟩ := hstep.child this rfl
    set w' := (w.setSpace g' i (some s')).addClone (.ok this)
    have hself : w'.slot i q = resolve s'.state.mappings q := by
      unfold World.slot
      rw [WorldOk.addClone_space_of (World.space_setSpace hi (some s'))]
      rfl
    have hchild : w'.slot w.spaces.length q = resolve s'.state.mappings q := by
      unfold World.slot
      rw [← hmaps]
      have : w'.space w.spaces.length = some this := by
        rw [World.space_eq_some]
        simp [w', World.addClone, World.setSpace]
      rw [this]
      rfl
    have hslot : w.slot i q = resolve s.state.mappings q := by
      unfold World.slot
      rw [hi]
      rfl
    have hblur : (resolve s'.state.mappings q).map Slot.blur = (resolve s.state.mappings q).map Slot.blur := by
      rw [← resolve_blur, ← resolve_blur, hstep.self]
    have hread : ∀ o, ((resolve s'.state.mappings q).bind fun x => x.read g' o) =
        (resolve s.state.mappings q).bind fun x => x.read w.kernel o := by
      intro o
      cases hx : resolve s.state.mappings q with
      | none =>
        rw [hx] at hblur
        rw [map_eq_none_iff.1 hblur]
        rfl
      | some x =>
        rw [hx] at hblur
        obtain ⟨x', hx', hxx⟩ := map_eq_some_iff.1 hblur
        rw [hx']
        exact Slot.read_of_blur hxx hbytes hfiles htramp o
    refine ⟨fun o => ⟨?_, ?_⟩, fun hiso => ?_⟩
    · unfold World.read
      rw [hchild, hslot]
      exact hread o
    · unfold World.read
      rw [hself, hslot]
      exact hread o
    obtain ⟨x, hx, hxi⟩ := hiso
    obtain ⟨x', hx', hxi', -⟩ := hkeeps x hx hxi
    refine ⟨⟨x', hx', hxi'⟩, x', ?_, hxi'⟩
    rw [hchild, ← hself]
    exact hx'

/-- **Fork isolation.** In every reachable state:
* the common zero page reads as zero;
* a store to a page of a non-shared mapping is seen at no other page of any
  address space, and isolates the page;
* pages of non-shared anonymous mappings are isolated;
* after a fork the copy and the original read as the original did, and
  isolated pages are isolated in both;
* along every run that does not map it anew, an isolated page reads as it did,
  overlaid with the stores of its own address space;
* a kernel write is a run of faults and stores of its address space. -/
theorem fork_isolation {A : Allocator} {w : World} (hw : (World.system A).Reachable w) :
    (∀ o, w.kernel.heap.bytes Heap.zeroFrame o = 0) ∧
    (∀ i page offset val x w', w.slot i page = some x → x.shared = false →
      World.step A w (.store i page offset val) = some w' →
        (∀ j q o, (j, q) ≠ (i, page) → w'.read j q o = w.read j q o) ∧ w'.Isolated i page) ∧
    (∀ j q x, w.slot j q = some x → x.shared = false → x.backing = .zero → w.Isolated j q) ∧
    (∀ i w', World.step A w (.clone i) = some w' → w.spaces.length < w'.spaces.length → ∀ q,
      (∀ o, w'.read w.spaces.length q o = w.read i q o ∧ w'.read i q o = w.read i q o) ∧
        (w.Isolated i q → w'.Isolated i q ∧ w'.Isolated w.spaces.length q)) ∧
    (∀ acts w' j q, (World.avoiding A j q).Run w acts w' → w.Isolated j q → w'.Isolated j q ∧
      ∀ o, w'.read j q o = some (World.overlay j q acts (fun o => (w.read j q o).getD 0) o)) ∧
    (∀ i s tables addr bytes r g' s', w.space i = some s →
      s.writeBytes A tables w.kernel addr bytes = some (r, g', s') → ∃ acts, (∀ a ∈ acts, a.Touch i) ∧
          ∀ j q, (World.avoiding A j q).Run w acts (w.setSpace g' i (some s'))) := by
  have hok := reachable_ok hw
  refine ⟨fun o => congrFun hok.own.zero o, ?_, ?_, ?_, ?_, ?_⟩
  · intro i page offset val x w' hx hns h
    exact store_read hok hx hns h
  · intro j q x hx hns hb
    obtain ⟨s, hs, hres⟩ := bind_eq_some_iff.1 hx
    exact ⟨x, hx, (hok.anon j s hs).slot hres hb hns⟩
  · intro i w' h hlen q
    exact clone_read hok h hlen q
  · rintro acts w' j q hr ⟨x, hx, hxi⟩
    obtain ⟨x', hx', hxi', hbytes⟩ := run_isolated hr hok hx hxi
    refine ⟨⟨x', hx', hxi'⟩, fun o => ?_⟩
    have hread : (fun o => (w.read j q o).getD 0) = x.bytes w.kernel := by
      funext o
      simp [World.read, hx, hxi.read]
    simp only [World.read, hx', bind_some, hxi'.read, hbytes] at hread ⊢
    rw [hread]
  · intro i s tables addr bytes r g' s' hi h
    obtain ⟨acts, hacts, hrun⟩ := World.writeBytes_run hi h
    exact ⟨acts, hacts, avoiding_of_touch hrun hacts⟩

/-- Frames and counters in the order in which they are asked for. -/
def counting : Allocator := fun n => some (n + 2)

/-- Both sides of a fork write to an anonymous page. -/
theorem fork_isolation_two_writers : ∃ w w', (system counting).Reachable w ∧
      LTS.runFn (step counting) w [.fault 1 1 ⟨true, false⟩ true, .store 1 1 0 9] = some w' ∧
      w'.read 0 1 0 = some 7 ∧ w'.read 1 1 0 = some 9 := by
  let acts : List World.Act := [.new, .vm 0 (.mmap (.fixed ⟨0x1000, by decide⟩) 4096 ⟨false, true, true⟩ .zero 0 false),
    .fault 0 1 ⟨true, false⟩ true, .store 0 1 0 7, .clone 0]
  let later : List World.Act := [.fault 1 1 ⟨true, false⟩ true, .store 1 1 0 9]
  have h : ((LTS.runFn (step counting) (start fun _ => 0) acts).bind fun w =>
      (LTS.runFn (step counting) w later).map fun w' => (w.read 0 1 0,
        (w.slot 0 1).map (fun x => (x.shared, x.backing)), w'.read 1 1 0)) =
      some (some 7, some (false, .zero), some 9) := by decide
  obtain ⟨w, hw, h⟩ := bind_eq_some_iff.1 h
  obtain ⟨w', hw', h⟩ := map_eq_some_iff.1 h
  simp only [Prod.mk.injEq] at h
  obtain ⟨hread, hslot, hother⟩ := h
  have hreach : (system counting).Reachable w := ⟨_, acts, ⟨_, rfl⟩, LTS.runFn_run hw⟩
  obtain ⟨x, hx, hsb⟩ := map_eq_some_iff.1 hslot
  obtain ⟨-, -, hanon, -, hrun, -⟩ := fork_isolation hreach
  have hiso := hanon 0 1 x hx (Prod.mk.inj hsb).1 (Prod.mk.inj hsb).2
  have htouch : (avoiding counting 0 1).Run w later w' :=
    avoiding_of_touch (i := 1) (LTS.runFn_run hw') (by simp [later, World.Act.Touch]) 0 1
  refine ⟨w, w', hreach, hw', ?_, hother⟩
  rw [(hrun later w' 0 1 htouch hiso).2 0]
  simp [later, overlay, hread]

/-- A page of a private file mapping never stored to changes when another space stores to the file. -/
theorem private_file_page_counterexample : ∃ acts later : List World.Act, ∃ w w',
      LTS.runFn (step counting) (start fun _ => 0) (acts ++ [.clone 0]) = some w ∧
      LTS.runFn (step counting) w later = some w' ∧ later = [.fault 1 1 ⟨true, false⟩ true, .store 1 1 0 9] ∧
      (w.slot 0 2).map Slot.shared = some false ∧ w.read 0 2 0 = some 1 ∧ w'.read 0 2 0 = some 9 := by
  let acts : List World.Act := [.create, .write 0 0 [1], .new,
    .vm 0 (.mmap (.fixed ⟨0x1000, by decide⟩) 4096 ⟨false, true, true⟩ (.file 0 4096 true false) 0 true),
    .vm 0 (.mmap (.fixed ⟨0x2000, by decide⟩) 4096 ⟨false, true, true⟩ (.file 0 4096 false false) 0 false),
    .fault 0 2 ⟨false, false⟩ true]
  let later : List World.Act := [.fault 1 1 ⟨true, false⟩ true, .store 1 1 0 9]
  have h : ((LTS.runFn (step counting) (start fun _ => 0) (acts ++ [.clone 0])).bind fun w =>
      (LTS.runFn (step counting) w later).map fun w' => ((w.slot 0 2).map Slot.shared, w.read 0 2 0, w'.read 0 2 0)) =
      some (some false, some 1, some 9) := by decide
  obtain ⟨w, hw, h⟩ := bind_eq_some_iff.1 h
  obtain ⟨w', hw', h⟩ := map_eq_some_iff.1 h
  simp only [Prod.mk.injEq] at h
  exact ⟨acts, later, w, w', hw, hw', rfl, h⟩

/-! ## Page table coherence -/

/-- **Page table coherence.** In every reachable state a present entry of an address space with disjoint mappings
belongs to the page resident in the one mapping around it, allows no more than that mapping, and is writable
only if the mapping is shared or nothing else points to the frame. -/
theorem pagetable_coherence {A : Allocator} {w : World} (hw : (system A).Reachable w) {i : Nat}
    {s : Space} (hi : w.space i = some s) (hd : Disjoint s.state.mappings) {p : Nat} {e : Pte}
    (he : s.pagetables p = some e) : ∃ y ∈ s.state.mappings, y.1 ≤ p ∧ p < y.1 + y.2.len ∧
      (∀ z ∈ s.state.mappings, z.1 ≤ p → p < z.1 + z.2.len → z = y) ∧
      ∃ u, y.2.pages[p - y.1]? = some (some u) ∧ e.frame = u.page.content ∧
        (e.executable = true → y.2.permissions.execute = true) ∧ (e.writable = true → y.2.permissions.write = true ∧
          (y.2.shared = true ∨ holders (w.kernel.pages ++ w.residents.map UserPage.page) u.page.content = 1)) := by
  obtain ⟨x, u, hx, hu, hframe, -, -, hexec, hwritable⟩ := (reachable_ok hw).entry hi he
  obtain ⟨⟨k, m⟩, hg, hslot⟩ := bind_eq_some_iff.1 hx
  obtain ⟨q, hq, rfl⟩ := map_eq_some_iff.1 hslot
  obtain ⟨hmem, hk⟩ := getLE_mem hg
  obtain ⟨hlt, -⟩ := List.getElem?_eq_some_iff.1 hq
  simp only at hk hlt hu hq hexec hwritable
  subst hu
  refine ⟨(k, m), hmem, hk, ?_, fun z hz h1 h2 => ?_, u, hq, hframe, hexec, fun hwr => ?_⟩
  · simp only [Mapping.len]; omega
  · -- of two disjoint mappings only one contains `p`
    obtain ⟨A, B, hAB, hB⟩ := getLE_split (reachable_ok hw |>.ok i s hi).sorted hg
    rw [hAB] at hz hd
    obtain ⟨-, -, hcross⟩ := Disjoint.append.1 hd
    simp only [mem_append, mem_cons] at hz
    rcases hz with hz | rfl | hz
    · have := hcross z hz (k, m) (mem_cons_self ..)
      omega
    · rfl
    · have := hB z hz
      omega
  · obtain ⟨h1, -, h3⟩ := hwritable hwr
    refine ⟨h1, ?_⟩
    cases hs : m.shared with
    | true => exact .inl rfl
    | false => exact .inr (h3 hs)

/-- The page of an anonymous mapping after a write fault. -/
theorem pagetable_coherence_written_page :
    ∃ w s e, (system counting).Reachable w ∧ w.space 0 = some s ∧ Disjoint s.state.mappings ∧
      s.pagetables 1 = some e ∧ e.writable = true ∧
      ∃ y ∈ s.state.mappings, y.1 ≤ 1 ∧ 1 < y.1 + y.2.len ∧ y.2.permissions.write = true := by
  let acts : List World.Act := [.new, .vm 0 (.mmap (.fixed ⟨0x1000, by decide⟩) 4096 ⟨false, true, true⟩ .zero 0 false),
    .fault 0 1 ⟨true, false⟩ true]
  have h : ((LTS.runFn (step counting) (start fun _ => 0) acts).bind fun w =>
      (w.space 0).bind fun s => (s.pagetables 1).map fun e =>
        (decide (Disjoint s.state.mappings), e.writable)) = some (true, true) := by decide
  obtain ⟨w, hw, h⟩ := bind_eq_some_iff.1 h
  obtain ⟨s, hs, h⟩ := bind_eq_some_iff.1 h
  obtain ⟨e, he, h⟩ := map_eq_some_iff.1 h
  simp only [Prod.mk.injEq, decide_eq_true_eq] at h
  have hreach : (system counting).Reachable w := ⟨_, acts, ⟨_, rfl⟩, LTS.runFn_run hw⟩
  obtain ⟨y, hy, h1, h2, -, u, -, -, -, hwritable⟩ := pagetable_coherence hreach hs h.1 he
  exact ⟨w, s, e, hreach, hs, h.1, he, h.2, y, hy, h1, h2, (hwritable h.2).1⟩

end Mushroom.L2
