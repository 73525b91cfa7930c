import Mushroom.Core.Forest
import Mushroom.L5Files.Effect

/-!
# The directories of a tmpfs form a tree

The directory entries are the edges of a `Forest`, and the parents that the
directories record are the parent pointers. `removed` lists the directories that
were deleted or replaced; the others are live. `TreeOk` is kept by every call but
two: `exchange` between two directories does not check that a directory is not
moved below itself and does not record its new parent, and `create_link` without
`create_new` replaces whatever it finds. `Keeps` leaves those out.
-/
namespace Mushroom.L5
open List Function L1 FsState

/-! ## The directory graph -/

def Entry.dir? : Entry → Option Nat
  | .dir i => some i
  | _ => none

namespace FsState

def edges (s : FsState) (y : Nat × FileName) : Option Nat := (s.lookup y.1 y.2).bind Entry.dir?

def par (s : FsState) (d : Nat) : Nat :=
  match s.location d with
  | .root => d
  | .directory p _ => p
  | .mount p _ => p

def forest (s : FsState) (removed : List Nat) : Forest Nat FileName where
  root := 0
  edge := s.edges
  parent := s.par
  live d := d < s.dirCount ∧ d ∉ removed

def Child (s : FsState) (p d : Nat) : Prop := ∃ n, s.lookup p n = some (.dir d)

def Linked (s : FsState) (d : Nat) : Prop := Relation.ReflTransGen s.Child 0 d

/-- The directory an entry referred to before a call and not after it. -/
def replaced (s s' : FsState) (d : Nat) (name : FileName) : List Nat :=
  match s.lookup d name with
  | some (.dir i) => if s'.lookup d name = some (.dir i) then [] else [i]
  | _ => []

end FsState

/-- The directory a call has removed by `delete_dir` or replaced in a rename. -/
def FsOp.removed (s s' : FsState) : FsOp → List Nat
  | .deleteDir d name => s.replaced s' d name
  | .rename _ _ _ newDir newname _ => s.replaced s' newDir newname
  | _ => []

/-- Calls within one file system on directories that are linked into it. -/
def FsOp.OnTree (s : FsState) (op : FsOp) : Prop :=
  (∀ d name own, op ≠ .mount d name own) ∧ ∀ d ∈ op.targets, s.Linked d

/-- Runs of such calls that meet the condition `C`, with the removed
directories. -/
def tmpfsTree (C : FsState → FsOp → Prop) : LTS (FsState × List Nat) FsOp where
  init x := x = (new, [])
  step x op x' := op.OnTree x.1 ∧ C x.1 op ∧ x.1.next op = some x'.1 ∧ x'.2 = x.2 ++ op.removed x.1 x'.1

/-- One entry for each linked directory but the root, no cycle, and every directory not removed is linked. -/
structure TreeShape (s : FsState) (removed : List Nat) : Prop where
  one_entry : ∀ d, s.Linked d → d ≠ 0 → ∃! y : Nat × FileName, s.lookup y.1 y.2 = some (.dir d)
  root_entry : ∀ p n, s.lookup p n ≠ some (.dir 0)
  acyclic : ∀ d, ¬Relation.TransGen s.Child d d
  linked : ∀ d < s.dirCount, d ∉ removed → s.Linked d

/-! ## Updates of the graph -/

variable {i : Nat} {e : Entry} {s' : FsState}

lemma Entry.dir?_eq_some : e.dir? = some i ↔ e = .dir i := by cases e <;> simp [Entry.dir?]

namespace FsState

variable {s : FsState} {d : Nat} {name : FileName} {e : Entry} {y : Nat × FileName}

lemma edges_eq_some : s.edges y = some i ↔ s.lookup y.1 y.2 = some (.dir i) := by
  simp only [edges, Option.bind_eq_some_iff, Entry.dir?_eq_some]
  constructor
  · rintro ⟨e, he, rfl⟩
    exact he
  · intro h
    exact ⟨_, h, rfl⟩

lemma edges_of_lookup (h : s.lookup y.1 y.2 = some e) : s.edges y = e.dir? := by simp [edges, h]

lemma edges_of_none (h : s.lookup y.1 y.2 = none) : s.edges y = none := by simp [edges, h]

lemma edges_put : (s.setItems d ((s.items d).insert name e)).edges = update s.edges (d, name) e.dir? := by
  funext ⟨p, n⟩
  simp only [edges, lookup_put]
  by_cases h : p = d ∧ n = name
  · obtain ⟨rfl, rfl⟩ := h
    simp
  · rw [if_neg h, update_of_ne (by simpa using h)]
    rfl

lemma edges_remove : (s.remove d name).edges = update s.edges (d, name) none := by
  funext ⟨p, n⟩
  simp only [edges, lookup_remove]
  by_cases h : p = d ∧ n = name
  · obtain ⟨rfl, rfl⟩ := h
    simp
  · rw [if_neg h, update_of_ne (by simpa using h)]
    rfl

@[simp] lemma edges_relocate : (s.relocate e d name).edges = s.edges := by
  funext y
  simp [edges]

@[simp] lemma par_setItems (m : Items) : (s.setItems d m).par = s.par := by
  funext p
  simp [par]

lemma par_relocate_dir (i : Nat) : (s.relocate (.dir i) d name).par = update s.par i d := by
  funext p
  by_cases hp : p = i
  · subst hp
    simp [par, location_relocate]
  · simp [par, location_relocate, hp, Ne.symm hp]

lemma par_newDir (fs : Nat) (own : Ownership) :
    (s.newDir fs (.directory d name) own).par = update s.par s.dirCount d := by
  funext p
  by_cases hp : p = s.dirCount
  · subst hp
    simp [par, location_newDir]
  · simp [par, location_newDir, hp]

lemma par_relocate (h : ∀ i, e = .dir i → s.par i = d) : (s.relocate e d name).par = s.par := by
  cases e with
  | dir i => rw [par_relocate_dir, ← h i rfl, update_eq_self]
  | _ => rfl

lemma replaced_eq_nil (h : s'.edges = s.edges) : s.replaced s' d name = [] := by
  simp only [replaced]
  split
  · rename_i i hl
    have hi : s'.edges (d, name) = some i := h ▸ edges_eq_some.2 hl
    rw [if_pos (edges_eq_some.1 hi)]
  · rfl

end FsState

variable {s : FsState}

lemma FsOp.removed_eq_nil (op : FsOp) (h : s'.edges = s.edges) : op.removed s s' = [] := by
  cases op <;> first | rfl | exact replaced_eq_nil h

/-! ## The invariant -/

structure TreeOk (s : FsState) (removed : List Nat) : Prop where
  tree : (s.forest removed).IsTree
  root : s.location 0 = .root
  unmounted : ∀ d n i, s.lookup d n ≠ some (.mount i)
  vacant : ∀ d n e, s.lookup d n = some e → (s.forest removed).live d
  kept : ∀ d, (s.forest removed).live d → s.dropped d = false
  created : ∀ d ∈ removed, d < s.dirCount
  fresh : ∀ d, s.dirCount ≤ d → s.dropped d = false

namespace TreeOk

variable {s : FsState} {removed removed' held : List Nat} {d p newDir : Nat} {name oldname newname : FileName}
  {e old new : Entry} {checkIsDir noReplace : Bool}

lemma child_eq (s : FsState) (removed : List Nat) : (s.forest removed).Child = s.Child := by
  funext p v
  exact propext (exists_congr fun n => edges_eq_some)

section

variable (h : TreeOk s removed)

include h

lemma live_of_linked (hd : s.Linked d) : (s.forest removed).live d := h.tree.live_of_reachable (child_eq s removed ▸ hd)

lemma shape : TreeShape s removed where
  one_entry d hd hne := by
    obtain ⟨y, hy⟩ := h.tree.linked d (h.live_of_linked hd) hne
    refine ⟨y, edges_eq_some.1 hy, fun z hz => h.tree.unique ?_ hy⟩
    exact edges_eq_some.2 hz
  root_entry p n hl := (h.tree.edge_parent (p, n) 0 (edges_eq_some.2 hl)).2 rfl
  acyclic d := child_eq s removed ▸ h.tree.acyclic d
  linked d hd hr := by
    have hlive : (s.forest removed).live d := ⟨hd, hr⟩
    rw [FsState.Linked, ← child_eq s removed]
    exact h.tree.reachable hlive

lemma files (f : Nat → File) (n : Nat) : TreeOk { s with files := f, fileCount := n } removed :=
  ⟨h.tree, h.root, h.unmounted, h.vacant, h.kept, h.created, h.fresh⟩

variable (hd : (s.forest removed).live d) (he : e.dir? = s.edges (d, name)) (hm : ∀ i, e ≠ .mount i)
include hd he hm

/-- Any change of one entry that leaves the edges as they are. -/
lemma put : TreeOk (s.setItems d ((s.items d).insert name e)) removed where
  tree := by
    refine h.tree.congr rfl ?_ (fun _ => Iff.rfl) fun v _ => congrFun (par_setItems _) v
    exact edges_put.trans (he ▸ update_eq_self ..)
  root := (location_setItems _).trans h.root
  unmounted p n i := by
    have := h.unmounted p n i
    rw [lookup_put]
    grind
  vacant p n e' := by
    have := h.vacant p n e'
    rw [lookup_put]
    show _ → (s.forest removed).live p
    grind
  kept := h.kept
  created := h.created
  fresh := h.fresh

lemma insert (hs : s.insert d name e = .ok s') : TreeOk s' removed ∧ s'.edges = s.edges := by
  obtain ⟨f, rfl⟩ := insert_eq hs
  exact ⟨(h.put hd he hm).files f s.fileCount, edges_put.trans (he ▸ update_eq_self ..)⟩

end

/-- The parts of the invariant beside the tree itself, when an entry goes away. -/
lemma remove_of_tree (h : TreeOk s removed) (ht : ((s.remove d name).forest removed').IsTree)
    (hv : ∀ p n e, (s.remove d name).lookup p n = some e → (s.forest removed').live p)
    (hsub : ∀ p, (s.forest removed').live p → (s.forest removed).live p)
    (hc : ∀ p ∈ removed', p < s.dirCount) : TreeOk (s.remove d name) removed' where
  tree := ht
  root := location_remove.trans h.root
  unmounted p n i := by
    have := h.unmounted p n i
    rw [lookup_remove]
    grind
  vacant := hv
  kept p hp := h.kept p (hsub p hp)
  created := hc
  fresh := h.fresh

lemma remove (h : TreeOk s removed) (he : s.edges (d, name) = none) : TreeOk (s.remove d name) removed := by
  refine h.remove_of_tree ?_ (fun p n e => ?_) (fun _ hp => hp) h.created
  · refine h.tree.congr rfl ?_ (fun _ => Iff.rfl) fun v _ => congrFun (par_setItems _) v
    exact edges_remove.trans (he ▸ update_eq_self ..)
  have := h.vacant p n e
  rw [lookup_remove]
  grind

lemma live_concat : (s.forest (removed ++ [i])).live p ↔ (s.forest removed).live p ∧ p ≠ i := by
  simp only [forest, mem_append, mem_singleton, not_or, and_assoc]

lemma empty_edges (hi : (s.items i).entries.isEmpty) (n : FileName) : s.lookup i n = none := by
  have he : (s.items i).entries = [] := by simpa using hi
  exact dlookup_eq_none.2 (by simp [List.keys, he])

lemma removeDir (h : TreeOk s removed) (hl : s.lookup d name = some (.dir i))
    (hi : (s.items i).entries.isEmpty) : TreeOk (s.remove d name) (removed ++ [i]) := by
  have hedge : s.edges (d, name) = some i := edges_eq_some.2 hl
  refine h.remove_of_tree ?_ (fun p n e hl' => ?_) (fun p hp => (live_concat.1 hp).1) fun p hp => ?_
  · have ht := h.tree.removeLeaf hedge fun k => edges_of_none (empty_edges hi k)
    refine ht.congr rfl edges_remove (fun v => ?_) fun v _ => congrFun (par_setItems _) v
    exact live_concat
  · rw [lookup_remove] at hl'
    split at hl'
    · cases hl'
    refine live_concat.2 ⟨h.vacant p n e hl', ?_⟩
    rintro rfl
    rw [empty_edges hi] at hl'
    cases hl'
  · rcases mem_append.1 hp with hp | hp
    · exact h.created p hp
    rw [mem_singleton.1 hp]
    exact (h.tree.edge_live _ i hedge).2.1

lemma lookup_dead (h : TreeOk s removed) (hd : ¬(s.forest removed).live d) (n : FileName) : s.lookup d n = none := by
  by_contra hs
  obtain ⟨e, he⟩ := Option.ne_none_iff_exists'.1 hs
  exact hd (h.vacant d n e he)

lemma fresh_dead : ¬(s.forest removed).live s.dirCount := fun hlive => absurd hlive.1 (lt_irrefl _)

lemma live_newDir (h : TreeOk s removed) :
    (p < s.dirCount + 1 ∧ p ∉ removed) ↔ (s.forest removed).live p ∨ p = s.dirCount := by
  constructor
  · rintro ⟨hlt, hr⟩
    by_cases hp : p = s.dirCount
    · exact .inr hp
    · exact .inl ⟨by omega, hr⟩
  · rintro (⟨hlt, hr⟩ | rfl)
    · exact ⟨by omega, hr⟩
    · exact ⟨by omega, fun hr => absurd (h.created _ hr) (lt_irrefl _)⟩

lemma addDir {own : Ownership} {fs : Nat} (h : TreeOk s removed) (hd : (s.forest removed).live d)
    (hl : s.lookup d name = none)
    (hs : (s.newDir fs (.directory d name) own).insert d name (.dir s.dirCount) = .ok s') : TreeOk s' removed := by
  obtain ⟨f, rfl⟩ := insert_eq hs
  refine TreeOk.files ?_ f _
  have hlook : ∀ p n, (s.newDir fs (.directory d name) own).lookup p n = s.lookup p n :=
    fun p n => lookup_newDir (h.lookup_dead fresh_dead) ..
  refine ⟨?_, ?_, fun p n i hl' => ?_, fun p n e hl' => ?_, fun p hp => ?_, fun p hp => ?_, fun p hp => ?_⟩
  · have ht := h.tree.addLeaf (y := (d, name)) hd (edges_of_none hl) fresh_dead
    refine ht.congr rfl ?_ (fun v => h.live_newDir) fun v _ => ?_
    · have hedges : (s.newDir fs (.directory d name) own).edges = s.edges := by
        funext y
        simp only [edges, hlook]
      refine edges_put.trans ?_
      rw [hedges]
      rfl
    · exact (congrFun (par_setItems _) v).trans (congrFun (par_newDir fs own) v)
  · have h0 : 0 < s.dirCount := h.tree.root_live.1
    rw [location_setItems, location_newDir, if_neg h0.ne]
    exact h.root
  · have := h.unmounted p n i
    rw [lookup_put, hlook] at hl'
    grind
  · have := h.vacant p n e
    rw [lookup_put, hlook] at hl'
    exact h.live_newDir.2 (.inl (by grind))
  · rcases h.live_newDir.1 hp with hp | rfl
    · exact h.kept p hp
    · exact h.fresh _ (le_refl _)
  · exact Nat.lt_succ_of_lt (h.created p hp)
  · exact h.fresh p (Nat.le_of_succ_le hp)

/-! ## Moving a directory -/

lemma parent_eq_par (h : s.parent d = .ok p) : p = s.par d := by
  simp only [parent] at h
  simp only [par]
  cases hl : s.location d with
  | root =>
    rw [hl] at h
    cases h
    rfl
  | directory q n | mount q n =>
    simp only [hl] at h
    split at h
    · cases h
    cases h
    rfl

lemma clear_of_walkUp (h : TreeOk s removed) {x fuel v : Nat} (hv : (s.forest removed).live v)
    (hw : s.walkUp (.dir x) fuel v = .ok (.ok ())) : Clear s.par 0 x v := by
  induction fuel generalizing v with
  | zero => cases hw
  | succ fuel ih =>
    simp only [walkUp] at hw
    split at hw
    · cases hw
    rename_i hx
    have hne : v ≠ x := fun he => hx (by simp [Entry.isNode, he])
    split at hw
    · cases hw
    rename_i p hp
    obtain rfl := parent_eq_par hp
    split at hw
    · rename_i hroot
      obtain rfl := (h.tree.grounded v hv).eq_root hroot
      exact .root hne
    rename_i hroot
    refine .step hne (ih (h.tree.parent_live v hv ?_) hw)
    rintro rfl
    exact hroot (by simp [par, forest, h.root])

/-- The new entry of the moved directory is the only one; `ht` is the tree with nothing at its new place. -/
lemma moveDir {x : Nat} (h : TreeOk s removed) (hl : s.lookup d oldname = some (.dir x))
    (hne : (d, oldname) ≠ (newDir, newname))
    (ht : Forest.IsTree { s.forest removed' with edge := update s.edges (newDir, newname) none })
    (hd : (s.forest removed').live newDir) (hc : Clear s.par 0 x newDir)
    (hsub : ∀ p, (s.forest removed').live p → (s.forest removed).live p)
    (hvac : ∀ p n e, s.lookup p n = some e → (s.forest removed').live p) (hcr : ∀ p ∈ removed', p < s.dirCount)
    (hs : s.move d oldname newDir newname (.dir x) = .ok s') : TreeOk s' removed' := by
  obtain ⟨f, rfl⟩ := insert_eq hs
  refine TreeOk.files ?_ f _
  refine ⟨?_, ?_, fun p n i hl' => ?_, fun p n e hl' => ?_, fun p hp => h.kept p (hsub p hp), hcr, h.fresh⟩
  · have hedge : update s.edges (newDir, newname) none (d, oldname) = some x := by
      rw [update_of_ne hne]
      exact edges_eq_some.2 hl
    have hmove := ht.move (z := (newDir, newname)) hedge (update_self ..) hd hc
    refine hmove.congr rfl ?_ (fun _ => Iff.rfl) fun v _ => ?_
    · refine edges_put.trans ?_
      rw [edges_relocate, edges_remove]
      rw [update_comm hne.symm, update_idem]
      rfl
    · refine (congrFun (par_setItems _) v).trans ?_
      rw [FsState.par_relocate_dir, FsState.remove, FsState.par_setItems]
      rfl
  · have h0 : x ≠ 0 := (h.tree.edge_parent (d, oldname) x (edges_eq_some.2 hl)).2
    rw [location_setItems, location_relocate, if_neg (by simpa using h0), location_remove]
    exact h.root
  · have := h.unmounted p n i
    rw [lookup_put, lookup_relocate, lookup_remove] at hl'
    grind
  · have := hvac p n e
    rw [lookup_put, lookup_relocate, lookup_remove] at hl'
    have : (s.forest removed').live p := by grind
    exact this

/-! ## Exchanging the names of two entries -/

lemma update_update_eq_swap {α β : Type} [DecidableEq α] (f : α → β) (a b : α) :
    update (update f b (f a)) a (f b) = f ∘ Equiv.swap a b := by
  funext z
  simp only [update_apply, Function.comp_apply, Equiv.swap_apply_def]
  grind

/-- Two entries change places: the edges of the new state. -/
lemma edges_swap (hold : s.lookup d oldname = some old) (hnew : s.lookup newDir newname = some new)
    (hs : s.swap d oldname newDir newname new old = .ok s') :
    s'.edges = s.edges ∘ Equiv.swap (d, oldname) (newDir, newname) := by
  obtain ⟨f, rfl⟩ := insert_eq hs
  refine edges_put.trans ?_
  obtain ⟨g, hg⟩ := clone_eq (s := s) (e := old)
  rw [edges_relocate, hg, ← update_update_eq_swap]
  have ho : s.edges (d, oldname) = old.dir? := edges_of_lookup hold
  have hn : s.edges (newDir, newname) = new.dir? := edges_of_lookup hnew
  rw [ho, hn]
  exact congrArg (update · (d, oldname) new.dir?) edges_put

lemma lookup_swap (hs : s.swap d oldname newDir newname new old = .ok s') (p : Nat) (n : FileName) :
    s'.lookup p n = if p = d ∧ n = oldname then some new
      else if p = newDir ∧ n = newname then some old else s.lookup p n := by
  obtain ⟨f, rfl⟩ := insert_eq hs
  obtain ⟨g, hg⟩ := clone_eq (s := s) (e := old)
  refine lookup_put.trans ?_
  rw [lookup_relocate, hg]
  congr 1
  exact lookup_put

/-- `exchange` within a directory, or of two entries that are no directories. -/
lemma swap (h : TreeOk s removed) (hold : s.lookup d oldname = some old) (hnew : s.lookup newDir newname = some new)
    (hk : d = newDir ∨ s.edges (d, oldname) = none ∧ s.edges (newDir, newname) = none)
    (hs : s.swap d oldname newDir newname new old = .ok s') : TreeOk s' removed := by
  have hedges := edges_swap hold hnew hs
  have hpar : s'.par = s.par := by
    obtain ⟨f, rfl⟩ := insert_eq hs
    obtain ⟨g, hg⟩ := clone_eq (s := s) (e := old)
    refine (par_setItems _).trans ?_
    rw [hg]
    refine (par_relocate fun i hi => ?_).trans (par_setItems _)
    subst hi
    refine (congrFun (par_setItems _) i).trans ?_
    exact (h.tree.edge_parent (newDir, newname) i (edges_eq_some.2 hnew)).1
  have hsame : s'.dirCount = s.dirCount ∧ s'.dropped = s.dropped := by
    obtain ⟨f, rfl⟩ := insert_eq hs
    cases old <;> cases new <;> exact ⟨rfl, rfl⟩
  have hlive : ∀ v, (s'.forest removed).live v ↔ (s.forest removed).live v := by
    intro v
    simp only [forest, hsame.1]
  refine ⟨?_, ?_, fun p n i hl => ?_, fun p n e hl => ?_, fun p hp => ?_, ?_, ?_⟩
  · rcases hk with rfl | ⟨ho, hn⟩
    · have hp := h.tree.permute (Equiv.swap (d, oldname) (d, newname)) fun y => by
        rw [Equiv.swap_apply_def]
        grind
      exact hp.congr rfl hedges hlive fun v _ => congrFun hpar v
    · refine h.tree.congr rfl ?_ hlive fun v _ => congrFun hpar v
      refine hedges.trans ((update_update_eq_swap ..).symm.trans ?_)
      rw [ho, ← hn, update_eq_self, hn, ← ho, update_eq_self]
      rfl
  · have h0 : new ≠ .dir 0 := by
      rintro rfl
      exact (h.tree.edge_parent (newDir, newname) 0 (edges_eq_some.2 hnew)).2 rfl
    obtain ⟨f, rfl⟩ := insert_eq hs
    obtain ⟨g, hg⟩ := clone_eq (s := s) (e := old)
    refine (location_setItems _).trans ?_
    rw [location_relocate, if_neg h0, location_setItems, hg]
    exact h.root
  · have := h.unmounted
    rw [lookup_swap hs] at hl
    grind
  · have := h.vacant
    rw [lookup_swap hs] at hl
    exact (hlive p).2 (by grind)
  · rw [hsame.2]
    exact h.kept p ((hlive p).1 hp)
  · rw [hsame.1]
    exact h.created
  · rw [hsame.1, hsame.2]
    exact h.fresh

/-! ## Renames -/

lemma canReplace_cases {n : Entry} (hc : s.canReplace held e n = .ok (.ok ())) :
    (e.dir? = none ∧ n.dir? = none) ∨ ∃ x y, e = .dir x ∧ n = .dir y ∧ (s.items y).entries.isEmpty := by
  cases e with
  | dir x =>
    cases n with
    | dir y =>
      simp only [canReplace] at hc
      split at hc
      · cases hc
      split at hc
      · exact .inr ⟨x, y, rfl, rfl, ‹_›⟩
      · cases hc
    | _ => simp [canReplace] at hc
  | mount i => simp [canReplace] at hc
  | _ =>
    cases n with
    | dir y => simp [canReplace] at hc
    | _ => exact .inl ⟨rfl, rfl⟩

/-- Nothing is replaced, a non-directory replaces another one, or a directory an empty one. -/
lemma canRename_cases {new : Option Entry} (hc : s.canRename held e new checkIsDir = .ok (.ok ())) :
    new = none ∨ (e.dir? = none ∧ new.bind Entry.dir? = none) ∨
      ∃ x y, e = .dir x ∧ new = some (.dir y) ∧ (s.items y).entries.isEmpty := by
  simp only [canRename] at hc
  split at hc
  · cases hc
  split at hc
  · exact .inl rfl
  rcases canReplace_cases hc with ⟨he, hn⟩ | ⟨x, y, he, hn, hi⟩
  · exact .inr (.inl ⟨he, hn⟩)
  · exact .inr (.inr ⟨x, y, he, congrArg some hn, hi⟩)

variable (h : TreeOk s removed)
include h

lemma moveOther (hl : s.lookup d oldname = some e) (he : e.dir? = none)
    (hd : (s.forest removed).live newDir) (hnew : s.edges (newDir, newname) = none)
    (hs : s.move d oldname newDir newname e = .ok s') : TreeOk s' removed ∧ s'.edges = s.edges := by
  have hedge : s.edges (d, oldname) = none := (edges_of_lookup hl).trans he
  have hr : (s.remove d oldname).relocate e newDir newname = s.remove d oldname := by cases e <;> first | rfl | cases he
  simp only [move, hr] at hs
  have hedges : (s.remove d oldname).edges = s.edges :=
    edges_remove.trans (hedge ▸ update_eq_self ..)
  have hm : ∀ i, e ≠ .mount i := by
    rintro i rfl
    exact h.unmounted d oldname i hl
  obtain ⟨hok, heq⟩ := (h.remove hedge).insert hd (by rw [hedges, hnew, he]) hm hs
  exact ⟨hok, heq.trans hedges⟩

lemma rename (hd : (s.forest removed).live newDir)
    (hl : s.lookup d oldname = some e) (hn : d = newDir → newname ≠ oldname)
    (ha : d ≠ newDir → s.checkAncestors e newDir = .ok (.ok ()))
    (hc : s.canRename held e (s.lookup newDir newname) checkIsDir = .ok (.ok ()))
    (hs : s.move d oldname newDir newname e = .ok s') :
    TreeOk s' (removed ++ FsOp.removed s s' (.rename d oldname checkIsDir newDir newname noReplace)) := by
  set op : FsOp := .rename d oldname checkIsDir newDir newname noReplace
  have hne : (d, oldname) ≠ (newDir, newname) := by
    rintro he
    obtain ⟨rfl, rfl⟩ := Prod.mk.inj he
    exact hn rfl rfl
  cases hdir : e.dir? with
  | none =>
    have hnew : s.edges (newDir, newname) = none := by
      rcases canRename_cases hc with hnone | ⟨-, hnone⟩ | ⟨x, y, rfl, -, -⟩
      · exact edges_of_none hnone
      · exact hnone
      · cases hdir
    obtain ⟨hok, hedges⟩ := h.moveOther hl hdir hd hnew hs
    rw [FsOp.removed_eq_nil _ hedges, append_nil]
    exact hok
  | some x =>
    obtain rfl := Entry.dir?_eq_some.1 hdir
    have hx : s.edges (d, oldname) = some x := edges_eq_some.2 hl
    have hclear : Clear s.par 0 x newDir := by
      by_cases hdd : d = newDir
      · exact hdd ▸ h.tree.clear_parent hx
      · exact h.clear_of_walkUp hd (ha hdd)
    rcases canRename_cases hc with hnone | ⟨hcon, -⟩ | ⟨x', y, -, hy, hempty⟩
    · -- the name is free
      have hnil : FsOp.removed s s' op = [] := by
        simp only [op, FsOp.removed, replaced, hnone]
      have hfree : s.edges (newDir, newname) = none := edges_of_none hnone
      rw [hnil, append_nil]
      refine h.moveDir hl hne ?_ hd hclear (fun _ hp => hp) h.vacant h.created hs
      rw [← hfree, update_eq_self]
      exact h.tree
    · cases hcon
    -- an empty directory is replaced: it is cut off first
    have hey : s.edges (newDir, newname) = some y := edges_eq_some.2 hy
    have hxy : x ≠ y := by
      rintro rfl
      exact hne (h.tree.unique hx hey)
    have hrem : FsOp.removed s s' op = [y] := by
      have hl' : s'.lookup newDir newname = some (.dir x) := by
        obtain ⟨f, rfl⟩ := insert_eq hs
        exact lookup_put.trans (if_pos ⟨rfl, rfl⟩)
      simp only [op, FsOp.removed, replaced, hy, hl']
      simpa using hxy
    have hvac : ∀ p n e, s.lookup p n = some e → (s.forest (removed ++ [y])).live p := by
      intro p n e he
      refine live_concat.2 ⟨h.vacant p n e he, ?_⟩
      rintro rfl
      rw [empty_edges hempty] at he
      cases he
    rw [hrem]
    refine h.moveDir hl hne ?_ (hvac newDir newname _ hy) hclear (fun _ hp => (live_concat.1 hp).1) hvac ?_ hs
    · have ht := h.tree.removeLeaf hey fun k => edges_of_none (empty_edges hempty k)
      exact ht.congr rfl rfl (fun v => live_concat) fun v _ => rfl
    intro p hp
    rcases mem_append.1 hp with hp | hp
    · exact h.created p hp
    rw [mem_singleton.1 hp]
    exact (h.tree.edge_live _ y hey).2.1

/-- Only a removed directory can be freed. -/
lemma release (hd : d < s.dirCount) (hs : s.release d = .ok s') :
    TreeOk s' removed ∧ s'.edges = s.edges := by
  simp only [FsState.release] at hs
  split at hs
  · cases hs
    exact ⟨h, rfl⟩
  rename_i hcond
  simp only [not_or] at hcond
  obtain ⟨h0, -, href⟩ := hcond
  have hdead : ¬(s.forest removed).live d := by
    intro hlive
    obtain ⟨⟨p, n⟩, hy⟩ := h.tree.linked d hlive h0
    have hlook := edges_eq_some.1 hy
    exact href (referred_of_lookup hlook (h.vacant p n _ hlook).1 (by simp [Entry.isNode]))
  have hlook : ∀ p n, (s.setItems d ∅).lookup p n = s.lookup p n := by
    intro p n
    rw [lookup_clear]
    split
    · rename_i hp
      rw [hp, h.lookup_dead hdead]
    · rfl
  have hedges : (s.setItems d ∅).edges = s.edges := by
    funext y
    simp only [edges, hlook]
  obtain ⟨f, rfl⟩ := dropAll_eq hs
  refine ⟨TreeOk.files ?_ f _, hedges⟩
  refine ⟨?_, ?_, fun p n i hl => ?_, fun p n e hl => ?_, fun p hp => ?_, h.created, fun p hp => ?_⟩
  · exact h.tree.congr rfl hedges (fun _ => Iff.rfl) fun v _ => congrFun (par_setItems _) v
  · exact (location_setItems _).trans h.root
  · exact h.unmounted p n i ((hlook p n).symm.trans hl)
  · exact h.vacant p n e ((hlook p n).symm.trans hl)
  · exact (update_of_ne (fun he : p = d => hdead (he ▸ hp)) ..).trans (h.kept p hp)
  have hpd : p ≠ d := fun he => absurd (he ▸ hp : s.dirCount ≤ d) (by omega)
  exact (update_of_ne hpd ..).trans (h.fresh p hp)

end TreeOk

/-! ## Runs -/

/-- `exchange` moves no directory to another one, and `create_link` replaces no directory. -/
def FsOp.Keeps (s : FsState) : FsOp → Prop
  | .exchange d oldname newDir newname => ∀ old new, s.lookup d oldname = some old →
    s.lookup newDir newname = some new → d = newDir ∨ old.dir? = none ∧ new.dir? = none
  | .createLink d name _ _ _ createNew => createNew = true ∨ s.edges (d, name) = none
  | _ => True

lemma Entry.Loose.dir? (h : e.Loose) : e.dir? = none := by cases e <;> first | rfl | exact h.elim

lemma Entry.Loose.ne_mount (h : e.Loose) (i : Nat) : e ≠ .mount i := by
  rintro rfl
  exact h

lemma Effect.treeOk {op : FsOp} {removed : List Nat} (h : Effect s op (.ok s'))
    (hd : ∀ d ∈ op.dirs, s.Live d) (ho : op.OnTree s) (hk : op.Keeps s) (ht : TreeOk s removed) :
    TreeOk s' (removed ++ op.removed s s') := by
  -- a change that leaves the edges alone removes nothing
  have hsame : TreeOk s' removed ∧ s'.edges = s.edges → TreeOk s' (removed ++ op.removed s s') := by
    rintro ⟨hok, hedges⟩
    rw [op.removed_eq_nil hedges, append_nil]
    exact hok
  generalize hx : Except.ok s' = x at h
  cases h with
  | same =>
    cases hx
    exact hsame ⟨ht, rfl⟩
  | hang => cases hx
  | @file d name own hl =>
    have hlive := ht.live_of_linked (ho.2 d (mem_singleton_self d))
    have hfile : (Entry.file s.fileCount).dir? = (s.newFile own).edges (d, name) :=
      (edges_of_none (y := (d, name)) hl).symm
    have ht' : TreeOk (s.newFile own) removed := ht.files _ _
    exact hsame (ht'.insert hlive hfile (by simp) hx.symm)
  | @dir d name own hl =>
    have hlive := ht.live_of_linked (ho.2 d (mem_singleton_self d))
    simp only [FsOp.removed, append_nil]
    exact ht.addDir hlive hl hx.symm
  | @node _ d name e hmem he hl =>
    have hlive := ht.live_of_linked (ho.2 d (FsOp.mem_targets hmem))
    have hedge : s.edges (d, name) = none := by
      rcases hl with hl | ⟨target, uid, gid, rfl⟩
      · exact edges_of_none hl
      · exact hk.resolve_left (by simp)
    exact hsame (ht.insert hlive (he.dir?.trans hedge.symm) he.ne_mount hx.symm)
  | mount => exact absurd rfl (ho.1 _ _ _)
  | @delete _ d name e hmem hl hty =>
    obtain ⟨f, rfl⟩ := drop_eq hx.symm
    cases hdir : e.dir? with
    | none =>
      have hedge : s.edges (d, name) = none := (edges_of_lookup hl).trans hdir
      refine hsame ⟨(ht.remove hedge).files f _, ?_⟩
      exact edges_remove.trans (hedge ▸ update_eq_self ..)
    | some i =>
      obtain rfl := Entry.dir?_eq_some.1 hdir
      obtain ⟨rfl, hempty⟩ := hty rfl
      have hrem : FsOp.removed s { s.remove d name with files := f } (.deleteDir d name) = [i] := by
        have hl' : lookup { s.remove d name with files := f } d name = none :=
          lookup_remove.trans (if_pos ⟨rfl, rfl⟩)
        simp only [FsOp.removed, replaced, hl, hl']
        rfl
      rw [hrem]
      exact (ht.removeDir hl hempty).files f _
  | @move d oldname _ newDir newname _ _ e hfs hl hn ha hc =>
    have hlive := ht.live_of_linked (ho.2 newDir (by simp [FsOp.targets]))
    exact ht.rename hlive hl hn ha hc hx.symm
  | @swap d oldname newDir newname old new hfs hold hnew hne =>
    simp only [FsOp.removed, append_nil]
    refine ht.swap hold hnew ((hk old new hold hnew).imp_right fun h => ?_) hx.symm
    exact ⟨(edges_of_lookup hold).trans h.1, (edges_of_lookup hnew).trans h.2⟩
  | @link d oldname _ newDir newname e hl hty hnew =>
    have hlive := ht.live_of_linked (ho.2 newDir (by simp [FsOp.targets]))
    have hdir : e.dir? = none := by cases e <;> first | rfl | exact absurd rfl hty
    have hm : ∀ i, e ≠ .mount i := by
      rintro i rfl
      exact hty rfl
    obtain ⟨f, hf⟩ := clone_eq (s := s) (e := e)
    rw [hf] at hx
    exact hsame ((ht.files f _).insert hlive (hdir.trans (edges_of_none hnew).symm) hm hx.symm)
  | release d => exact hsame (ht.release (hd d (mem_singleton_self _)).1 hx.symm)

lemma treeOk_new : TreeOk .new [] := by
  have hlook : ∀ d n, new.lookup d n = none := fun d n => rfl
  have hedge : ∀ y, new.edges y = none := fun y => edges_of_none (hlook y.1 y.2)
  refine ⟨⟨⟨by decide, not_mem_nil⟩, fun y v hy => ?_, fun y v hy => ?_, fun y z v hy => ?_,
    fun v hv hr => ?_, fun v hv => ?_⟩, rfl, fun d n i hl => ?_, fun d n e hl => ?_, fun d _ => rfl,
    fun d hd => absurd hd not_mem_nil, fun d _ => rfl⟩
  iterate 3 cases (hedge y).symm.trans hy
  · exact absurd (Nat.lt_one_iff.1 hv.1) hr
  · obtain rfl := Nat.lt_one_iff.1 hv.1
    exact .root
  all_goals cases (hlook d n).symm.trans hl

lemma treeOk_inductive : (tmpfsTree fun s op => op.Keeps s).Inductive fun x => TreeOk x.1 x.2 where
  init := by
    rintro _ rfl
    exact treeOk_new
  step := by
    rintro ⟨s, removed⟩ op ⟨s', removed'⟩ ht ⟨ho, hk, hnext, hr⟩
    obtain ⟨hd, he⟩ := step_effect hnext
    obtain rfl : removed' = removed ++ op.removed s s' := hr
    exact he.treeOk hd ho hk ht

/-- In every run on linked directories in which `exchange` moves no directory to another one and `create_link`
replaces no directory, the directories form a tree. -/
theorem directories_form_tree {s : FsState} {removed : List Nat}
    (h : (tmpfsTree fun s op => op.Keeps s).Reachable (s, removed)) : TreeShape s removed :=
  (treeOk_inductive.reachable _ h).shape

/-- The directories `/a` (1) and `/a/b` (2). -/
def nested : FsState :=
  (LTS.runFn next .new [.createDir 0 nameA ⟨0o755, 0, 0⟩, .createDir 1 nameB ⟨0o755, 0, 0⟩]).getD .new

lemma nested_reachable {C : FsState → FsOp → Prop} (hC : ∀ s d name own, C s (.createDir d name own)) :
    (tmpfsTree C).Reachable (nested, []) := by
  let s1 := (new.next (.createDir 0 nameA ⟨0o755, 0, 0⟩)).getD .new
  have h1 : (tmpfsTree C).step (new, []) (.createDir 0 nameA ⟨0o755, 0, 0⟩) (s1, []) :=
    ⟨⟨by simp, fun d hd => mem_singleton.1 hd ▸ .refl⟩, hC .., rfl, rfl⟩
  have hlink : s1.Linked 1 := .single ⟨nameA, rfl⟩
  have h2 : (tmpfsTree C).step (s1, []) (.createDir 1 nameB ⟨0o755, 0, 0⟩) (nested, []) :=
    ⟨⟨by simp, fun d hd => mem_singleton.1 hd ▸ hlink⟩, hC .., rfl, rfl⟩
  exact ⟨_, _, rfl, .cons h1 (.cons h2 (.nil _))⟩

lemma nested_linked : ∀ d ∈ [0, 1], nested.Linked d := by
  intro d hd
  rcases mem_pair.1 hd with rfl | rfl
  · exact .refl
  · exact .single ⟨nameA, rfl⟩

/-- `/a/b` is moved to `/b`. -/
theorem directories_form_tree_rename : ∃ s, (tmpfsTree fun s op => op.Keeps s).Reachable (s, []) ∧
    s.lookup 0 nameB = some (.dir 2) ∧ TreeShape s [] := by
  let s := (nested.next (.rename 1 nameB true 0 nameB false)).getD .new
  have hst : (tmpfsTree fun s op => op.Keeps s).step (nested, []) (.rename 1 nameB true 0 nameB false) (s, []) :=
    ⟨⟨by simp, fun d hd => nested_linked d (by simpa [FsOp.targets, or_comm] using hd)⟩, trivial, rfl, rfl⟩
  have hr := (nested_reachable fun _ _ _ _ => trivial).run (.cons hst (.nil _))
  exact ⟨s, hr, rfl, directories_form_tree hr⟩

/-- `exchange` of `/a` with `/a/b` hangs `/a` up below itself. -/
theorem exchange_makes_cycle : ∃ s, (tmpfsTree fun _ _ => True).Reachable (s, []) ∧
    s.lookup 1 nameB = some (.dir 1) ∧ ¬TreeShape s [] := by
  let s := (nested.next (.exchange 0 nameA 1 nameB)).getD .new
  have hself : s.lookup 1 nameB = some (.dir 1) := rfl
  have hst : (tmpfsTree fun _ _ => True).step (nested, []) (.exchange 0 nameA 1 nameB) (s, []) :=
    ⟨⟨by simp, fun d hd => nested_linked d (by simpa [FsOp.targets] using hd)⟩, trivial, rfl, rfl⟩
  have hr := (nested_reachable fun _ _ _ _ => trivial).run (.cons hst (.nil _))
  exact ⟨s, hr, hself, fun h => h.acyclic 1 (.single ⟨nameB, hself⟩)⟩

end Mushroom.L5
