import Mushroom.L5Files.TmpFs

/-!
# What a tmpfs call does to the state

`Effect s op x` lists every change a call can make, with the checks that were
passed before it; `exec_effect` says that there is no other. The invariants of
the directory graph and of the link counts are proved over `Effect` and never
open the calls again.
-/
namespace Mushroom.L5
open List L1 FsState

/-! ## Reading the tables after an update -/

namespace FsState

variable {s s' : FsState} {d p : Nat} {name n : FileName} {e : Entry}

lemma lookup_put : (s.setItems d ((s.items d).insert name e)).lookup p n =
    if p = d ∧ n = name then some e else s.lookup p n := by
  by_cases hp : p = d
  · subst hp
    by_cases hn : n = name
    · subst hn
      simp [lookup, items, setItems]
    · simp [lookup, items, setItems, hn, AList.lookup_insert_ne hn]
  · simp [lookup, items, setItems, hp]

lemma lookup_remove : (s.remove d name).lookup p n = if p = d ∧ n = name then none else s.lookup p n := by
  by_cases hp : p = d
  · subst hp
    by_cases hn : n = name
    · subst hn
      simp [lookup, items, setItems, remove]
    · simp [lookup, items, setItems, remove, hn, AList.lookup_erase_ne hn]
  · simp [lookup, items, setItems, remove, hp]

lemma lookup_clear : (s.setItems d ∅).lookup p n = if p = d then none else s.lookup p n := by
  by_cases hp : p = d
  · subst hp
    simp [lookup, items, setItems]
  · simp [lookup, items, setItems, hp]

@[simp] lemma items_setLocation (l : Location) : (s.setLocation d l).items p = s.items p := by
  by_cases hp : p = d <;> simp [items, setLocation, hp]

@[simp] lemma items_relocate : (s.relocate e d name).items p = s.items p := by cases e <;> simp [relocate]

@[simp] lemma lookup_relocate : (s.relocate e d name).lookup p n = s.lookup p n := by simp [lookup]

@[simp] lemma location_setItems (m : Items) : (s.setItems d m).location p = s.location p := by
  by_cases hp : p = d
  · subst hp
    simp [location, setItems]
  · simp [location, setItems, hp]

@[simp] lemma location_remove : (s.remove d name).location p = s.location p := location_setItems _

lemma location_relocate : (s.relocate e d name).location p =
    if e = .dir p then .directory d name else s.location p := by
  cases e with
  | dir i =>
    by_cases hp : p = i
    · subst hp
      simp [location, relocate, setLocation]
    · simp [location, relocate, setLocation, hp, Ne.symm hp]
  | _ => simp [relocate]

lemma location_newDir (fs : Nat) (l : Location) (own : Ownership) : (s.newDir fs l own).location p =
    if p = s.dirCount then l else s.location p := by
  by_cases hp : p = s.dirCount <;> simp [location, newDir, hp]

@[simp] lemma items_clone : (s.clone e).items p = s.items p := by cases e <;> rfl

@[simp] lemma lookup_clone : (s.clone e).lookup p n = s.lookup p n := by simp [lookup]

lemma lookup_newDir (h : ∀ n, s.lookup s.dirCount n = none) (fs : Nat) (l : Location) (own : Ownership) :
    (s.newDir fs l own).lookup p n = s.lookup p n := by
  by_cases hp : p = s.dirCount
  · rw [hp, h]
    simp [lookup, items, newDir]
  · simp [lookup, items, newDir, hp]

lemma drop_eq (h : s.drop e = .ok s') : ∃ f, s' = { s with files := f } := by
  cases e with
  | file i =>
    simp only [drop] at h
    split at h
    · cases h
    cases h
    exact ⟨_, rfl⟩
  | _ =>
    cases h
    exact ⟨s.files, rfl⟩

lemma clone_eq : ∃ f, s.clone e = { s with files := f } := by
  cases e with
  | file i => exact ⟨_, rfl⟩
  | _ => exact ⟨s.files, rfl⟩

lemma insert_eq (h : s.insert d name e = .ok s') :
    ∃ f, s' = { s.setItems d ((s.items d).insert name e) with files := f } := by
  simp only [insert] at h
  cases hl : s.lookup d name with
  | none =>
    rw [hl] at h
    cases h
    exact ⟨s.files, rfl⟩
  | some old =>
    rw [hl] at h
    exact drop_eq h

lemma dropAll_eq {es : List Entry} (h : s.dropAll es = .ok s') : ∃ f, s' = { s with files := f } := by
  induction es generalizing s with
  | nil =>
    cases h
    exact ⟨s'.files, rfl⟩
  | cons e es ih =>
    simp only [dropAll] at h
    cases hd : s.drop e with
    | error st =>
      rw [hd] at h
      cases h
    | ok s1 =>
      rw [hd] at h
      obtain ⟨f, rfl⟩ := drop_eq hd
      obtain ⟨g, rfl⟩ := ih h
      exact ⟨g, rfl⟩

lemma referred_of_lookup (hl : s.lookup p n = some e) (hp : p < s.dirCount) (he : e.isNode d) : s.referred d := by
  refine any_eq_true.2 ⟨p, mem_range.2 hp, any_eq_true.2 ⟨e, ?_, he⟩⟩
  exact mem_map.2 ⟨⟨n, e⟩, of_mem_dlookup hl, rfl⟩

/-- An entry that is cloned and dropped again leaves no trace. -/
lemma clone_drop : (s.clone e).drop e = .ok s := by
  cases e with
  | file i => simp [clone, drop, setLinks]
  | _ => rfl

end FsState

/-! ## The changes of a call -/

/-- No link count and no location is kept for the node. -/
def Entry.Loose : Entry → Prop
  | .symlink .. | .charDev .. | .fifo _ => True
  | _ => False

variable {d : Nat} {op : FsOp} {s' : FsState}

lemma FsOp.mem_targets (h : d ∈ op.changes) : d ∈ op.targets := by
  cases op <;> first | exact h | exact mem_cons_of_mem _ h

lemma FsOp.mem_dirs (h : d ∈ op.changes) : d ∈ op.dirs := by cases op <;> first | exact FsOp.mem_targets h | cases h

inductive Effect (s : FsState) : FsOp → Except Stuck FsState → Prop where
  | same (op : FsOp) : Effect s op (.ok s)
  | hang (op : FsOp) : Effect s op (.error .hang)
  | file {d : Nat} {name : FileName} {own : Ownership} : s.lookup d name = none →
      Effect s (.createFile d name own) ((s.newFile own).insert d name (.file s.fileCount))
  | dir {d : Nat} {name : FileName} {own : Ownership} : s.lookup d name = none →
      Effect s (.createDir d name own)
        ((s.newDir (s.dirs d).fs (.directory d name) own).insert d name (.dir s.dirCount))
  | node {op : FsOp} {d : Nat} {name : FileName} {e : Entry} : d ∈ op.changes → e.Loose →
      (s.lookup d name = none ∨ ∃ target uid gid, op = .createLink d name target uid gid false) →
      Effect s op (s.insert d name e)
  | mount {d : Nat} {name : FileName} {own : Ownership} :
      Effect s (.mount d name own) ((s.newDir s.dirCount (.mount d name) own).insert d name (.mount s.dirCount))
  | delete {op : FsOp} {d : Nat} {name : FileName} {e : Entry} : d ∈ op.changes → s.lookup d name = some e →
      (e.ty = .dir → op = .deleteDir d name ∧ s.isEmptyDir e) → Effect s op ((s.remove d name).drop e)
  | move {d : Nat} {oldname : FileName} {checkIsDir : Bool} {newDir : Nat} {newname : FileName}
      {noReplace : Bool} {held : List Nat} {e : Entry} : (s.dirs newDir).fs = (s.dirs d).fs →
      s.lookup d oldname = some e → (d = newDir → newname ≠ oldname) →
        (d ≠ newDir → s.checkAncestors e newDir = .ok (.ok ())) →
      s.canRename held e (s.lookup newDir newname) checkIsDir = .ok (.ok ()) →
      Effect s (.rename d oldname checkIsDir newDir newname noReplace) (s.move d oldname newDir newname e)
  | swap {d : Nat} {oldname : FileName} {newDir : Nat} {newname : FileName} {old new : Entry} :
      (s.dirs newDir).fs = (s.dirs d).fs → s.lookup d oldname = some old → s.lookup newDir newname = some new →
      ¬(d = newDir ∧ newname = oldname) →
      Effect s (.exchange d oldname newDir newname) (s.swap d oldname newDir newname new old)
  | link {d : Nat} {oldname : FileName} {followSymlink : Bool} {newDir : Nat} {newname : FileName}
      {e : Entry} : s.lookup d oldname = some e → e.ty ≠ .dir → s.lookup newDir newname = none →
      Effect s (.hardLink d oldname followSymlink newDir newname) ((s.clone e).insert newDir newname e)
  | release (d : Nat) : Effect s (.release d) (s.release d)

def Out.state {α : Type} (o : Out α) : Except Stuck FsState := o.map fun x => x.2

variable {α : Type} {s : FsState} {held : List Nat} {old : Entry} {checkIsDir : Bool}
  {name oldname newname : FileName} {newDir : Nat}

@[simp] lemma Out.state_unit (o : Out α) : (Out.unit o).state = o.state := by cases o <;> rfl

@[simp] lemma FsState.state_done (x : Except Stuck FsState) (a : α) : (done x a).state = x := by cases x <;> rfl

@[simp] lemma FsState.state_fail (s : FsState) (e : ErrorKind) : (s.fail e : Out α).state = .ok s := rfl

variable {s : FsState}

lemma FsState.state_check {c : Except Stuck (Except ErrorKind Unit)}
    {k : Out α} (hc : c ≠ .error .underflow) (hk : c = .ok (.ok ()) → Effect s op k.state) :
    Effect s op (s.check c k).state := by
  rcases c with st | e | ⟨⟩
  · cases st with
    | hang => exact .hang op
    | underflow => exact absurd rfl hc
  · exact .same op
  · exact hk rfl

lemma FsState.canReplace_ne {new : Entry} : s.canReplace held old new ≠ .error .underflow := by
  cases old <;> cases new <;> simp only [canReplace, ne_eq, reduceCtorEq, not_false_eq_true]
  split
  · simp
  · split <;> simp

lemma FsState.canRename_ne {new : Option Entry} : s.canRename held old new checkIsDir ≠ .error .underflow := by
  simp only [canRename]
  split
  · simp
  split
  · simp
  · exact canReplace_ne

lemma FsState.walkUp_ne {e : Entry} {fuel : Nat} : s.walkUp e fuel d ≠ .error .underflow := by
  induction fuel generalizing d with
  | zero => simp [walkUp]
  | succ fuel ih =>
    simp only [walkUp]
    split
    · simp
    split
    · simp
    split
    · simp
    · exact ih

lemma createNode_effect (hd : d ∈ op.changes) {e : Entry}
    (he : e.Loose) : Effect s op (s.createNode d name e).state := by
  simp only [createNode]
  split
  · rw [state_done]
    exact .node hd he (.inl ‹_›)
  · exact .same op

lemma createLink_effect {target : Path} {uid gid : BitVec 32}
    {createNew : Bool} : Effect s (.createLink d name target uid gid createNew)
      (s.createLink d name target uid gid createNew).state := by
  simp only [createLink]
  split
  · rw [state_done]
    exact .node (mem_singleton_self d) trivial (.inl ‹_›)
  split
  · exact .same _
  rename_i hc
  rw [state_done]
  refine .node (mem_singleton_self d) trivial (.inr ⟨target, uid, gid, ?_⟩)
  rw [Bool.eq_false_of_not_eq_true hc]

lemma delete_effect : (op = .deleteNonDir d name → Effect s op (s.deleteNonDir d name).state) ∧
      (op = .deleteDir d name → Effect s op (s.deleteDir d name).state) := by
  constructor
  · rintro rfl
    simp only [deleteNonDir]
    split
    · exact .same _
    split
    · exact .hang _
    split
    · exact .same _
    rename_i hl _ hty
    rw [state_done]
    exact .delete (mem_singleton_self d) hl fun h => absurd h hty
  rintro rfl
  simp only [deleteDir]
  split
  · exact .same _
  split
  · exact .hang _
  split
  · exact .same _
  split
  · exact .same _
  rename_i hl _ _ hempty
  rw [state_done]
  exact .delete (mem_singleton_self d) hl fun _ => ⟨rfl, by simpa using hempty⟩

lemma rename_effect {noReplace : Bool} : Effect s (.rename d oldname checkIsDir newDir newname noReplace)
      (s.rename d oldname checkIsDir newDir newname noReplace).state := by
  simp only [rename]
  split
  · exact .same _
  rename_i hfs
  split
  · exact .same _
  rename_i hl
  split
  · rename_i hd
    subst hd
    split
    · split
      · exact .same _
      · exact state_check canRename_ne fun _ => .same _
    rename_i hne
    split
    · exact .same _
    refine state_check canRename_ne fun hc => ?_
    rw [state_done]
    exact .move (not_not.1 hfs) hl (fun _ => hne) (fun h => absurd rfl h) hc
  · rename_i hd
    refine state_check walkUp_ne fun ha => ?_
    refine state_check canRename_ne fun hc => ?_
    split
    · exact .same _
    rw [state_done]
    exact .move (not_not.1 hfs) hl (fun h => absurd h hd) (fun _ => ha) hc

lemma exchange_effect : Effect s (.exchange d oldname newDir newname) (s.exchange d oldname newDir newname).state := by
  simp only [exchange]
  split
  · exact .same _
  rename_i hfs
  split
  · exact .same _
  rename_i hne
  split
  · exact .same _
  rename_i hold
  split
  · split
    · rw [clone_drop]
      exact .same _
    · exact .same _
  rename_i hnew
  split
  · rw [state_done]
    exact .swap (not_not.1 hfs) hold hnew hne
  refine state_check walkUp_ne fun _ => ?_
  rw [state_done]
  exact .swap (not_not.1 hfs) hold hnew hne

lemma hardLink_effect {followSymlink : Bool} : Effect s (.hardLink d oldname followSymlink newDir newname)
      (s.hardLink d oldname followSymlink newDir newname).state := by
  simp only [hardLink, clone_drop, lookup_clone]
  split
  · exact .same _
  split
  · exact .same _
  rename_i e hl
  split
  · exact .same _
  split
  · exact .same _
  · exact .same _
  rename_i hdir hmount
  split
  · rename_i hnew
    rw [state_done]
    refine .link hl ?_ hnew
    cases e <;> simp_all [Entry.ty]
  · exact .same _

lemma exec_effect (op : FsOp) : Effect s op (s.exec op).state := by
  cases op with
  | createFile d name own =>
    simp only [exec, createFile, Out.state_unit]
    split
    · rw [state_done]
      exact .file ‹_›
    · exact .same _
  | createDir d name own =>
    simp only [exec, createDir, Out.state_unit]
    split
    · rw [state_done]
      exact .dir ‹_›
    · exact .same _
  | createLink d name target uid gid createNew => exact createLink_effect
  | createFifo d name own
  | createCharDev d name major minor own => exact createNode_effect (mem_singleton_self d) trivial
  | mount d name own =>
    simp only [exec, mount, state_done]
    exact .mount
  | deleteNonDir d name => exact delete_effect.1 rfl
  | deleteDir d name => exact delete_effect.2 rfl
  | rename d oldname checkIsDir newDir newname noReplace => exact rename_effect
  | exchange d oldname newDir newname => exact exchange_effect
  | hardLink d oldname followSymlink newDir newname =>
    simp only [exec, Out.state_unit]
    exact hardLink_effect
  | release d =>
    simp only [exec, state_done]
    exact .release d

lemma next_eq_some : s.next op = some s' ↔ (∀ d ∈ op.dirs, s.Live d) ∧ ∃ r, s.exec op = .ok (r, s') := by
  simp only [FsState.next]
  split
  · rename_i hd
    rcases s.exec op with st | ⟨r, s1⟩
    · simp
    · simpa using fun _ => hd
  · rename_i hd
    simp [hd]

lemma step_effect (h : tmpfs.step s op s') : (∀ d ∈ op.dirs, s.Live d) ∧ Effect s op (.ok s') := by
  obtain ⟨hlive, r, hr⟩ := next_eq_some.1 h
  have he := exec_effect (s := s) op
  rw [hr] at he
  exact ⟨hlive, he⟩

end Mushroom.L5
