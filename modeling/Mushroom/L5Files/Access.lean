import Mushroom.L5Files.Location

/-!
# Who may change a directory

`kernel/fs/node.rs:476-786`. The calls that take a path resolve it to a directory
and a last segment and then call the directory; `plan` is the call on tmpfs
directories they come to, or none. The nodes are those of any `Vfs` in which the
tmpfs directories are found (`Mounted`).

`unlink_file`, `unlink_dir`, `hard_link`, `rename` and `exchange` check that the
context may write the directories they change. The calls that create do not.
-/
namespace Mushroom.L5
open List L1 FsState

/-- `dir` tells which node is a tmpfs directory; the others refuse to be changed. `entry` is what
`INode::create_file` finds and `linkTarget` what `INode::hard_link` returns, a target to be followed. -/
structure Mounted (s : FsState) (N : Type) extends Vfs N where
  dir : N → Option Nat
  refuse : N → ErrorKind
  entry : N → FileName → Except ErrorKind (Option N)
  linkTarget : Bool → N → FileName → N → FileName → Except ErrorKind (Option Path)
  stat_dir : ∀ n i, dir n = some i → stat n = .ok ⟨.dir, (s.dirs i).ownership⟩

inductive PathOp (N : Type) where
  | createFile (startDir : N) (path : Path) (mode : BitVec 12) (flags : OpenFlags)
  | createDirectory (startDir : N) (path : Path) (mode : BitVec 12)
  | createLink (startDir : N) (path : Path) (target : Path)
  | createFifo (startDir : N) (path : Path) (mode : BitVec 12)
  | createCharDev (startDir : N) (path : Path) (major : BitVec 16) (minor : BitVec 8) (mode : BitVec 12)
  | unlinkFile (startDir : N) (path : Path)
  | unlinkDir (startDir : N) (path : Path)
  | hardLink (startDir : N) (startPath : Path) (targetDir : N) (targetPath : Path) (symlinkFollow : Bool)
  | rename (oldd : N) (oldPath : Path) (newd : N) (newPath : Path) (noReplace : Bool)
  | exchange (oldd : N) (oldPath : Path) (newd : N) (newPath : Path)

section

variable {s : FsState} {N : Type} (v : Mounted s N) (ctx : FileAccessContext) (fuel : Nat)

def onDir (n : N) (op : Nat → FsOp) : Except ErrorKind FsOp :=
  match v.dir n with
  | some i => .ok (op i)
  | none => .error (v.refuse n)

/-- The second directory is cast to a tmpfs directory.
kernel/fs/node/tmpfs.rs:412-413, 566-567, 640-641 -/
def onDirs (old new : N) (op : Nat → Nat → FsOp) : Except ErrorKind FsOp :=
  match v.dir old with
  | none => .error (v.refuse old)
  | some i =>
    match v.dir new with
    | none => .error .xDev
    | some j => .ok (op i j)

/-- `ctx.check_permissions(&parent.stat()?, Permission::Write)` -/
def checkWrite (n : N) : Except ErrorKind Unit := (v.stat n).bind fun stat => ctx.checkPermissions stat .write

def newOwner (mode : BitVec 12) : Ownership := ⟨mode, ctx.filesystemUserId, ctx.filesystemGroupId⟩

/-- `find_parent`, and `error` if the last segment is no file name. -/
def findName (startDir : N) (path : Path) (error : PathSegment → ErrorKind) (w : Walk) : Run (N × FileName × Bool) :=
  (findParent v.toVfs ctx fuel startDir path w).andThen fun x w =>
    match x.2.1 with
    | .fileName name => some (.ok (x.1, name, x.2.2), w)
    | segment => some (.error (error segment), w)

/-- A directory and a name, or a node that exists. node.rs:477-529 -/
def planCreateFile (startDir : N) (path : Path) (mode : BitVec 12) (flags : OpenFlags) (w : Walk) : Run (Option FsOp) :=
  (createFile v.toVfs ctx v.entry flags fuel startDir path w).andThen fun
    | .create dir name, w => Run.ofExcept ((onDir v dir fun i => .createFile i name (newOwner ctx mode)).map some) w
    | .existing _, w => some (.ok none, w)

/-- `create_directory`, `create_fifo` and `create_char_dev` work on what `find_parent` returns.
node.rs:531-549, 580-625 -/
def planCreate (startDir : N) (path : Path) (op : FileName → Nat → FsOp) (w : Walk) : Run (Option FsOp) :=
  (findName v ctx fuel startDir path (fun _ => .exist) w).andThen fun x w =>
    Run.ofExcept ((onDir v x.1 (op x.2.1)).map some) w

/-- node.rs:551-573 -/
def planCreateLink (startDir : N) (path target : Path) (w : Walk) : Run (Option FsOp) :=
  (findName v ctx fuel startDir path (fun _ => .exist) w).andThen fun x w =>
    if x.2.2 then
      (Run.ofExcept (v.getNode x.1 x.2.1 ctx) w).andThen fun _ w => some (.error .exist, w)
    else Run.ofExcept ((onDir v x.1 fun i => .createLink i x.2.1 target ctx.filesystemUserId
      ctx.filesystemGroupId true).map some) w

/-- node.rs:646-655 -/
def planUnlinkFile (startDir : N) (path : Path) (w : Walk) : Run (Option FsOp) :=
  (findName v ctx fuel startDir path (fun _ => .isDir) w).andThen fun x w =>
    if x.2.2 then some (.error .isDir, w)
    else (Run.ofExcept (checkWrite v ctx x.1) w).andThen fun _ w =>
      Run.ofExcept ((onDir v x.1 fun i => .deleteNonDir i x.2.1).map some) w

/-- `Empty` is never the last segment.
node.rs:657-670 -/
def planUnlinkDir (startDir : N) (path : Path) (w : Walk) : Run (Option FsOp) :=
  (findName v ctx fuel startDir path (fun segment => if segment = .dot then .inval else .notEmpty) w).andThen
    fun x w => (Run.ofExcept (checkWrite v ctx x.1) w).andThen fun _ w =>
      Run.ofExcept ((onDir v x.1 fun i => .deleteDir i x.2.1).map some) w

/-- node.rs:672-710 -/
def planHardLink (startDir : N) (startPath : Path) (targetDir : N) (targetPath : Path) (symlinkFollow : Bool)
    (w : Walk) : Run (Option FsOp) :=
  (hardLink v.toVfs ctx (v.linkTarget symlinkFollow) fuel startDir startPath targetDir targetPath w).andThen
    fun x w => Run.ofExcept ((onDirs v x.2.1 x.1.1 fun i j => .hardLink i x.2.2 symlinkFollow j x.1.2).map some) w

/-- The errors for an old path without a file name.
node.rs:721-725, 762-766 -/
def oldNameError : PathSegment → ErrorKind
  | .dot | .dotDot => .busy
  | _ => .isDir

/-- The two parents and names, both directories checked.
node.rs:712-742, 757-781 -/
def planPair (oldd : N) (oldPath : Path) (newd : N) (newPath : Path) (error : ErrorKind)
    (op : FileName → FileName → Nat → Nat → FsOp) (w : Walk) : Run (Option FsOp) :=
  (findName v ctx fuel oldd oldPath oldNameError w).andThen fun x w =>
  (findName v ctx fuel newd newPath (fun _ => error) w).andThen fun y w =>
  (Run.ofExcept (checkWrite v ctx x.1) w).andThen fun _ w =>
  (Run.ofExcept (checkWrite v ctx y.1) w).andThen fun _ w =>
  Run.ofExcept ((onDirs v x.1 y.1 (op x.2.1 y.2.1)).map some) w

def plan : PathOp N → Walk → Run (Option FsOp)
  | .createFile startDir path mode flags => planCreateFile v ctx fuel startDir path mode flags
  | .createDirectory startDir path mode =>
    planCreate v ctx fuel startDir path fun name i => .createDir i name (newOwner ctx mode)
  | .createLink startDir path target => planCreateLink v ctx fuel startDir path target
  | .createFifo startDir path mode =>
    planCreate v ctx fuel startDir path fun name i => .createFifo i name (newOwner ctx mode)
  | .createCharDev startDir path major minor mode =>
    planCreate v ctx fuel startDir path fun name i => .createCharDev i name major minor (newOwner ctx mode)
  | .unlinkFile startDir path => planUnlinkFile v ctx fuel startDir path
  | .unlinkDir startDir path => planUnlinkDir v ctx fuel startDir path
  | .hardLink startDir startPath targetDir targetPath symlinkFollow =>
    planHardLink v ctx fuel startDir startPath targetDir targetPath symlinkFollow
  | .rename oldd oldPath newd newPath noReplace =>
    planPair v ctx fuel oldd oldPath newd newPath .exist fun oldname newname i j =>
      .rename i oldname (oldPath.hasTrailingSlash || newPath.hasTrailingSlash) j newname noReplace
  | .exchange oldd oldPath newd newPath =>
    planPair v ctx fuel oldd oldPath newd newPath .isDir fun oldname newname i j => .exchange i oldname j newname

/-- The call with its effect; `none` is a call that is still running. -/
def modify (op : PathOp N) (w : Walk) : Option (Out Unit) :=
  match plan v ctx fuel op w with
  | none => none
  | some (.error e, _) => some (s.fail e)
  | some (.ok none, _) => some (.ok (.ok (), s))
  | some (.ok (some op), _) => some (s.exec op)

end

def MayWrite (s : FsState) (ctx : FileAccessContext) (i : Nat) : Prop :=
  ctx.checkPermissions ⟨.dir, (s.dirs i).ownership⟩ .write = .ok ()

instance (s : FsState) (ctx : FileAccessContext) (i : Nat) : Decidable (MayWrite s ctx i) :=
  inferInstanceAs (Decidable (_ = _))

/-! ## Entries change in the directories a call names only -/

variable {s s' : FsState} {p : Nat}

lemma items_setItems_ne {d : Nat} {m : Items} (h : p ≠ d) : (s.setItems d m).items p = s.items p := by
  simp [items, setItems, h]

lemma items_insert_ne {d : Nat} {name : FileName} {e : Entry} (hs : s.insert d name e = .ok s')
    (h : p ≠ d) : s'.items p = s.items p := by
  obtain ⟨f, rfl⟩ := insert_eq hs
  exact items_setItems_ne h

lemma items_newDir_ne {fs : Nat} {l : Location} {own : Ownership} (h : p < s.dirCount) :
    (s.newDir fs l own).items p = s.items p := by
  simp [items, newDir, h.ne]

lemma Effect.items_eq {op : FsOp} (h : Effect s op (.ok s')) (hp : p < s.dirCount)
    (hne : p ∉ op.changes) (hr : ∀ d, op ≠ .release d) : s'.items p = s.items p := by
  have hsingle : ∀ {d}, op.changes = [d] → p ≠ d := fun hc he => hne (hc ▸ he ▸ mem_singleton_self _)
  generalize hx : Except.ok s' = x at h
  cases h with
  | same =>
    cases hx
    rfl
  | hang => cases hx
  | file => exact (items_insert_ne hx.symm (hsingle rfl)).trans rfl
  | dir | mount => exact (items_insert_ne hx.symm (hsingle rfl)).trans (items_newDir_ne hp)
  | node hmem => exact items_insert_ne hx.symm fun he => hne (he ▸ hmem)
  | delete hmem =>
    obtain ⟨f, rfl⟩ := drop_eq hx.symm
    exact items_setItems_ne fun he => hne (he ▸ hmem)
  | @move d oldname _ newDir newname _ _ e =>
    have hpd : p ≠ d := fun he => hne (he ▸ mem_cons_self ..)
    have hpn : p ≠ newDir := fun he => hne (he ▸ mem_cons_of_mem _ (mem_singleton_self _))
    exact (items_insert_ne hx.symm hpn).trans (items_relocate.trans (items_setItems_ne hpd))
  | @swap d oldname newDir newname old new =>
    have hpd : p ≠ d := fun he => hne (he ▸ mem_cons_self ..)
    have hpn : p ≠ newDir := fun he => hne (he ▸ mem_cons_of_mem _ (mem_singleton_self _))
    refine (items_insert_ne hx.symm hpd).trans (items_relocate.trans ?_)
    exact (items_setItems_ne hpn).trans items_clone
  | link => exact (items_insert_ne hx.symm (hsingle rfl)).trans items_clone
  | release d => exact absurd rfl (hr d)

/-! ## Creating an entry -/

/-- The directory and the name of the entry that a call creates if the name is free. -/
def FsOp.creates : FsOp → Option (Nat × FileName)
  | .createFile d name _ | .createDir d name _ | .createLink d name _ _ _ true | .createCharDev d name _ _ _
  | .createFifo d name _ => some (d, name)
  | _ => none

lemma insert_free {d : Nat} {name : FileName} {e : Entry} (h : s.lookup d name = none) :
    ∃ s', s.insert d name e = .ok s' ∧ s'.lookup d name = some e := by
  refine ⟨s.setItems d ((s.items d).insert name e), by rw [FsState.insert, h]; rfl, ?_⟩
  simp [FsState.lookup, items, setItems]

lemma exec_of_free {o : FsOp} {d : Nat} {name : FileName} (ho : o.creates = some (d, name)) (hd : d < s.dirCount)
    (h : s.lookup d name = none) : ∃ s', s.exec o = .ok (.ok (), s') ∧ s'.items d ≠ s.items d := by
  have hnew : ∀ {s' : FsState} {e : Entry}, s'.lookup d name = some e → s'.items d ≠ s.items d := by
    intro s' e hl he
    simp only [FsState.lookup, he] at hl
    cases h.symm.trans hl
  cases o with
  | createDir d' name' own =>
    cases ho
    have hfree : (s.newDir (s.dirs d).fs (.directory d name) own).lookup d name = none := by
      rw [FsState.lookup, items_newDir_ne hd]
      exact h
    obtain ⟨s', hs', hl⟩ := insert_free hfree (e := .dir s.dirCount)
    exact ⟨s', by simp only [exec, FsState.createDir, h, hs', done, Out.unit, Except.map], hnew hl⟩
  | createFile d' name' own =>
    cases ho
    have hfree : (s.newFile own).lookup d name = none := h
    obtain ⟨s', hs', hl⟩ := insert_free hfree (e := .file s.fileCount)
    exact ⟨s', by simp only [exec, FsState.createFile, h, hs', done, Out.unit, Except.map], hnew hl⟩
  | createLink d' name' target uid gid createNew =>
    cases createNew <;> cases ho
    obtain ⟨s', hs', hl⟩ := insert_free h (e := .symlink target ⟨0o777, uid, gid⟩)
    exact ⟨s', by simp only [exec, FsState.createLink, h, hs', done, Except.map], hnew hl⟩
  | createCharDev d' name' major minor own =>
    cases ho
    obtain ⟨s', hs', hl⟩ := insert_free h (e := .charDev major minor own)
    exact ⟨s', by simp only [exec, FsState.createCharDev, createNode, h, hs', done, Except.map], hnew hl⟩
  | createFifo d' name' own =>
    cases ho
    obtain ⟨s', hs', hl⟩ := insert_free h (e := .fifo own)
    exact ⟨s', by simp only [exec, FsState.createFifo, createNode, h, hs', done, Except.map], hnew hl⟩
  | _ => cases ho

lemma exec_of_creates {o : FsOp} {d : Nat} {name : FileName} (ho : o.creates = some (d, name)) :
    o.changes = [d] ∧ (∀ e, o ≠ .release e) ∧ (s.lookup d name ≠ none → (s.exec o).state = .ok s) := by
  rw [Option.ne_none_iff_exists']
  cases o with
  | createLink d' name' target uid gid createNew =>
    cases createNew <;> cases ho
    refine ⟨rfl, by simp, ?_⟩
    rintro ⟨e, he⟩
    simp only [exec, FsState.createLink, he]
    rfl
  | _ =>
    cases ho <;> refine ⟨rfl, by simp, ?_⟩ <;> rintro ⟨e, he⟩ <;> simp only [exec, FsState.createDir,
      FsState.createFile, FsState.createCharDev, FsState.createFifo, createNode, he] <;> rfl

/-! ## The checks before a change -/

def Run.Yields {α : Type} (x : Run α) (P : α → Prop) : Prop := ∀ a w, x = some (.ok a, w) → P a

variable {α : Type} {P : α → Prop}

lemma Run.Yields.andThen {β : Type} {x : Run α} {f : α → Walk → Run β} {Q : β → Prop}
    (hx : x.Yields P) (hf : ∀ a w, P a → (f a w).Yields Q) : (x.andThen f).Yields Q := by
  intro b w hb
  match x, hx with
  | none, _ => cases hb
  | some (.error e, w1), _ => cases hb
  | some (.ok a, w1), hx => exact hf a w1 (hx a w1 rfl) b w hb

lemma Run.Yields.trivial (x : Run α) : x.Yields fun _ => True := fun _ _ _ => True.intro

lemma Run.Yields.ofExcept {x : Except ErrorKind α} {w : Walk}
    (h : ∀ a, x = .ok a → P a) : (Run.ofExcept x w).Yields P := by
  intro a w' ha
  cases ha
  exact h a rfl

section

variable {s : FsState} {N : Type} {v : Mounted s N} {ctx : FileAccessContext} {fuel : Nat} {n : N}

lemma mayWrite_of_checkWrite {i : Nat} (hd : v.dir n = some i) (h : checkWrite v ctx n = .ok ()) :
    MayWrite s ctx i := by
  simp only [checkWrite, v.stat_dir n i hd] at h
  exact h

/-- The call creates an entry, or may write the directories it changes. -/
def Checked (s : FsState) (ctx : FileAccessContext) (op : Option FsOp) : Prop :=
  ∀ o, op = some o → o.creates.isSome ∨ (∀ d, o ≠ .release d) ∧ ∀ i ∈ o.changes, MayWrite s ctx i

lemma onDir_creates {op : Nat → FsOp} (hop : ∀ i, (op i).creates.isSome) (w : Walk) :
    (Run.ofExcept ((onDir v n op).map some) w).Yields (Checked s ctx) := by
  refine .ofExcept fun a ha o ho => .inl ?_
  simp only [onDir] at ha
  split at ha
  · cases ha
    cases ho
    exact hop _
  · cases ha

lemma onDir_checked {op : Nat → FsOp} (hop : ∀ i, (op i).changes = [i] ∧ ∀ d, op i ≠ .release d)
    (h : checkWrite v ctx n = .ok ()) (w : Walk) :
    (Run.ofExcept ((onDir v n op).map some) w).Yields (Checked s ctx) := by
  refine .ofExcept fun a ha o ho => ?_
  simp only [onDir] at ha
  split at ha
  · rename_i i hi
    cases ha
    cases ho
    refine .inr ⟨(hop i).2, fun j hj => ?_⟩
    rw [(hop i).1, mem_singleton] at hj
    exact hj ▸ mayWrite_of_checkWrite hi h
  · cases ha

lemma onDirs_checked {old new : N} {op : Nat → Nat → FsOp}
    (hop : ∀ i j, (∀ k ∈ (op i j).changes, k = i ∧ checkWrite v ctx old = .ok () ∨ k = j) ∧ ∀ d, op i j ≠ .release d)
    (h : checkWrite v ctx new = .ok ()) (w : Walk) :
    (Run.ofExcept ((onDirs v old new op).map some) w).Yields (Checked s ctx) := by
  refine .ofExcept fun a ha o ho => ?_
  simp only [onDirs] at ha
  split at ha
  · cases ha
  rename_i i hi
  split at ha
  · cases ha
  rename_i j hj
  cases ha
  cases ho
  refine .inr ⟨(hop i j).2, fun k hk => ?_⟩
  rcases (hop i j).1 k hk with ⟨rfl, hold⟩ | rfl
  · exact mayWrite_of_checkWrite hi hold
  · exact mayWrite_of_checkWrite hj h

lemma yields_check {β : Type} {f : Unit → Walk → Run β} {Q : β → Prop} {w : Walk}
    (hf : checkWrite v ctx n = .ok () → (f () w).Yields Q) :
    ((Run.ofExcept (checkWrite v ctx n) w).andThen f).Yields Q := by
  cases h : checkWrite v ctx n with
  | error e =>
    intro b w' hb
    cases hb
  | ok u => exact hf h

lemma hardLink_yields {follow : Bool} {startDir targetDir : N} {startPath targetPath : Path} {w : Walk} :
    (hardLink v.toVfs ctx (v.linkTarget follow) fuel startDir startPath targetDir targetPath w).Yields
      fun x => checkWrite v ctx x.1.1 = .ok () := by
  refine (Run.Yields.trivial _).andThen fun x w _ => ?_
  cases x.2.1 with
  | fileName newName =>
    refine yields_check (v := v) fun hc => ?_
    refine (Run.Yields.trivial _).andThen fun y w _ => ?_
    intro z w' hz
    cases hz
    exact hc
  | _ => nofun

lemma planPair_checked {oldd newd : N} {oldPath newPath : Path} {error : ErrorKind}
    {op : FileName → FileName → Nat → Nat → FsOp} (hop : ∀ n m i j, (op n m i j).changes = [i, j] ∧
      ∀ d, op n m i j ≠ .release d) (w : Walk) :
    (planPair v ctx fuel oldd oldPath newd newPath error op w).Yields (Checked s ctx) := by
  refine (Run.Yields.trivial _).andThen fun x w _ => ?_
  refine (Run.Yields.trivial _).andThen fun y w _ => ?_
  refine yields_check fun hx => yields_check fun hy => ?_
  refine onDirs_checked (fun i j => ⟨fun k hk => ?_, (hop _ _ i j).2⟩) hy w
  rw [(hop _ _ i j).1, mem_pair] at hk
  exact hk.imp (fun h => ⟨h, hx⟩) id

/-- Every call that creates no entry has checked the directories it changes. -/
lemma plan_checked (op : PathOp N) (w : Walk) : (plan v ctx fuel op w).Yields (Checked s ctx) := by
  cases op with
  | createFile startDir path mode flags =>
    refine (Run.Yields.trivial _).andThen fun x w _ => ?_
    cases x with
    | create dir name => exact onDir_creates (fun _ => rfl) w
    | existing node =>
      intro a w' ha o ho
      cases ha
      cases ho
  | createLink startDir path target =>
    refine (Run.Yields.trivial _).andThen fun x w _ => ?_
    split
    · refine (Run.Yields.trivial _).andThen fun _ w _ => ?_
      nofun
    · exact onDir_creates (fun _ => rfl) w
  | createCharDev startDir path major minor mode
  | createDirectory startDir path mode | createFifo startDir path mode =>
    exact (Run.Yields.trivial _).andThen fun x w _ => onDir_creates (fun _ => rfl) w
  | unlinkFile startDir path =>
    refine (Run.Yields.trivial _).andThen fun x w _ => ?_
    split
    · nofun
    · exact yields_check fun hc => onDir_checked (fun i => ⟨rfl, by simp⟩) hc w
  | unlinkDir startDir path =>
    refine (Run.Yields.trivial _).andThen fun x w _ => ?_
    exact yields_check fun hc => onDir_checked (fun i => ⟨rfl, by simp⟩) hc w
  | hardLink startDir startPath targetDir targetPath follow =>
    refine hardLink_yields.andThen fun x w hc => ?_
    refine onDirs_checked (fun i j => ⟨?_, ?_⟩) hc w
    · exact fun k hk => .inr (mem_singleton.1 hk)
    · simp
  | rename oldd oldPath newd newPath noReplace | exchange oldd oldPath newd newPath =>
    simp only [plan]
    refine planPair_checked (fun n m i j => ⟨?_, ?_⟩) w
    · rfl
    · simp

/-- If the path leads to a directory in which the call creates an entry under a free name, the directory may be
written. -/
def PathOp.Granted (v : Mounted s N) (ctx : FileAccessContext) (fuel : Nat) (op : PathOp N) (w : Walk) : Prop :=
  ∀ o w', plan v ctx fuel op w = some (.ok (some o), w') → ∀ i name, o.creates = some (i, name) → i < s.dirCount →
    s.lookup i name = none → MayWrite s ctx i

/-- A call that changes the entries of a directory is granted `Write` on it exactly if, where it creates a new entry,
`Write` happens to be granted on the directory: it is checked only for calls that remove, link, rename or exchange. -/
theorem changes_are_granted (v : Mounted s N) (ctx : FileAccessContext) (fuel : Nat) (op : PathOp N) (w : Walk) :
    (∀ r s', modify v ctx fuel op w = some (.ok (r, s')) → ∀ i < s.dirCount, s'.items i ≠ s.items i →
      MayWrite s ctx i) ↔ op.Granted v ctx fuel w := by
  constructor
  · intro h o w' hplan i name ho hi hfree
    obtain ⟨s', hs', hne⟩ := exec_of_free ho hi hfree
    exact h (.ok ()) s' (by rw [modify, hplan, ← hs']) i hi hne
  intro h r s' hm i hi hc
  simp only [modify] at hm
  split at hm
  · cases hm
  · cases hm
    exact absurd rfl hc
  · cases hm
    exact absurd rfl hc
  rename_i o w' hplan
  have heff := exec_effect (s := s) o
  rw [Option.some.inj hm] at heff
  rcases plan_checked op w _ w' hplan o rfl with hcreates | ⟨hr, hchecked⟩
  · obtain ⟨⟨d, name⟩, ho⟩ := Option.isSome_iff_exists.1 hcreates
    obtain ⟨hchanges, hr, htaken⟩ := exec_of_creates (s := s) ho
    obtain rfl : i = d := by
      by_contra hne
      exact hc (heff.items_eq hi (by simpa [hchanges] using hne) hr)
    refine h o w' hplan i name ho hi ?_
    by_contra hne
    have hsame := htaken hne
    rw [Option.some.inj hm] at hsame
    cases hsame
    exact hc rfl
  · refine hchecked i ?_
    by_contra hne
    exact hc (heff.items_eq hi hne hr)

end

/-! ## The tmpfs file systems alone -/

def FsState.mounted (s : FsState) : Mounted s Entry where
  toVfs := s.vfs
  dir
    | .dir i => some i
    | _ => none
  refuse _ := .notDir
  entry
    | .dir i, name => .ok ((s.lookup i name).map node)
    | _, _ => .error .notDir
  linkTarget
    | follow, .dir i, name, _, _ =>
      match s.lookup i name with
      | none => .error .noEnt
      | some e => .ok (symlinkTarget follow e)
    | _, _, _, _, _ => .error .notDir
  stat_dir n i h := by
    cases n <;> cases h
    rfl

def pathA : Path := ⟨[0x61], nameA.ne_nil, by decide⟩

def user : FileAccessContext := ⟨none, 1000, 1000, []⟩

/-- The user creates a directory in the root directory, which only the super
user may write. -/
theorem create_directory_unchecked : ∃ s', modify new.mounted user 17 (.createDirectory (.dir 0) pathA 0o755)
    (.start 16) = some (.ok (.ok (), s')) ∧ s'.lookup 0 nameA = some (.dir 1) ∧ new.lookup 0 nameA = none ∧
      user.filesystemUserId ≠ superUser ∧ ¬MayWrite .new user 0 :=
  ⟨_, rfl, rfl, rfl, by decide, by decide⟩

end Mushroom.L5
