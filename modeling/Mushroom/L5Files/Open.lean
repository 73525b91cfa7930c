import Mushroom.L5Files.Access
import Mushroom.L5Files.AppendFile

/-!
# Who may change a file by opening it

`openat` (`kernel/user/process/syscall.rs:3209-3267`) resolves the path
or runs `create_file`, checks the access mode against the node that is there,
and has the node opened; a regular file is truncated and gets a description of
the access mode in `open_file` (`fs/fd/file.rs:101-120`). The check looks at
the access mode alone, the truncation at `O_TRUNC` alone, and an `fd` link hands
out a descriptor with the access mode it was opened with (`Unasked`).
-/
namespace Mushroom.L5

open L1
open Mushroom.L5.Append (Kind kindOf)

/-! ## Descriptors -/

/-- Regular files, `O_PATH` and anything else. file.rs:122-590, fd/path.rs:18-67 -/
inductive Fd (N : Type) where
  | file (kind : Kind) (i : Nat)
  | path (node : N)
  | other

def written (content : Bytes) (offset : Nat) (data : Bytes) : Bytes :=
  if data = [] then content
  else pad offset (content.take offset) ++ data ++ content.drop (offset + data.length)

def FsState.setContent (s : FsState) (i : Nat) (content : Bytes) : FsState :=
  { s with files := Function.update s.files i { s.files i with content := content } }

/-- Descriptions without a `write` of their own have the one that fails.
kernel/fs/fd.rs:368-371, file.rs:278-299, 388-399, 486-511 -/
def Fd.write {N : Type} : Fd N → FsState → Nat → Bytes → Except ErrorKind FsState
  | .file .append i, s, _, data => .ok (s.setContent i ((s.files i).content ++ data))
  | .file .readonly _, _, _, _ | .path _, _, _, _ => .error .inval
  | .file _ i, s, offset, data => .ok (s.setContent i (written (s.files i).content offset data))
  | .other, s, _, _ => .ok s

/-- Some write through the descriptor to file `i` succeeds. -/
def Fd.Writes {N : Type} (fd : Fd N) (i : Nat) : Prop :=
  (∃ kind, fd = .file kind i) ∧ ∃ s offset data s', fd.write s offset data = .ok s'

/-! ## Opening -/

abbrev OpenResult (N : Type) := Except ErrorKind (Fd N) × FsState

/-- `INode::async_open` is `open_file` for a regular file (also behind a followed `fd` link of a path descriptor),
the descriptor itself behind a followed `fd` link, and otherwise concerns no regular file.
kernel/fs/node/tmpfs.rs:826-828, procfs.rs:902-921 -/
inductive Opened (N : Type) where
  | file (i : Nat)
  | descriptor (fd : Fd N)
  | other (result : OpenFlags → Except ErrorKind Unit)

/-- A tree of nodes that can be opened. -/
structure Openable (s : FsState) (N : Type) extends Mounted s N where
  opens : N → Opened N
  stat_file : ∀ n i, opens n = .file i → stat n = .ok ⟨.file, (s.files i).ownership⟩

variable {s : FsState} {N β : Type}

/-- file.rs:101-120 -/
def openFile (s : FsState) (i : Nat) (flags : OpenFlags) : OpenResult N :=
  if flags.directory then (.error .isDir, s)
  else (.ok (.file (kindOf flags) i), if flags.trunc then s.setContent i [] else s)

def openNode (s : FsState) (node : Opened N) (flags : OpenFlags) : OpenResult N :=
  match node with
  | .file i => openFile s i flags
  | .descriptor fd => (.ok fd, s)
  | .other result => ((result flags).map fun _ => .other, s)

section

variable (v : Openable s N) (ctx : FileAccessContext) (fuel : Nat)

/-- syscall.rs:3226-3230, 3243-3247 -/
def resolveOpen (startDir : N) (path : Path) (flags : OpenFlags) (w : Walk) : Run N :=
  if flags.noFollow then lookupNode v.toVfs ctx fuel startDir path w
  else lookupAndResolveNode v.toVfs ctx fuel startDir path w

/-- What is opened: a path, or a node that is there or to be created. -/
inductive Opening (N : Type) where
  | path (node : N)
  | found (c : CreateFile N)

/-- syscall.rs:3222-3258 -/
def opening (startDir : N) (path : Path) (flags : OpenFlags) (w : Walk) : Run (Opening N) :=
  if flags.path then
    (resolveOpen v ctx fuel startDir path flags w).andThen fun node =>
      Run.ofExcept <| if flags.directory then
        (v.stat node).bind fun stat => if stat.ty = .dir then .ok (.path node) else .error .notDir
      else .ok (.path node)
  else if flags.creat then
    (createFile v.toVfs ctx v.entry flags fuel startDir path w).andThen fun c => Run.ofExcept (.ok (.found c))
  else
    (resolveOpen v ctx fuel startDir path flags w).andThen fun node => Run.ofExcept <|
      (v.stat node).bind fun stat => (checkAccess ctx flags stat).map fun _ => .found (.existing node)

/-- The new file, or the one that appeared in between; `none` does not return. -/
def createAndOpen (dir : N) (name : FileName) (own : Ownership) (flags : OpenFlags) :
    Option (OpenResult N) :=
  match v.dir dir with
  | none => some (.error (v.refuse dir), s)
  | some d =>
    match s.createFile d name own with
    | .ok (.ok (.inl i), s') => some (openFile s' i flags)
    | .ok (.ok (.inr _), s') => some (.error .exist, s')
    | .ok (.error e, s') => some (.error e, s')
    | .error _ => none

/-- The descriptor before it goes into the table. -/
def Opening.finish (own : Ownership) (flags : OpenFlags) : Opening N → Option (OpenResult N)
  | .path node => some (.ok (.path node), s)
  | .found (.create dir name) => createAndOpen v dir name own flags
  | .found (.existing node) => some (openNode s (v.opens node) flags)

/-- `room` tells whether the table takes another descriptor. -/
def intoTable (room : Bool) (x : OpenResult N) : OpenResult N :=
  (x.1.bind fun fd => if room then .ok fd else .error .mfile, x.2)

/-- syscall.rs:3210-3267 -/
def openat (startDir : N) (path : Path) (flags : OpenFlags) (mode umask : BitVec 12) (room : Bool) (w : Walk) :
    Option (OpenResult N) :=
  match opening v ctx fuel startDir path flags w with
  | none => none
  | some (.error e, _) => some (.error e, s)
  | some (.ok o, _) => (o.finish v (newOwner ctx (mode &&& ~~~umask)) flags).map (intoTable room)

end

def MayWriteFile (s : FsState) (ctx : FileAccessContext) (i : Nat) : Prop :=
  ctx.checkPermissions ⟨.file, (s.files i).ownership⟩ .write = .ok ()

instance (s : FsState) (ctx : FileAccessContext) (i : Nat) : Decidable (MayWriteFile s ctx i) :=
  inferInstanceAs (Decidable (_ = _))

/-- The call has changed file `i` or leaves a way to write it. -/
def Touches (s : FsState) (i : Nat) (x : OpenResult N) : Prop :=
  (x.2.files i).content ≠ (s.files i).content ∨ ∃ fd, x.1 = .ok fd ∧ fd.Writes i

/-- The ways past the check of the access mode: a file with contents is truncated without an access mode that
writes, or the descriptor behind an `fd` link writes. -/
def Unasked (s : FsState) (flags : OpenFlags) (room : Bool) (i : Nat) : Opened N → Prop
  | .file j => i = j ∧ flags.directory = false ∧ flags.trunc = true ∧ flags.wronly = false ∧ flags.rdwr = false ∧
      (s.files i).content ≠ []
  | .descriptor fd => room = true ∧ fd.Writes i
  | .other _ => False

/-! ## What is checked -/

variable {v : Openable s N} {ctx : FileAccessContext} {fuel i j : Nat} {flags : OpenFlags} {stat : Stat}

lemma bind_eq_ok {α : Type} {x : Except ErrorKind α} {f : α → Except ErrorKind β} {b : β}
    (h : x.bind f = .ok b) : ∃ a, x = .ok a ∧ f a = .ok b := by
  cases x with
  | error e => cases h
  | ok a => exact ⟨a, rfl, h⟩

lemma map_eq_ok {α : Type} {x : Except ErrorKind α} {f : α → β} {b : β} (h : x.map f = .ok b) :
    ∃ a, x = .ok a ∧ f a = b := by
  cases x with
  | error e => cases h
  | ok a => exact ⟨a, rfl, Except.ok.inj h⟩

lemma write_of_checkAccess (hw : flags.wronly ∨ flags.rdwr)
    (h : checkAccess ctx flags stat = .ok ()) : ctx.checkPermissions stat .write = .ok () := by
  simp only [checkAccess] at h
  split at h
  · exact h
  rename_i hno
  split at h
  · cases hr : ctx.checkPermissions stat .read with
    | error e =>
      rw [hr] at h
      cases h
    | ok u =>
      rwa [hr] at h
  · rename_i hno'
    exact absurd hw (by simp [hno, hno'])

/-- A body whose values have a property gives it to the values of its loop. -/
lemma restart_yields {u : Vfs N} {body : N → PathSegment → Bool → Except ErrorKind (β ⊕ Path)}
    {P : β → Prop} (hb : ∀ dir last trailing b, body dir last trailing = .ok (.inl b) → P b) (linkFuel : Nat)
    (dir : N) (path : Path) (w : Walk) : (restart u ctx body linkFuel fuel dir path w).Yields P := by
  induction fuel generalizing dir path w with
  | zero =>
    intro b w' h
    cases h
  | succ fuel ih =>
    refine (Run.Yields.trivial _).andThen fun x w _ => ?_
    have hbody : (Run.ofExcept (body x.1 x.2.1 x.2.2) w).Yields
        fun b => ∀ a, b = .inl a → P a := .ofExcept fun b hb' a ha => hb _ _ _ a (ha ▸ hb')
    refine hbody.andThen fun b w hP => ?_
    cases b with
    | inl b =>
      intro a w' h
      cases h
      exact hP b rfl
    | inr target =>
      intro a w' h
      simp only at h
      split at h
      · cases h
      · exact ih _ _ _ a w' h

def AccessChecked (v : Openable s N) (ctx : FileAccessContext) (flags : OpenFlags) (node : N) : Prop :=
  ∃ stat, v.stat node = .ok stat ∧ checkAccess ctx flags stat = .ok ()

/-- The access of a node that exists was checked. -/
lemma createFileBody_checked {dir : N} {last : PathSegment} {trailing : Bool} {node : N}
    (h : createFileBody v.toVfs ctx v.entry flags dir last trailing = .ok (.inl (.existing node))) :
    AccessChecked v ctx flags node := by
  cases last with
  | fileName name =>
    simp only [createFileBody] at h
    split at h
    · cases h
    obtain ⟨o, he, h⟩ := bind_eq_ok h
    cases o with
    | none => cases h
    | some node =>
      obtain ⟨stat, hs, h⟩ := bind_eq_ok h
      split at h
      · -- a link is followed or refused
        split at h
        · cases h
        split at h
        · cases h
        obtain ⟨target, -, h⟩ := map_eq_ok h
        cases h
      · split at h
        · cases h
        split at h
        · cases h
        obtain ⟨u, ha, h⟩ := map_eq_ok h
        cases h
        exact ⟨stat, hs, ha⟩
  | root | empty | dot | dotDot => cases h

lemma opening_checked (startDir : N) (path : Path) (w : Walk) : (opening v ctx fuel startDir path flags w).Yields
    fun o => ∀ node, o = .found (.existing node) → AccessChecked v ctx flags node := by
  unfold opening
  split
  · refine (Run.Yields.trivial _).andThen fun node w _ => .ofExcept fun o ho _ hn => ?_
    subst hn
    split at ho
    · obtain ⟨stat, -, ho⟩ := bind_eq_ok ho
      split at ho <;> cases ho
    · cases ho
  split
  · refine (restart_yields (P := fun c => ∀ node, c = .existing node → AccessChecked v ctx flags node) ?_
      fuel startDir path w).andThen fun c w hc => .ofExcept fun o ho node hn => ?_
    · exact fun _ _ _ c hb node hn => createFileBody_checked (hn ▸ hb)
    · cases ho
      cases hn
      exact hc node rfl
  · refine (Run.Yields.trivial _).andThen fun node w _ => .ofExcept fun o ho _ hn => ?_
    obtain ⟨stat, hs, ho⟩ := bind_eq_ok ho
    obtain ⟨u, ha, rfl⟩ := map_eq_ok ho
    cases hn
    exact ⟨stat, hs, ha⟩

/-! ## What is touched -/

lemma writes_file {kind : Kind} : (Fd.file kind j : Fd N).Writes i ↔ i = j ∧ kind ≠ .readonly := by
  constructor
  · rintro ⟨⟨kind', hk⟩, t, offset, data, t', hw⟩
    cases hk
    refine ⟨rfl, fun hr => ?_⟩
    subst hr
    cases hw
  · rintro ⟨rfl, hk⟩
    refine ⟨⟨kind, rfl⟩, .new, 0, [], ?_⟩
    cases kind <;> first | exact ⟨_, rfl⟩ | exact absurd rfl hk

lemma kindOf_ne_readonly : kindOf flags ≠ .readonly ↔ flags.wronly = true ∨ flags.rdwr = true := by
  unfold kindOf
  split_ifs <;> simp [*]

lemma not_touches {r : Except ErrorKind (Fd N)} {t : FsState} (ht : (t.files i).content = (s.files i).content)
    (hr : ∀ fd, r = .ok fd → ¬fd.Writes i) : ¬Touches s i (r, t) := by
  rintro (h | ⟨fd, hf, hwr⟩)
  · exact h ht
  · exact hr fd hf hwr

lemma not_touches_error {e : ErrorKind} {t : FsState} (ht : (t.files i).content = (s.files i).content) :
    ¬Touches s i ((.error e, t) : OpenResult N) := not_touches ht fun fd hf => by cases hf

lemma Touches.of_intoTable {room : Bool} {x : OpenResult N}
    (h : Touches s i (intoTable room x)) : Touches s i x := by
  refine h.imp id fun ⟨fd, hf, hwr⟩ => ?_
  obtain ⟨fd', hf', hroom⟩ := bind_eq_ok hf
  split at hroom
  · cases hroom
    exact ⟨fd, hf', hwr⟩
  · cases hroom

/-- Opening a file touches no other. -/
lemma openFile_other {t : FsState} (hi : i ≠ j) (ht : (t.files i).content = (s.files i).content) :
    ¬Touches s i (openFile (N := N) t j flags) := by
  unfold openFile
  split
  · exact not_touches_error ht
  refine not_touches ?_ fun fd hf hwr => ?_
  · split
    · exact (congrArg File.content (Function.update_of_ne hi ..)).trans ht
    · exact ht
  · cases hf
    exact hi (writes_file.1 hwr).1

/-- A file that is created is none of the files that were there. -/
lemma createAndOpen_other {dir : N} {name : FileName} {own : Ownership} (hi : i < s.fileCount)
    {x : OpenResult N} (hx : createAndOpen v dir name own flags = some x) : ¬Touches s i x := by
  simp only [createAndOpen] at hx
  split at hx
  · cases hx
    exact not_touches_error rfl
  rename_i d hd
  cases hl : s.lookup d name with
  | none =>
    have hcreate : s.createFile d name own = .ok (.ok (.inl s.fileCount),
        (s.newFile own).setItems d ((s.items d).insert name (.file s.fileCount))) := by
      have hl' : (s.newFile own).lookup d name = none := hl
      simp only [FsState.createFile, hl, FsState.insert, hl', FsState.done, FsState.dropOption]
      rfl
    rw [hcreate] at hx
    cases hx
    exact openFile_other hi.ne (congrArg File.content (Function.update_of_ne hi.ne ..))
  | some e =>
    simp only [FsState.createFile, hl] at hx
    cases hx
    exact not_touches_error rfl

/-- A node that is touched is one nobody asked for, or a file that is opened to be written. -/
lemma openNode_touches {room : Bool} {node : Opened N} (h : Touches s i (intoTable room (openNode s node flags))) :
    Unasked s flags room i node ∨ node = .file i ∧ (flags.wronly = true ∨ flags.rdwr = true) := by
  cases node with
  | file j =>
    obtain rfl : i = j := by
      by_contra hne
      exact openFile_other hne rfl h.of_intoTable
    by_cases hw : flags.wronly = true ∨ flags.rdwr = true
    · exact .inr ⟨rfl, hw⟩
    obtain ⟨hw, hr⟩ := not_or.1 hw
    refine .inl ?_
    by_contra hno
    refine absurd h.of_intoTable ?_
    simp only [openNode, openFile]
    split
    · exact not_touches_error rfl
    rename_i hd
    refine not_touches ?_ fun fd hf hwr => ?_
    · split
      · rename_i htrunc
        by_contra hne
        refine hno ⟨rfl, by simpa using hd, htrunc, by simpa using hw, by simpa using hr, fun hnil => hne ?_⟩
        exact (congrArg File.content (Function.update_self ..)).trans hnil.symm
      · rfl
    · cases hf
      exact absurd (kindOf_ne_readonly.1 (writes_file.1 hwr).2) (by simp [hw, hr])
  | descriptor fd =>
    rcases h with h | ⟨fd', hf, hwr⟩
    · exact absurd rfl h
    cases room <;> cases hf
    exact .inl ⟨rfl, hwr⟩
  | other result =>
    refine absurd h.of_intoTable (not_touches rfl fun fd hf hwr => ?_)
    obtain ⟨u, -, rfl⟩ := map_eq_ok hf
    obtain ⟨⟨_, hk⟩, -⟩ := hwr
    cases hk

lemma touches_of_unasked {room : Bool} {node : Opened N} (h : Unasked s flags room i node) :
    Touches s i (intoTable room (openNode s node flags)) := by
  cases node with
  | file j =>
    obtain ⟨rfl, hd, htrunc, -, -, hne⟩ := h
    refine .inl fun he => hne ?_
    simpa [intoTable, openNode, openFile, hd, htrunc, FsState.setContent] using he.symm
  | descriptor fd =>
    obtain ⟨rfl, hwr⟩ := h
    exact .inr ⟨fd, rfl, hwr⟩
  | other result => exact h.elim

/-- If `openat` changes a regular file that was there before, or returns a descriptor that can write it, the context
is granted `Write` on the file: exactly if it is where the access mode does not ask for it. -/
theorem openat_granted (v : Openable s N) (ctx : FileAccessContext) (fuel : Nat) (startDir : N) (path : Path)
    (flags : OpenFlags) (mode umask : BitVec 12) (room : Bool) (w : Walk) :
    (∀ x, openat v ctx fuel startDir path flags mode umask room w = some x →
      ∀ i < s.fileCount, Touches s i x → MayWriteFile s ctx i) ↔
    ∀ node w', opening v ctx fuel startDir path flags w = some (.ok (.found (.existing node)), w') →
      ∀ i < s.fileCount, Unasked s flags room i (v.opens node) → MayWriteFile s ctx i := by
  constructor
  · intro h node w' hn i hi hu
    refine h _ ?_ i hi (touches_of_unasked hu)
    rw [openat, hn]
    rfl
  intro h x hx i hi ht
  unfold openat at hx
  split at hx
  · cases hx
  · cases hx
    exact absurd ht (not_touches_error rfl)
  rename_i o w' ho
  obtain ⟨y, hy, rfl⟩ := Option.map_eq_some_iff.1 hx
  cases o with
  | path node =>
    cases hy
    refine absurd ht.of_intoTable (not_touches rfl fun fd hf hwr => ?_)
    cases hf
    obtain ⟨⟨_, hk⟩, -⟩ := hwr
    cases hk
  | found c =>
    cases c with
    | create dir name => exact absurd ht.of_intoTable (createAndOpen_other hi hy)
    | existing node =>
      cases hy
      rcases openNode_touches ht with hu | ⟨hfile, hw⟩
      · exact h node w' ho i hi hu
      · obtain ⟨stat, hs, ha⟩ := opening_checked startDir path w _ w' ho node rfl
        cases hs.symm.trans (v.stat_file node i hfile)
        exact write_of_checkAccess hw ha

/-! ## The tmpfs file systems alone -/

/-- The nodes of the tmpfs file systems; `device` opens the devices and pipes.
kernel/fs/fd/dir.rs:20-30, tmpfs.rs:978-980 -/
def FsState.openable (s : FsState) (device : Entry → OpenFlags → Except ErrorKind Unit) : Openable s Entry where
  toMounted := s.mounted
  opens
    | .file i => .file i
    | .dir _ | .mount _ => .other fun flags => if flags.wronly || flags.rdwr then .error .isDir else .ok ()
    | .symlink _ _ => .other fun _ => .error .loop
    | e => .other (device e)
  stat_file n i h := by
    cases n <;> cases h
    rfl

/-- A root directory with the file `a` of the super user. -/
def shared : FsState :=
  { FsState.new with
    dirs := fun _ => ⟨0, .root, ⟨0o755, 0, 0⟩, (∅ : Items).insert nameA (.file 0)⟩
    files := fun _ => ⟨[1, 2, 3], ⟨0o644, 0, 0⟩, 1⟩
    fileCount := 1 }

def readOnly : OpenFlags := ⟨false, false, false, false, false, false, false, false, false⟩

/-- A user who may only read the file truncates it with `O_RDONLY | O_TRUNC`. -/
theorem readonly_truncates :
    ∃ x, openat (shared.openable fun _ _ => .error .noDev) user 17 (.dir 0) pathA { readOnly with trunc := true }
        0 0 true (.start 16) = some x ∧
      (shared.files 0).content = [1, 2, 3] ∧ (x.2.files 0).content = [] ∧
      user.filesystemUserId ≠ superUser ∧ ¬MayWriteFile shared user 0 :=
  ⟨_, rfl, rfl, rfl, by decide, by decide⟩

end Mushroom.L5
