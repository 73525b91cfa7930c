import Mushroom.L1Encoding.Path
import Mushroom.Core.LTS

/-!
# tmpfs directories

`kernel/fs/node/tmpfs.rs`. Directories and regular files live in two tables and
are named by their index; index 0 is the root. A directory maps names to entries,
which refer to files and directories by index. The links of a file are counted by
`Clone` and `Drop` of the entries, so every clone and drop is written out.

A call returns (a value or an error, with the new state) or is stuck: `hang`
where the source waits for a lock it already holds or walks up the parents
without an end, `underflow` where a link count is decremented below zero.
Mounted file systems are tmpfs roots too; `fs` is the index of the root.
-/
namespace Mushroom.L5

open L1

/-- kernel/fs/ownership.rs:12-16; `mode` has the bits
`0o7777` of `FileMode`. -/
structure Ownership where
  mode : BitVec 12
  (uid gid : BitVec 32)
  deriving DecidableEq

/-- kernel/user/process/syscall/args.rs:792-801 -/
inductive FileType where
  | fifo | char | dir | file | link
  deriving DecidableEq

/-- The directory it is stored in and its name there. kernel/fs/node/directory.rs:205-337 -/
inductive Location where
  | root
  | directory (parent : Nat) (fileName : FileName)
  | mount (parent : Nat) (fileName : FileName)
  deriving DecidableEq

/-- tmpfs.rs:693-700 -/
inductive Entry where
  | file (i : Nat)
  | dir (i : Nat)
  | symlink (target : Path) (ownership : Ownership)
  | charDev (major : BitVec 16) (minor : BitVec 8) (ownership : Ownership)
  | fifo (ownership : Ownership)
  | mount (i : Nat)
  deriving DecidableEq

/-- `INode::ty` of the node; a mounted node is a directory. -/
def Entry.ty : Entry → FileType
  | .file _ => .file
  | .dir _ => .dir
  | .symlink .. => .link
  | .charDev .. => .char
  | .fifo _ => .fifo
  | .mount _ => .dir

def Entry.isDir : Entry → Bool
  | .dir _ => true
  | _ => false

/-- `addr_eq(&**entry, &*d)`: the entry's node is directory `d`. -/
def Entry.isNode : Entry → Nat → Bool
  | .dir i, d => i = d
  | .mount i, d => i = d
  | _, _ => false

abbrev Items := AList fun _ : FileName => Entry

def Items.values (m : Items) : List Entry := m.entries.map fun x : (_ : FileName) × Entry => x.2

/-- tmpfs.rs:74-89 -/
structure Dir where
  fs : Nat
  location : Location
  ownership : Ownership
  items : Items

/-- tmpfs.rs:763-770; `content` is the byte
string of `buffer`. -/
structure File where
  content : Bytes
  ownership : Ownership
  links : Nat

/-- All directories and files ever created; a `dropped` one cannot be upgraded from a `Weak`. -/
structure FsState where
  dirs : Nat → Dir
  dirCount : Nat
  dropped : Nat → Bool
  files : Nat → File
  fileCount : Nat

inductive Stuck where
  | hang | underflow
  deriving DecidableEq

/-- What a call does: it returns with a value or an error, or is stuck. -/
abbrev Out (α : Type) := Except Stuck (Except ErrorKind α × FsState)

namespace FsState

variable {α : Type}

def items (s : FsState) (d : Nat) : Items := (s.dirs d).items

def location (s : FsState) (d : Nat) : Location := (s.dirs d).location

def lookup (s : FsState) (d : Nat) (name : FileName) : Option Entry := (s.items d).lookup name

def setItems (s : FsState) (d : Nat) (items : Items) : FsState :=
  { s with dirs := Function.update s.dirs d { s.dirs d with items := items } }

def setLocation (s : FsState) (d : Nat) (location : Location) : FsState :=
  { s with dirs := Function.update s.dirs d { s.dirs d with location := location } }

def setLinks (s : FsState) (i links : Nat) : FsState :=
  { s with files := Function.update s.files i { s.files i with links := links } }

/-- `TmpFsDir::new`. tmpfs.rs:92-114 -/
def newDir (s : FsState) (fs : Nat) (location : Location) (own : Ownership) : FsState :=
  { s with dirs := Function.update s.dirs s.dirCount ⟨fs, location, own, ∅⟩, dirCount := s.dirCount + 1 }

/-- `TmpFsFile::new`. tmpfs.rs:773-790 -/
def newFile (s : FsState) (own : Ownership) : FsState :=
  { s with files := Function.update s.files s.fileCount ⟨[], own, 1⟩, fileCount := s.fileCount + 1 }

/-! ## Clone and drop of an entry -/

/-- tmpfs.rs:715-729, 792-794 -/
def clone (s : FsState) : Entry → FsState
  | .file i => s.setLinks i ((s.files i).links + 1)
  | _ => s

/-- tmpfs.rs:746-752, 796-798 -/
def drop (s : FsState) : Entry → Except Stuck FsState
  | .file i => if (s.files i).links = 0 then .error .underflow else .ok (s.setLinks i ((s.files i).links - 1))
  | _ => .ok s

def dropOption (s : FsState) : Option Entry → Except Stuck FsState
  | none => .ok s
  | some e => s.drop e

def dropAll (s : FsState) : List Entry → Except Stuck FsState
  | [] => .ok s
  | e :: es => (s.drop e).bind fun s => s.dropAll es

/-- `BTreeMap::insert` with the old value dropped -/
def insert (s : FsState) (d : Nat) (name : FileName) (e : Entry) : Except Stuck FsState :=
  (s.setItems d ((s.items d).insert name e)).dropOption (s.lookup d name)

/-- `OccupiedEntry::remove`; the entry is moved out. -/
def remove (s : FsState) (d : Nat) (name : FileName) : FsState := s.setItems d ((s.items d).erase name)

/-! ## Results of a call -/

def fail (s : FsState) (e : ErrorKind) : Out α := .ok (.error e, s)

def done (s : Except Stuck FsState) (a : α) : Out α := s.map fun s => (.ok a, s)

/-- `check()?; k`; a check never changes the state. -/
def check (s : FsState) (c : Except Stuck (Except ErrorKind Unit)) (k : Out α) : Out α :=
  match c with
  | .error st => .error st
  | .ok (.error e) => s.fail e
  | .ok (.ok ()) => k

/-! ## Creating entries -/

/-- Returns the new file or the entry that is there.
tmpfs.rs:116-133 -/
def createFile (s : FsState) (d : Nat) (name : FileName) (own : Ownership) : Out (Nat ⊕ Entry) :=
  match s.lookup d name with
  | none => done ((s.newFile own).insert d name (.file s.fileCount)) (.inl s.fileCount)
  | some e => .ok (.ok (.inr e), s)

/-- tmpfs.rs:213-231 -/
def createDir (s : FsState) (d : Nat) (name : FileName) (own : Ownership) : Out Nat :=
  match s.lookup d name with
  | none => done ((s.newDir (s.dirs d).fs (.directory d name) own).insert d name (.dir s.dirCount)) s.dirCount
  | some _ => s.fail .exist

/-- A node without links or a location is stored under a free name. -/
def createNode (s : FsState) (d : Nat) (name : FileName) (node : Entry) : Out Unit :=
  match s.lookup d name with
  | none => done (s.insert d name node) ()
  | some _ => s.fail .exist

/-- tmpfs.rs:291-317 -/
def createCharDev (s : FsState) (d : Nat) (name : FileName) (major : BitVec 16) (minor : BitVec 8)
    (own : Ownership) : Out Unit :=
  s.createNode d name (.charDev major minor own)

/-- tmpfs.rs:319-336 -/
def createFifo (s : FsState) (d : Nat) (name : FileName) (own : Ownership) : Out Unit := s.createNode d name (.fifo own)

/-- Without `createNew` whatever has the name is replaced. tmpfs.rs:244-289 -/
def createLink (s : FsState) (d : Nat) (name : FileName) (target : Path) (uid gid : BitVec 32)
    (createNew : Bool) : Out Unit :=
  match s.lookup d name with
  | none => done (s.insert d name (.symlink target ⟨0o777, uid, gid⟩)) ()
  | some _ => if createNew then s.fail .exist else done (s.insert d name (.symlink target ⟨0o777, uid, gid⟩)) ()

/-- A new file system at `name`, over whatever is there. kernel/fs/node.rs:636-644, tmpfs.rs:176-182 -/
def mount (s : FsState) (d : Nat) (name : FileName) (own : Ownership) : Out Unit :=
  done ((s.newDir s.dirCount (.mount d name) own).insert d name (.mount s.dirCount)) ()

/-! ## Removing entries -/

/-- `delete_non_dir` locks the node of the entry to read its type.
tmpfs.rs:381-390 -/
def deleteNonDir (s : FsState) (d : Nat) (name : FileName) : Out Unit :=
  match s.lookup d name with
  | none => s.fail .noEnt
  | some e =>
    if e.isNode d then .error .hang
    else if e.ty = .dir then s.fail .isDir
    else done ((s.remove d name).drop e) ()

def isEmptyDir (s : FsState) : Entry → Bool
  | .dir i => (s.items i).entries.isEmpty
  | .mount i => (s.items i).entries.isEmpty
  | _ => false

/-- tmpfs.rs:392-402 -/
def deleteDir (s : FsState) (d : Nat) (name : FileName) : Out Unit :=
  match s.lookup d name with
  | none => s.fail .noEnt
  | some e =>
    if e.isNode d then .error .hang
    else if e.ty ≠ .dir then s.fail .notDir
    else if !s.isEmptyDir e then s.fail .notEmpty
    else done ((s.remove d name).drop e) ()

/-! ## Moving entries -/

/-- tmpfs.rs:426-459; `held` are the directories
whose lock the caller has. -/
def canReplace (s : FsState) (held : List Nat) : Entry → Entry → Except Stuck (Except ErrorKind Unit)
  | .mount _, _ => .ok (.error .busy)
  | _, .mount _ => .ok (.error .busy)
  | .dir _, .dir n =>
    if n ∈ held then .error .hang
    else if (s.items n).entries.isEmpty then .ok (.ok ()) else .ok (.error .notEmpty)
  | .dir _, _ => .ok (.error .notDir)
  | _, .dir _ => .ok (.error .isDir)
  | _, _ => .ok (.ok ())

/-- tmpfs.rs:416-462 -/
def canRename (s : FsState) (held : List Nat) (old : Entry) (new : Option Entry) (checkIsDir : Bool) :
    Except Stuck (Except ErrorKind Unit) :=
  if checkIsDir && !old.isDir then .ok (.error .notDir)
  else match new with
    | none => .ok (.ok ())
    | some new => s.canReplace held old new

/-- `INode::parent` of a directory. mirrors
directory.rs:23-29, 222-232 -/
def parent (s : FsState) (d : Nat) : Except ErrorKind Nat :=
  match s.location d with
  | .root => .ok d
  | .directory p _ => if s.dropped p then .error .noEnt else .ok p
  | .mount p _ => if s.dropped p then .error .noEnt else .ok p

/-- Up to the root, past a node that must not be met; a walk longer than there are directories never ends.
tmpfs.rs:513-524, 600-611 -/
def walkUp (s : FsState) (e : Entry) : Nat → Nat → Except Stuck (Except ErrorKind Unit)
  | 0, _ => .error .hang
  | fuel + 1, d =>
    if e.isNode d then .ok (.error .inval)
    else match s.parent d with
      | .error err => .ok (.error err)
      | .ok p => if p = d then .ok (.ok ()) else s.walkUp e fuel p

def checkAncestors (s : FsState) (e : Entry) (d : Nat) : Except Stuck (Except ErrorKind Unit) :=
  s.walkUp e (s.dirCount + 1) d

/-- A directory that is moved is told its new location; a mount is not. -/
def relocate (s : FsState) (e : Entry) (d : Nat) (name : FileName) : FsState :=
  match e with
  | .dir i => s.setLocation i (.directory d name)
  | _ => s

/-- tmpfs.rs:494-504, 539-554 -/
def move (s : FsState) (d : Nat) (oldname : FileName) (newDir : Nat) (newname : FileName) (e : Entry) :
    Except Stuck FsState :=
  ((s.remove d oldname).relocate e newDir newname).insert newDir newname e

/-- tmpfs.rs:404-558 -/
def rename (s : FsState) (d : Nat) (oldname : FileName) (checkIsDir : Bool) (newDir : Nat)
    (newname : FileName) (noReplace : Bool) : Out Unit :=
  if (s.dirs newDir).fs ≠ (s.dirs d).fs then s.fail .xDev
  else match s.lookup d oldname with
    | none => s.fail .noEnt
    | some old =>
      if d = newDir then
        if newname = oldname then
          if noReplace then s.fail .exist
          else s.check (s.canRename [d] old none checkIsDir) (.ok (.ok (), s))
        else if noReplace && (s.lookup d newname).isSome then s.fail .exist
        else s.check (s.canRename [d] old (s.lookup d newname) checkIsDir)
          (done (s.move d oldname d newname old) ())
      else
        s.check (s.checkAncestors old newDir) <|
        s.check (s.canRename [d, newDir] old (s.lookup newDir newname) checkIsDir) <|
        if noReplace && (s.lookup newDir newname).isSome then s.fail .exist
        else done (s.move d oldname newDir newname old) ()

/-- The clone of the old entry goes in under the new name, what it displaces is told the location it has just left
and goes in under the old name. tmpfs.rs:577-595, 613-625 -/
def swap (s : FsState) (d : Nat) (oldname : FileName) (newDir : Nat) (newname : FileName)
    (new : Entry) (old : Entry) : Except Stuck FsState :=
  (((s.clone old).setItems newDir ((s.items newDir).insert newname old)).relocate new newDir newname).insert
    d oldname new

/-- tmpfs.rs:560-631 -/
def exchange (s : FsState) (d : Nat) (oldname : FileName) (newDir : Nat) (newname : FileName) : Out Unit :=
  if (s.dirs newDir).fs ≠ (s.dirs d).fs then s.fail .xDev
  else if d = newDir ∧ newname = oldname then .ok (.ok (), s)
  else match s.lookup d oldname with
    | none => s.fail .noEnt
    | some old =>
      match s.lookup newDir newname with
      | none =>
        -- in one directory the old entry has been cloned by now
        if d = newDir then ((s.clone old).drop old).bind fun s => s.fail .noEnt else s.fail .noEnt
      | some new =>
        if d = newDir then done (s.swap d oldname newDir newname new old) ()
        else s.check (s.checkAncestors new newDir) (done (s.swap d oldname newDir newname new old) ())

/-- The target of a symbolic link that is to be followed.
tmpfs.rs:648-652 -/
def symlinkTarget (followSymlink : Bool) : Entry → Option Path
  | .symlink target _ => if followSymlink then some target else none
  | _ => none

/-- tmpfs.rs:633-691 -/
def hardLink (s : FsState) (d : Nat) (oldname : FileName) (followSymlink : Bool) (newDir : Nat)
    (newname : FileName) : Out (Option Path) :=
  if (s.dirs newDir).fs ≠ (s.dirs d).fs then s.fail .xDev
  else match s.lookup d oldname with
    | none => s.fail .noEnt
    | some e =>
      let s := s.clone e
      match symlinkTarget followSymlink e with
      | some target => (s.drop e).bind fun s => .ok (.ok (some target), s)
      | none =>
        match e with
        | .dir _ => (s.drop e).bind fun s => s.fail .perm
        | .mount _ => (s.drop e).bind fun s => s.fail .busy
        | _ =>
          match s.lookup newDir newname with
          | none => done (s.insert newDir newname e) none
          | some _ => (s.drop e).bind fun s => s.fail .exist

/-! ## The end of a directory -/

/-- An entry of some directory refers to `d`. -/
def referred (s : FsState) (d : Nat) : Bool :=
  (List.range s.dirCount).any fun p => (Items.values (s.items p)).any fun e => e.isNode d

/-- The last reference to `d` outside the directories is given up: it is freed and its entries are dropped, unless
an entry still refers to it; the root is never freed. -/
def release (s : FsState) (d : Nat) : Except Stuck FsState :=
  if d = 0 ∨ s.dirCount ≤ d ∨ s.referred d then .ok s
  else { s.setItems d ∅ with dropped := Function.update s.dropped d true }.dropAll
    (Items.values (s.items d))

end FsState

/-! ## Runs -/

inductive FsOp where
  | createFile (d : Nat) (name : FileName) (own : Ownership)
  | createDir (d : Nat) (name : FileName) (own : Ownership)
  | createLink (d : Nat) (name : FileName) (target : Path) (uid gid : BitVec 32) (createNew : Bool)
  | createCharDev (d : Nat) (name : FileName) (major : BitVec 16) (minor : BitVec 8) (own : Ownership)
  | createFifo (d : Nat) (name : FileName) (own : Ownership)
  | mount (d : Nat) (name : FileName) (own : Ownership)
  | deleteNonDir (d : Nat) (name : FileName)
  | deleteDir (d : Nat) (name : FileName)
  | rename (d : Nat) (oldname : FileName) (checkIsDir : Bool) (newDir : Nat) (newname : FileName)
      (noReplace : Bool)
  | exchange (d : Nat) (oldname : FileName) (newDir : Nat) (newname : FileName)
  | hardLink (d : Nat) (oldname : FileName) (followSymlink : Bool) (newDir : Nat) (newname : FileName)
  | release (d : Nat)

/-- The directories whose entries a call looks at. -/
def FsOp.targets : FsOp → List Nat
  | .createFile d .. | .createDir d .. | .createLink d .. | .createCharDev d .. | .createFifo d ..
  | .mount d .. | .deleteNonDir d _ | .deleteDir d _ => [d]
  | .rename d _ _ newDir _ _ | .exchange d _ newDir _ | .hardLink d _ _ newDir _ => [d, newDir]
  | .release _ => []

/-- The directories whose entries a call may change. -/
def FsOp.changes : FsOp → List Nat
  | .hardLink _ _ _ newDir _ => [newDir]
  | op => op.targets

/-- The directories a caller must hold for the call. -/
def FsOp.dirs : FsOp → List Nat
  | .release d => [d]
  | op => op.targets

def Out.unit {α : Type} (o : Out α) : Out Unit := o.map fun x => (x.1.map fun _ => (), x.2)

def FsState.exec (s : FsState) : FsOp → Out Unit
  | .createFile d name own => Out.unit (s.createFile d name own)
  | .createDir d name own => Out.unit (s.createDir d name own)
  | .createLink d name target uid gid createNew => s.createLink d name target uid gid createNew
  | .createCharDev d name major minor own => s.createCharDev d name major minor own
  | .createFifo d name own => s.createFifo d name own
  | .mount d name own => s.mount d name own
  | .deleteNonDir d name => s.deleteNonDir d name
  | .deleteDir d name => s.deleteDir d name
  | .rename d oldname checkIsDir newDir newname noReplace => s.rename d oldname checkIsDir newDir newname noReplace
  | .exchange d oldname newDir newname => s.exchange d oldname newDir newname
  | .hardLink d oldname followSymlink newDir newname => Out.unit (s.hardLink d oldname followSymlink newDir newname)
  | .release d => FsState.done (s.release d) ()

/-- The root directory alone. node.rs:42-50 -/
def FsState.new : FsState where
  dirs _ := ⟨0, .root, ⟨0o755, 0, 0⟩, ∅⟩
  dirCount := 1
  dropped _ := false
  files _ := ⟨[], ⟨0, 0, 0⟩, 0⟩
  fileCount := 0

def FsState.Live (s : FsState) (d : Nat) : Prop := d < s.dirCount ∧ s.dropped d = false

instance (s : FsState) (d : Nat) : Decidable (s.Live d) := inferInstanceAs (Decidable (_ ∧ _))

/-- A call on live directories, whatever it returns. -/
def FsState.next (s : FsState) (op : FsOp) : Option FsState :=
  if ∀ d ∈ op.dirs, s.Live d then
    match s.exec op with
    | .ok (_, s') => some s'
    | .error _ => none
  else none

def tmpfs : LTS FsState FsOp := LTS.ofFn (fun s => s = FsState.new) FsState.next

end Mushroom.L5
