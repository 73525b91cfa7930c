import Mushroom.L5Files.TmpFs

/-!
# Path resolution

`kernel/fs/node.rs:266-529, 672-710`. `Vfs` is the part of `INode` that path
resolution calls; nothing is assumed about it, so the graph of directories and
links is arbitrary. A symbolic link (and the `exe` link) names a path that is
looked up in turn, the `self` and `fd` links of procfs lead to a node directly.

`resolve_links`, `try_resolve_link` and `lookup_node_with_parent` call each other
without an end but for the links a context may still follow. The model runs on
fuel; `none` has not returned yet. `Walk` counts the links followed and the
segments and links visited.
-/
namespace Mushroom.L5

open L1

/-! ## Permissions -/

/-- The part of `Stat` that path resolution looks at. -/
structure Stat where
  ty : FileType
  ownership : Ownership
  deriving DecidableEq

inductive Permission where
  | read | write | execute
  deriving DecidableEq

/-- node.rs:279-286; the number of links that may
still be followed is `Walk.limit`. -/
structure FileAccessContext where
  process : Option Nat
  (filesystemUserId filesystemGroupId : BitVec 32)
  supplementaryGroupIds : List (BitVec 32)
  deriving DecidableEq

def superUser : BitVec 32 := 0

def Permission.bit : Permission → Nat
  | .read => 2
  | .write => 1
  | .execute => 0

namespace FileAccessContext

/-- node.rs:348-350 -/
def isUser (ctx : FileAccessContext) (uid : BitVec 32) : Bool :=
  ctx.filesystemUserId = superUser || ctx.filesystemUserId = uid

/-- node.rs:352-356 -/
def isInGroup (ctx : FileAccessContext) (gid : BitVec 32) : Bool :=
  ctx.filesystemUserId = superUser || ctx.filesystemGroupId = gid || ctx.supplementaryGroupIds.contains gid

/-- The class of users whose bits count for the context: owner, group, other. -/
def shift (ctx : FileAccessContext) (own : Ownership) : Nat :=
  if ctx.isUser own.uid then 6 else if ctx.isInGroup own.gid then 3 else 0

/-- node.rs:309-346 -/
def checkPermissions (ctx : FileAccessContext) (stat : Stat) (permission : Permission) : Except ErrorKind Unit :=
  let mode := stat.ownership.mode
  if ctx.filesystemUserId = superUser then
    if permission = .execute && !(mode.getLsbD 6 || mode.getLsbD 3 || mode.getLsbD 0) then .error .acces
    else .ok ()
  else if mode.getLsbD (ctx.shift stat.ownership + permission.bit) then .ok () else .error .acces

end FileAccessContext

/-! ## The nodes path resolution sees -/

/-- `follow_symlink` leads to the node of a path (tmpfs symbolic links, `exe`) or to a node (`self`, `fd`). -/
inductive Link (N : Type) where
  | path (target : Except ErrorKind Path)
  | node (target : Except ErrorKind N)

/-- The part of `INode` that is called. node.rs:62-264 -/
structure Vfs (N : Type) where
  root : N
  stat : N → Except ErrorKind Stat
  parent : N → Except ErrorKind N
  getNode : N → FileName → FileAccessContext → Except ErrorKind N
  link : N → FileAccessContext → Option (Link N)
  readLink : N → FileAccessContext → Except ErrorKind Path

/-- `limit` is `symlink_recursion_limit`, the other two count what was done. -/
structure Walk where
  (limit followed steps : Nat)
  deriving DecidableEq

def Walk.start (limit : Nat) : Walk := ⟨limit, 0, 0⟩

def Walk.tick (w : Walk) : Walk := { w with steps := w.steps + 1 }

/-- `none` once the limit is used up.
node.rs:301-307 -/
def Walk.followSymlink (w : Walk) : Option Walk :=
  if w.limit = 0 then none else some ⟨w.limit - 1, w.followed + 1, w.steps + 1⟩

/-- An error or a value and the state of the context; `none` is a call that is still running. -/
abbrev Run (α : Type) := Option (Except ErrorKind α × Walk)

variable {N α β : Type}

/-- `f()?` -/
def Run.andThen (x : Run α) (f : α → Walk → Run β) : Run β :=
  match x with
  | none => none
  | some (.error e, w) => some (.error e, w)
  | some (.ok a, w) => f a w

def Run.ofExcept (x : Except ErrorKind α) (w : Walk) : Run α := some (x, w)

/-! ## Lookups -/

section

variable (v : Vfs N) (ctx : FileAccessContext)

/-- The node must be a directory one may search.
node.rs:401-408 -/
def checkDirectory (segment : PathSegment) (node : N) : Except ErrorKind Unit :=
  if segment = .root then .ok ()
  else (v.stat node).bind fun stat =>
    if stat.ty ≠ .dir then .error .notDir
    else if segment = .dot then .ok () else ctx.checkPermissions stat .execute

/-- node.rs:410-421 -/
def nextNode (startDir node : N) : PathSegment → Except ErrorKind (N × N)
  | .root => .ok (v.root, v.root)
  | .empty | .dot => .ok (startDir, node)
  | .dotDot => (v.parent node).map fun parent => (parent, parent)
  | .fileName name => (v.getNode node name ctx).map fun next => (node, next)

/-- `path.segments().try_fold(..)` with `resolve` for `resolve_links`.
node.rs:392-425 -/
def lookupSegments (resolve : N → N → Walk → Run N) : List PathSegment → N × N → Walk → Run (N × N)
  | [], x, w => some (.ok x, w)
  | segment :: segments, (startDir, node), w =>
    (resolve node startDir w.tick).andThen fun node w =>
    (Run.ofExcept ((checkDirectory v ctx segment node).bind fun _ => nextNode v ctx startDir node segment)
      w).andThen fun x w => lookupSegments resolve segments x w

/-- `try_resolve_link` until it finds no link any more.
node.rs:267-276, tmpfs.rs:994-1001,
procfs.rs:324-342, 855-868, 1028-1037 -/
def resolveLinks : Nat → N → N → Walk → Run N
  | 0, _, _, _ => none
  | fuel + 1, node, startDir, w =>
    match v.link node ctx with
    | none => some (.ok node, w)
    | some link =>
      match w.followSymlink with
      | none => some (.error .loop, w)
      | some w =>
        match link with
        | .node target => (Run.ofExcept target w).andThen fun node w => resolveLinks fuel node startDir w
        | .path target =>
          (Run.ofExcept target w).andThen fun path w =>
          (lookupSegments v ctx (resolveLinks fuel) path.segments (startDir, startDir) w).andThen
            fun x w => resolveLinks fuel x.2 x.1 w

/-- node.rs:386-426 -/
def lookupNodeWithParent (fuel : Nat) (startDir : N) (path : Path) (w : Walk) : Run (N × N) :=
  lookupSegments v ctx (resolveLinks v ctx fuel) path.segments (startDir, startDir) w

/-- node.rs:374-383 -/
def lookupNode (fuel : Nat) (startDir : N) (path : Path) (w : Walk) : Run N :=
  (lookupNodeWithParent v ctx fuel startDir path w).andThen fun x w => some (.ok x.2, w)

/-- node.rs:429-436 -/
def lookupAndResolveNode (fuel : Nat) (startDir : N) (path : Path) (w : Walk) : Run N :=
  (lookupNodeWithParent v ctx fuel startDir path w).andThen fun x w => resolveLinks v ctx fuel x.2 x.1 w

/-- node.rs:463-466, 470-472 -/
def checkParent (dir : N) : Except ErrorKind Unit :=
  (v.stat dir).bind fun stat => if stat.ty ≠ .dir then .error .notDir else ctx.checkPermissions stat .execute

/-- The directory a segment that is not the last one leads to.
node.rs:454-462 -/
def enter (resolve : N → N → Walk → Run N) (dir : N) (segment : PathSegment) (w : Walk) : Run N :=
  match segment with
  | .root => some (.ok v.root, w)
  | .empty | .dot => some (.ok dir, w)
  | .dotDot => Run.ofExcept (v.parent dir) w
  | .fileName name => (Run.ofExcept (v.getNode dir name ctx) w).andThen fun node w => resolve node dir w

/-- `segments.try_fold(..)` of `find_parent`.
node.rs:446-468 -/
def parentSegments (resolve : N → N → Walk → Run N) :
    List PathSegment → N → PathSegment → Bool → Walk → Run (N × PathSegment × Bool)
  | [], dir, segment, trailingSlash, w => some (.ok (dir, segment, trailingSlash), w)
  | next :: segments, dir, segment, _, w =>
    if next = .empty then parentSegments resolve segments dir segment true w.tick
    else
      (enter v ctx resolve dir segment w.tick).andThen fun dir w =>
      (Run.ofExcept (checkParent v ctx dir) w).andThen fun _ w =>
      parentSegments resolve segments dir next false w

/-- node.rs:438-475 -/
def findParent (fuel : Nat) (startDir : N) (path : Path) (w : Walk) : Run (N × PathSegment × Bool) :=
  match path.segments with
  | [] => some (.error .inval, w)
  | first :: segments =>
    (parentSegments v ctx (resolveLinks v ctx fuel) segments startDir first false w).andThen fun x w =>
    (Run.ofExcept (checkParent v ctx x.1) w).andThen fun _ w => some (.ok x, w)

/-- Finds the parent of a path and starts over at the target of a link, which is `.inr` of `body`. -/
def restart (body : N → PathSegment → Bool → Except ErrorKind (β ⊕ Path)) (linkFuel : Nat) :
    Nat → N → Path → Walk → Run β
  | 0, _, _, _ => none
  | fuel + 1, startDir, path, w =>
    (findParent v ctx linkFuel startDir path w).andThen fun x w =>
    (Run.ofExcept (body x.1 x.2.1 x.2.2) w).andThen fun
      | .inl b, w => some (.ok b, w)
      | .inr target, w =>
        match w.followSymlink with
        | none => some (.error .loop, w)
        | some w => restart body linkFuel fuel x.1 target w

end

/-! ## The loops of `create_file` and `hard_link` -/

/-- The flags of `open` the loop reads, and the access mode.
kernel/user/process/syscall/args.rs (`OpenFlags`) -/
structure OpenFlags where
  (wronly rdwr creat excl trunc append directory noFollow path : Bool)
  deriving DecidableEq

/-- The access mode is checked against an existing file.
node.rs:514-522, syscall.rs:3249-3257 -/
def checkAccess (ctx : FileAccessContext) (flags : OpenFlags) (stat : Stat) : Except ErrorKind Unit :=
  if flags.wronly then ctx.checkPermissions stat .write
  else if flags.rdwr then
    (ctx.checkPermissions stat .read).bind fun _ => ctx.checkPermissions stat .write
  else ctx.checkPermissions stat .read

/-- What `create_file` ends with: a name that is free in a directory, or a node
that is there. -/
inductive CreateFile (N : Type) where
  | create (dir : N) (name : FileName)
  | existing (node : N)

/-- `entry` is the node `INode::create_file` finds under the name, `none` if it creates the file.
node.rs:483-526 -/
def createFileBody (v : Vfs N) (ctx : FileAccessContext) (entry : N → FileName → Except ErrorKind (Option N))
    (flags : OpenFlags) (dir : N) (last : PathSegment) (trailingSlash : Bool) :
    Except ErrorKind (CreateFile N ⊕ Path) :=
  match last with
  | .fileName name =>
    if trailingSlash then .error .isDir
    else (entry dir name).bind fun
      | none => .ok (.inl (.create dir name))
      | some node => (v.stat node).bind fun stat =>
        if stat.ty = .link then
          if flags.excl then .error .exist
          else if flags.noFollow then .error .loop
          else (v.readLink node ctx).map .inr
        else if stat.ty = .dir then .error .exist
        else if flags.excl then .error .exist
        else (checkAccess ctx flags stat).map fun _ => .inl (.existing node)
  | _ => .error .isDir

/-- node.rs:477-529 -/
def createFile (v : Vfs N) (ctx : FileAccessContext) (entry : N → FileName → Except ErrorKind (Option N))
    (flags : OpenFlags) (fuel : Nat) (startDir : N) (path : Path) (w : Walk) : Run (CreateFile N) :=
  restart v ctx (createFileBody v ctx entry flags) fuel fuel startDir path w

/-- `target` is what `INode::hard_link` does: it links the node, or returns a target to follow.
node.rs:689-707 -/
def hardLinkBody (target : N → FileName → Except ErrorKind (Option Path)) (dir : N) (last : PathSegment)
    (trailingSlash : Bool) : Except ErrorKind ((N × FileName) ⊕ Path) :=
  if trailingSlash then .error .perm
  else match last with
    | .fileName name => (target dir name).map fun
      | some path => .inr path
      | none => .inl (dir, name)
    | _ => .error .perm

/-- The new parent and name, then those of the node that is linked. node.rs:672-710 -/
def hardLink (v : Vfs N) (ctx : FileAccessContext)
    (target : N → FileName → N → FileName → Except ErrorKind (Option Path)) (fuel : Nat) (startDir : N)
    (startPath : Path) (targetDir : N) (targetPath : Path) (w : Walk) : Run ((N × FileName) × (N × FileName)) :=
  (findParent v ctx fuel startDir startPath w).andThen fun x w =>
  match x.2.1 with
  | .fileName newName =>
    (Run.ofExcept ((v.stat x.1).bind fun stat => ctx.checkPermissions stat .write) w).andThen fun _ w =>
    (restart v ctx (hardLinkBody fun dir name => target dir name x.1 newName) fuel fuel targetDir targetPath
      w).andThen fun y w => some (.ok ((x.1, newName), y), w)
  | _ => some (.error .exist, w)

end Mushroom.L5
