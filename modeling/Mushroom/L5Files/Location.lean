import Mushroom.L5Files.Effect
import Mushroom.L5Files.Resolve

/-!
# Directories know where they are

A directory records the directory it is stored in and its name there, next to
the entry itself (`Placed`). Every call keeps the two alike but two: `exchange`
records for what it displaces the place it has just left, and for the other entry
nothing, and `rename` of a mount records nothing.

So `parent()` is the directory it is stored in, and `Directory::path` leads back
to the directory (`path_absolute`, `lookup_absolute`).
-/
namespace Mushroom.L5
open List L1 FsState

/-- The directory or mounted root an entry refers to. -/
def Entry.node? : Entry → Option Nat
  | .dir i => some i
  | .mount i => some i
  | _ => none

/-- The location of a node that is stored under a name as the entry. -/
def Entry.place : Entry → Nat → FileName → Location
  | .mount _, p, n => .mount p n
  | _, p, n => .directory p n

/-- `Location::get` without the upgrade of the parent. -/
def Location.get : Location → Option (Nat × FileName)
  | .root => none
  | .directory p n => some (p, n)
  | .mount p n => some (p, n)

variable {e : Entry}

lemma Entry.node?_eq_some {i : Nat} : e.node? = some i ↔ e = .dir i ∨ e = .mount i := by cases e <;> simp [Entry.node?]

lemma Entry.get_place (e : Entry) (p : Nat) (n : FileName) : (e.place p n).get = some (p, n) := by cases e <;> rfl

structure Placed (s : FsState) : Prop where
  root : s.location 0 = .root
  exact : ∀ p n e i, s.lookup p n = some e → e.node? = some i → s.location i = e.place p n ∧ i < s.dirCount
  vacant : ∀ d n, ¬s.Live d → s.lookup d n = none
  fresh : ∀ d, s.dirCount ≤ d → s.dropped d = false

variable {p q : Nat} {n : FileName}

lemma Entry.loose {t : FsState} (he : e.node? = none) (i : Nat)
    (hi : e.node? = some i) : t.location i = e.place p n ∧ i < t.dirCount := by
  rw [he] at hi
  cases hi

namespace Placed

variable {s s' : FsState} {d p : Nat} {name n : FileName} {e e' : Entry} {l : Location} {own : Ownership}

variable (h : Placed s)
include h

lemma files (f : Nat → File) (n : Nat) : Placed { s with files := f, fileCount := n } :=
  ⟨h.root, h.exact, h.vacant, h.fresh⟩

lemma ne_root {i : Nat} (hl : s.lookup p n = some e) (he : e.node? = some i) : i ≠ 0 := by
  intro h0
  have hloc := (h.exact p n e i hl he).1
  rw [h0, h.root] at hloc
  cases e <;> cases hloc

lemma unique {m : FileName} {i : Nat} (hl : s.lookup p n = some e)
    (he : e.node? = some i) (hl' : s.lookup q m = some e') (he' : e'.node? = some i) : p = q ∧ n = m := by
  have h1 := (h.exact p n e i hl he).1
  have h2 := (h.exact q m e' i hl' he').1
  have h3 := congrArg Location.get (h1.symm.trans h2)
  rw [Entry.get_place, Entry.get_place] at h3
  exact Prod.mk.inj (Option.some.inj h3)

lemma remove : Placed (s.remove d name) where
  root := location_remove.trans h.root
  exact p n e i hl he := by
    rw [lookup_remove] at hl
    split at hl
    · cases hl
    rw [location_remove]
    exact h.exact p n e i hl he
  vacant p n hp := by
    rw [lookup_remove, h.vacant p n hp]
    split <;> rfl
  fresh := h.fresh

/-- An entry is stored whose node, if it has one, has been told its place. -/
lemma put (hd : s.Live d) (he : ∀ i, e.node? = some i → s.location i = e.place d name ∧ i < s.dirCount) :
    Placed (s.setItems d ((s.items d).insert name e)) where
  root := (location_setItems _).trans h.root
  exact p n e' i hl he' := by
    rw [lookup_put] at hl
    rw [location_setItems]
    split at hl
    · rename_i hp
      cases hl
      rw [hp.1, hp.2]
      exact he i he'
    · exact h.exact p n e' i hl he'
  vacant p n hp := by
    have hpd : ¬(p = d ∧ n = name) := fun hpd => hp (hpd.1 ▸ hd)
    rw [lookup_put, if_neg hpd]
    exact h.vacant p n hp
  fresh := h.fresh

lemma insert (hd : s.Live d)
    (he : ∀ i, e.node? = some i → s.location i = e.place d name ∧ i < s.dirCount)
    (hs : s.insert d name e = .ok s') : Placed s' := by
  obtain ⟨f, rfl⟩ := insert_eq hs
  exact (h.put hd he).files f s.fileCount

lemma relocate {x : Nat} (h0 : x ≠ 0)
    (hx : ∀ p n e, s.lookup p n = some e → e.node? ≠ some x) : Placed (s.relocate (.dir x) d name) where
  root := by
    rw [location_relocate, if_neg (by simpa using h0)]
    exact h.root
  exact p n e i hl he := by
    rw [lookup_relocate] at hl
    have hne : x ≠ i := fun hi => hx p n e hl (hi ▸ he)
    rw [location_relocate, if_neg (by simpa using hne)]
    exact h.exact p n e i hl he
  vacant p n hp := by
    rw [lookup_relocate]
    exact h.vacant p n hp
  fresh := h.fresh

lemma newDir {fs : Nat} (h0 : 0 < s.dirCount) : Placed (s.newDir fs l own) := by
  have hnone : ∀ n, s.lookup s.dirCount n = none := fun n => h.vacant _ n fun hl => absurd hl.1 (lt_irrefl _)
  refine ⟨?_, fun p n e i hl he => ?_, fun p n hp => ?_, fun p hp => h.fresh p (Nat.le_of_succ_le hp)⟩
  · rw [location_newDir, if_neg h0.ne]
    exact h.root
  · rw [lookup_newDir hnone] at hl
    have hi := h.exact p n e i hl he
    rw [location_newDir, if_neg hi.2.ne]
    exact ⟨hi.1, Nat.lt_succ_of_lt hi.2⟩
  · rw [lookup_newDir hnone]
    exact h.vacant p n fun hl => hp ⟨Nat.lt_succ_of_lt hl.1, hl.2⟩

lemma addNode {fs : Nat} (hd : s.Live d) (he : e.node? = some s.dirCount) (hloc : l = e.place d name)
    (hs : (s.newDir fs l own).insert d name e = .ok s') : Placed s' := by
  have h0 : 0 < s.dirCount := lt_of_le_of_lt (Nat.zero_le d) hd.1
  refine (h.newDir h0).insert ⟨Nat.lt_succ_of_lt hd.1, hd.2⟩ (fun i hi => ?_) hs
  obtain rfl : s.dirCount = i := Option.some.inj (he.symm.trans hi)
  rw [location_newDir, if_pos rfl]
  exact ⟨hloc, Nat.lt_succ_self _⟩

/-- A directory is told its new place, and nothing but a mount would have to be. -/
lemma move {s' : FsState} {newDir : Nat} {oldname newname : FileName} (hd : s.Live newDir)
    (hl : s.lookup d oldname = some e) (hm : ∀ i, e ≠ .mount i)
    (hs : s.move d oldname newDir newname e = .ok s') : Placed s' := by
  cases e with
  | dir x =>
    have h0 := h.ne_root hl rfl
    have hx : ∀ p n e', (s.remove d oldname).lookup p n = some e' → e'.node? ≠ some x := by
      intro p n e' hl' he'
      rw [lookup_remove] at hl'
      split at hl'
      · cases hl'
      rename_i hne
      exact hne (h.unique hl' he' hl rfl)
    refine (h.remove.relocate h0 hx).insert hd (fun i hi => ?_) hs
    cases hi
    rw [location_relocate, if_pos rfl]
    exact ⟨rfl, (h.exact _ _ _ x hl rfl).2⟩
  | mount i => exact absurd rfl (hm i)
  | _ => exact h.remove.insert hd (fun i hi => by cases hi) hs

/-- Two entries that refer to no directory change places. -/
lemma swap {s' : FsState} {newDir : Nat} {oldname newname : FileName} {old new : Entry}
    (hd : s.Live d) (hd' : s.Live newDir) (ho : old.node? = none) (hn : new.node? = none)
    (hs : s.swap d oldname newDir newname new old = .ok s') : Placed s' := by
  obtain ⟨f, hf⟩ := FsState.clone_eq (s := s) (e := old)
  have hr : ∀ t : FsState, t.relocate new newDir newname = t := by
    intro t
    cases new <;> first | rfl | cases hn
  simp only [FsState.swap, hr, hf] at hs
  exact ((h.files f s.fileCount).put hd' (Entry.loose ho)).insert hd (Entry.loose hn) hs

lemma release (hs : s.release d = .ok s') : Placed s' := by
  simp only [FsState.release] at hs
  split at hs
  · cases hs
    exact h
  rename_i hcond
  have hlook : ∀ p n e, (s.setItems d ∅).lookup p n = some e → s.lookup p n = some e := by
    intro p n e
    rw [FsState.lookup_clear]
    grind
  obtain ⟨f, rfl⟩ := FsState.dropAll_eq hs
  refine Placed.files ?_ f _
  refine ⟨(FsState.location_setItems _).trans h.root, fun p n e i hl he => ?_, fun p n hp => ?_, fun p hp => ?_⟩
  · have hi := h.exact p n e i (hlook p n e hl) he
    exact ⟨(FsState.location_setItems _).trans hi.1, hi.2⟩
  · refine FsState.lookup_clear.trans ?_
    split
    · rfl
    rename_i hpd
    refine h.vacant p n fun hlive => hp ⟨hlive.1, ?_⟩
    exact (Function.update_of_ne hpd ..).trans hlive.2
  · have hpd : p ≠ d := fun he => hcond (.inr (.inl (he ▸ hp)))
    exact (Function.update_of_ne hpd ..).trans (h.fresh p hp)

end Placed

/-! ## Runs -/

/-- `exchange` moves no directory and no mount, and `rename` no mount. -/
def FsOp.KeepsLocations (s : FsState) : FsOp → Prop
  | .exchange d oldname newDir newname => (s.dirs newDir).fs = (s.dirs d).fs → ∀ old new,
    s.lookup d oldname = some old → s.lookup newDir newname = some new →
      d = newDir ∧ newname = oldname ∨ old.node? = none ∧ new.node? = none
  | .rename d oldname checkIsDir newDir newname _ => (s.dirs newDir).fs = (s.dirs d).fs → ∀ i,
    s.lookup d oldname = some (.mount i) →
      d = newDir ∧ newname = oldname ∨ checkIsDir = true ∨ (s.lookup newDir newname).isSome
  | _ => True

def tmpfsWhen (C : FsState → FsOp → Prop) : LTS FsState FsOp where
  init := tmpfs.init
  step s op s' := C s op ∧ tmpfs.step s op s'

variable {s : FsState}

/-- A mount is renamed to a free name only, and never as a directory. -/
lemma canRename_mount {held : List Nat} {i : Nat} {new : Option Entry} {checkIsDir : Bool}
    (h : s.canRename held (.mount i) new checkIsDir = .ok (.ok ())) : checkIsDir = false ∧ new = none := by
  simp only [canRename, Entry.isDir, Bool.not_false, Bool.and_true] at h
  split at h
  · cases h
  rename_i hc
  refine ⟨Bool.eq_false_of_not_eq_true hc, ?_⟩
  split at h
  · rfl
  · simp [canReplace] at h

lemma Entry.node?_of_ty (h : e.ty ≠ .dir) : e.node? = none := by cases e <;> first | rfl | exact absurd rfl h

lemma Effect.placed {s' : FsState} {op : FsOp} (h : Effect s op (.ok s')) (hd : ∀ d ∈ op.dirs, s.Live d)
    (hk : op.KeepsLocations s) (hp : Placed s) : Placed s' := by
  generalize hx : Except.ok s' = x at h
  cases h with
  | same =>
    cases hx
    exact hp
  | hang => cases hx
  | @file d name own hl =>
    have hp' : Placed (s.newFile own) := hp.files _ _
    exact hp'.insert (hd d (mem_singleton_self d)) (Entry.loose rfl) hx.symm
  | @dir d name own hl => exact hp.addNode (e := .dir s.dirCount) (hd d (mem_singleton_self d)) rfl rfl hx.symm
  | @node _ d name e hmem he hl =>
    refine hp.insert (hd d (FsOp.mem_dirs hmem)) (Entry.loose ?_) hx.symm
    cases e <;> first | rfl | exact he.elim
  | @mount d name own => exact hp.addNode (e := .mount s.dirCount) (hd d (mem_singleton_self d)) rfl rfl hx.symm
  | delete hmem hl hty =>
    obtain ⟨f, rfl⟩ := drop_eq hx.symm
    exact hp.remove.files f _
  | @move d oldname checkIsDir newDir newname _ _ e hfs hl hn ha hc =>
    refine hp.move (hd newDir (by simp [FsOp.dirs, FsOp.targets])) hl (fun i hi => ?_) hx.symm
    subst hi
    obtain ⟨hcheck, hnone⟩ := canRename_mount hc
    rcases hk hfs i hl with ⟨rfl, hname⟩ | hcheck' | hsome
    · exact hn rfl hname
    · rw [hcheck] at hcheck'
      cases hcheck'
    · rw [hnone] at hsome
      cases hsome
  | @swap d oldname newDir newname old new hfs hold hnew hne =>
    have hd1 := hd d (mem_cons_self ..)
    have hd2 := hd newDir (by simp [FsOp.dirs, FsOp.targets])
    obtain ⟨ho, hn⟩ := (hk hfs old new hold hnew).resolve_left hne
    exact hp.swap hd1 hd2 ho hn hx.symm
  | @link d oldname _ newDir newname e hl hty hnew =>
    obtain ⟨f, hf⟩ := clone_eq (s := s) (e := e)
    rw [hf] at hx
    have hd' := hd newDir (by simp [FsOp.dirs, FsOp.targets])
    exact (hp.files f _).insert hd' (Entry.loose (Entry.node?_of_ty hty)) hx.symm
  | release d => exact hp.release hx.symm

lemma placed_inductive : (tmpfsWhen fun s op => op.KeepsLocations s).Inductive Placed where
  init := by
    intro s hs
    rw [show s = new from hs]
    exact ⟨rfl, nofun, fun _ _ _ => rfl, fun _ _ => rfl⟩
  step := by
    intro s op s' hp hst
    obtain ⟨hd, he⟩ := step_effect hst.2
    exact he.placed hd hst.1 hp

/-! ## Paths -/

namespace FsState

/-- A mounted root is a directory to path resolution.
kernel/fs/node/tmpfs.rs:703-712 -/
def node : Entry → Entry
  | .mount i => .dir i
  | e => e

/-- The nodes of the tmpfs file systems. mirrors
tmpfs.rs:138-157, 204-211, 809-826, 990-1001 -/
def vfs (s : FsState) : Vfs Entry where
  root := .dir 0
  stat
    | .dir i | .mount i => .ok ⟨.dir, (s.dirs i).ownership⟩
    | .file i => .ok ⟨.file, (s.files i).ownership⟩
    | .symlink _ own => .ok ⟨.link, own⟩
    | .charDev _ _ own => .ok ⟨.char, own⟩
    | .fifo own => .ok ⟨.fifo, own⟩
  parent
    | .dir i => (s.parent i).map .dir
    | _ => .error .notDir
  getNode
    | .dir i, name, _ =>
      match s.lookup i name with
      | none => .error .noEnt
      | some e => .ok (node e)
    | _, _, _ => .error .notDir
  link
    | .symlink target _, _ => some (.path (.ok target))
    | _, _ => none
  readLink
    | .symlink target _, _ => .ok target
    | _, _ => .error .inval

/-- `Directory::path`; `none` is a call that is still running.
kernel/fs/node/directory.rs:140-147 -/
def path (s : FsState) : Nat → Nat → Option (Except ErrorKind Path)
  | 0, _ => none
  | fuel + 1, d =>
    match (s.location d).get with
    | none => some (Path.new [slash])
    | some (p, name) =>
      if s.dropped p then some (.error .noEnt)
      else match s.path fuel p with
        | none => none
        | some (.error e) => some (.error e)
        | some (.ok path) => some (path.joinSegment name)

/-- Directory `p` stores directory or mounted root `d`. -/
def Stores (s : FsState) (p d : Nat) : Prop := ∃ n e, s.lookup p n = some e ∧ e.node? = some d

inductive Names (s : FsState) : Nat → List FileName → Prop where
  | root : Names s 0 []
  | step {p d : Nat} {ns : List FileName} {n : FileName} {e : Entry} : Names s p ns → s.lookup p n = some e →
      e.node? = some d → Names s d (ns ++ [n])

variable {s : FsState}

lemma names_of_stores {d : Nat} (h : Relation.ReflTransGen s.Stores 0 d) : ∃ ns, s.Names d ns := by
  induction h with
  | refl => exact ⟨[], .root⟩
  | tail _ hst ih =>
    obtain ⟨ns, hns⟩ := ih
    obtain ⟨n, e, hl, he⟩ := hst
    exact ⟨ns ++ [n], .step hns hl he⟩

lemma Names.eq_root {d : Nat} (h : s.Names d []) : d = 0 := by
  generalize hns : [] = ns at h
  cases h with
  | root => rfl
  | step => simp at hns

def Searchable (s : FsState) (ctx : FileAccessContext) (d : Nat) : Prop :=
  ctx.checkPermissions ⟨.dir, (s.dirs d).ownership⟩ .execute = .ok ()

end FsState

variable {s : FsState} {d : Nat} {ns : List FileName} {ctx : FileAccessContext}

lemma Placed.not_dropped (h : Placed s) (hl : s.lookup p n = some e) : s.dropped p = false := by
  by_contra hd
  have hnone := h.vacant p n fun hlive => hd hlive.2
  rw [hnone] at hl
  cases hl

lemma Placed.parent (h : Placed s) (hl : s.lookup p n = some e) (he : e.node? = some d) : s.parent d = .ok p := by
  have hloc := (h.exact p n e d hl he).1
  have hdrop := h.not_dropped hl
  rcases Entry.node?_eq_some.1 he with rfl | rfl <;> simp [FsState.parent, hloc, Entry.place, hdrop]

/-- `Directory::path` returns, and the path it computes is made of the names. -/
lemma path_absolute (h : Placed s) (hn : s.Names d ns) :
    ∃ r, (∀ fuel, ns.length < fuel → s.path fuel d = some r) ∧ ∀ path : Path, r = .ok path →
      path.bytes = [slash] ∧ ns = [] ∨ path.bytes = absolute ns := by
  induction hn with
  | root =>
    refine ⟨Path.new [slash], fun fuel hf => ?_, fun path hp => .inl ⟨?_, rfl⟩⟩
    · obtain ⟨fuel, rfl⟩ := Nat.exists_eq_succ_of_ne_zero (Nat.ne_of_gt hf)
      simp only [path, h.root, Location.get]
    have hnew : Path.new [slash] = .ok ⟨[slash], by decide, by decide⟩ := rfl
    rw [hnew] at hp
    cases hp
    rfl
  | @step p d ns n e hp hl he ih =>
    obtain ⟨r, hr, hbytes⟩ := ih
    have hget : (s.location d).get = some (p, n) := by rw [(h.exact p n e d hl he).1, Entry.get_place]
    have hdrop := h.not_dropped hl
    refine ⟨r.bind fun path => path.joinSegment n, fun fuel hf => ?_, fun path hok => .inr ?_⟩
    · obtain ⟨fuel, rfl⟩ := Nat.exists_eq_succ_of_ne_zero (Nat.ne_of_gt (Nat.zero_lt_of_lt hf))
      have hf' : ns.length < fuel := by
        rw [length_append, length_singleton] at hf
        omega
      simp only [path, hget, hdrop, hr fuel hf', Bool.false_eq_true, if_false]
      cases r <;> rfl
    · cases r with
      | error e => cases hok
      | ok q => exact joinSegment_absolute hok (hbytes q rfl)

lemma resolveLinks_dir (ctx : FileAccessContext) (fuel d : Nat) (dir : Entry) (w : Walk) :
    resolveLinks s.vfs ctx (fuel + 1) (.dir d) dir w = some (.ok (.dir d), w) := rfl

lemma lookupSegments_name {fuel : Nat} (hl : s.lookup p n = some e) (he : e.node? = some d) (hx : s.Searchable ctx p)
    (segments : List PathSegment) (dir : Entry) (w : Walk) :
    lookupSegments s.vfs ctx (resolveLinks s.vfs ctx (fuel + 1)) (.fileName n :: segments) (dir, .dir p) w =
      lookupSegments s.vfs ctx (resolveLinks s.vfs ctx (fuel + 1)) segments (.dir p, .dir d) w.tick := by
  have hget : s.vfs.getNode (.dir p) n ctx = .ok (.dir d) := by
    simp only [vfs, hl]
    rcases Entry.node?_eq_some.1 he with rfl | rfl <;> rfl
  have hcheck : checkDirectory s.vfs ctx (.fileName n) (.dir p) = .ok () := by
    simp only [checkDirectory, vfs, reduceCtorEq, if_false, Except.bind, ne_eq, not_true_eq_false]
    exact hx
  rw [lookupSegments, resolveLinks_dir]
  simp only [Run.andThen, hcheck, nextNode, hget, Run.ofExcept, Except.bind, Except.map]

lemma lookupSegments_append {N : Type} (v : Vfs N) (ctx : FileAccessContext) (resolve : N → N → Walk → Run N)
    (a b : List PathSegment) (x : N × N) (w : Walk) : lookupSegments v ctx resolve (a ++ b) x w =
      (lookupSegments v ctx resolve a x w).andThen fun y w => lookupSegments v ctx resolve b y w := by
  induction a generalizing x w with
  | nil => rfl
  | cons segment a ih =>
    obtain ⟨startDir, node⟩ := x
    simp only [cons_append, lookupSegments]
    rcases resolve node startDir w.tick with _ | ⟨e | node, w1⟩
    · rfl
    · rfl
    simp only [Run.andThen, Run.ofExcept]
    cases (checkDirectory v ctx segment node).bind fun _ => nextNode v ctx startDir node segment with
    | error e => rfl
    | ok y => exact ih y w1

/-- The names lead from the root to the directory. -/
lemma lookup_names (hn : s.Names d ns)
    (hx : ∀ p, Relation.TransGen s.Stores p d → s.Searchable ctx p) (fuel : Nat) (w : Walk) : ∃ dir w',
    lookupSegments s.vfs ctx (resolveLinks s.vfs ctx (fuel + 1)) (.root :: ns.map .fileName) (.dir 0, .dir 0) w =
      some (.ok (dir, .dir d), w') := by
  induction hn with
  | root => exact ⟨.dir 0, w.tick, rfl⟩
  | @step p d ns n e hp hl he ih =>
    have hst : s.Stores p d := ⟨n, e, hl, he⟩
    obtain ⟨dir, w', hw⟩ := ih fun q hq => hx q (.tail hq hst)
    refine ⟨.dir p, w'.tick, ?_⟩
    rw [map_append, ← cons_append, lookupSegments_append, hw]
    exact lookupSegments_name hl he (hx p (.single hst)) [] dir w'

/-- The path of a directory leads to it for a context that may search the directories above. -/
lemma lookup_absolute (hn : s.Names d ns)
    {path : Path} (hp : path.bytes = [slash] ∧ ns = [] ∨ path.bytes = absolute ns) (h0 : s.Searchable ctx 0)
    (hx : ∀ p, Relation.TransGen s.Stores p d → s.Searchable ctx p) (fuel : Nat) (w : Walk) :
    ∃ w', lookupNode s.vfs ctx (fuel + 1) (.dir 0) path w = some (.ok (.dir d), w') := by
  rcases hp with ⟨hbytes, rfl⟩ | hbytes
  · -- the path of the root ends in a slash, behind which the root is searched
    have hseg : path.segments = [.root, .empty] := by
      rw [Path.segments, hbytes]
      rfl
    obtain rfl := hn.eq_root
    have hroot : (checkDirectory s.vfs ctx .root (.dir 0)).bind (fun _ => nextNode s.vfs ctx (.dir 0) (.dir 0) .root) =
        .ok (.dir 0, .dir 0) := rfl
    have hempty : (checkDirectory s.vfs ctx .empty (.dir 0)).bind
        (fun _ => nextNode s.vfs ctx (.dir 0) (.dir 0) .empty) = .ok (.dir 0, .dir 0) := by
      have hcheck : checkDirectory s.vfs ctx .empty (.dir 0) = .ok () := by
        simp only [checkDirectory, vfs, reduceCtorEq, if_false, Except.bind, ne_eq, not_true_eq_false]
        exact h0
      rw [hcheck]
      rfl
    refine ⟨w.tick.tick, ?_⟩
    simp only [lookupNode, lookupNodeWithParent, hseg, lookupSegments, resolveLinks_dir, Run.andThen, Run.ofExcept,
      hroot, hempty]
  · cases ns with
    | nil => exact absurd hbytes path.ne_nil
    | cons n ns =>
      obtain ⟨dir, w', hw⟩ := lookup_names hn hx fuel w
      refine ⟨w', ?_⟩
      simp only [lookupNode, lookupNodeWithParent, segments_absolute n ns path hbytes, hw, Run.andThen]

/-- In every state of a run whose calls meet the condition, a directory or mounted root stored under a name has
recorded this place, its parent is the directory it is stored in, and if it is linked to the root its path
leads back to it. -/
theorem locations_exact {s : FsState} (h : (tmpfsWhen fun s op => op.KeepsLocations s).Reachable s) :
    (∀ p n e d, s.lookup p n = some e → e.node? = some d → (s.location d).get = some (p, n) ∧ s.parent d = .ok p) ∧
    ∀ d, Relation.ReflTransGen s.Stores 0 d → ∃ r depth, (∀ fuel, depth < fuel → s.path fuel d = some r) ∧
      ∀ path, r = .ok path → ∀ ctx, s.Searchable ctx 0 → (∀ p, Relation.TransGen s.Stores p d → s.Searchable ctx p) →
        ∀ fuel limit, limit < fuel → ∃ w,
          lookupNode s.vfs ctx fuel (.dir 0) path (.start limit) = some (.ok (.dir d), w) := by
  have hp := placed_inductive.reachable s h
  refine ⟨fun p n e d hl he => ⟨?_, hp.parent hl he⟩, fun d hd => ?_⟩
  · rw [(hp.exact p n e d hl he).1, Entry.get_place]
  obtain ⟨ns, hns⟩ := names_of_stores hd
  obtain ⟨r, hr, hbytes⟩ := path_absolute hp hns
  refine ⟨r, ns.length, hr, fun path hok ctx h0 hx fuel limit hf => ?_⟩
  obtain ⟨fuel, rfl⟩ := Nat.exists_eq_succ_of_ne_zero (Nat.ne_of_gt (Nat.zero_lt_of_lt hf))
  exact lookup_absolute hns (hbytes path hok) h0 hx fuel (.start limit)

/-- `/a/b` is moved to `/b`: its location and its path follow. -/
theorem locations_exact_rename : ∃ s, (tmpfsWhen fun s op => op.KeepsLocations s).Reachable s ∧
    s.lookup 0 nameB = some (.dir 2) ∧ (s.location 2).get = some (0, nameB) := by
  let ops : List FsOp := [.createDir 0 nameA ⟨0o755, 0, 0⟩, .createDir 1 nameB ⟨0o755, 0, 0⟩,
    .rename 1 nameB true 0 nameB false]
  let s1 := (new.next (.createDir 0 nameA ⟨0o755, 0, 0⟩)).getD .new
  let s2 := (s1.next (.createDir 1 nameB ⟨0o755, 0, 0⟩)).getD .new
  let s3 := (s2.next (.rename 1 nameB true 0 nameB false)).getD .new
  have h3 : FsOp.KeepsLocations s2 (.rename 1 nameB true 0 nameB false) := fun _ i hl => .inr (.inl rfl)
  have hr : (tmpfsWhen fun s op => op.KeepsLocations s).Reachable s3 :=
    ⟨_, ops, rfl, .via s1 ⟨trivial, rfl⟩ (.via s2 ⟨trivial, rfl⟩ (.via s3 ⟨h3, rfl⟩ (.nil _)))⟩
  exact ⟨s3, hr, rfl, ((locations_exact hr).1 0 nameB (.dir 2) 2 rfl rfl).1⟩

/-- `exchange` of `/a` and `/b`: the directory stored as `b` says that it is `a`. -/
theorem exchange_misplaces : ∃ s, tmpfs.Reachable s ∧ s.lookup 0 nameB = some (.dir 1) ∧
    (s.location 1).get = some (0, nameA) ∧ s.lookup 0 nameA = some (.dir 2) := by
  have hex : ∃ s, LTS.runFn next .new [.createDir 0 nameA ⟨0o755, 0, 0⟩,
      .createDir 0 nameB ⟨0o755, 0, 0⟩, .exchange 0 nameA 0 nameB] = some s ∧
      s.lookup 0 nameB = some (.dir 1) ∧ (s.location 1).get = some (0, nameA) ∧ s.lookup 0 nameA = some (.dir 2) :=
    ⟨_, rfl, rfl, rfl, rfl⟩
  obtain ⟨s, hs, hl⟩ := hex
  exact ⟨s, ⟨_, _, rfl, LTS.runFn_run hs⟩, hl⟩

end Mushroom.L5
