import Mushroom.L5Files.Lookup

/-!
# `find_parent` and `lookup_node`

`kernel/fs/node.rs:391-475`. The two resolvers are separate folds over the
segments of a path. `lookup_node` checks a directory before it looks something up
in it; `find_parent` checks the directory a segment has led to, so that nobody
checks the start directory of a path such as `a/b` or `../b`.

`Vfs.guarded` is the file system in which a directory answers only a context that
may search it. A call that gets the same answer there has only gone through
directories the context may search.
-/
namespace Mushroom.L5

open L1

variable {N α β : Type} {f : α → Walk → Run β} {w' : Walk} {trailing : Bool}

/-! ## What a call returns -/

/-- The result and the links that are left, without the steps. -/
def Run.outcome (x : Run α) : Option (Except ErrorKind α × Nat) := x.map fun p => (p.1, p.2.limit)

lemma Run.outcome_andThen {x y : Run α} {g : α → Walk → Run β} (h : x.outcome = y.outcome)
    (hf : ∀ a w w', w.limit = w'.limit → (f a w).outcome = (g a w').outcome) :
    (x.andThen f).outcome = (y.andThen g).outcome := by
  match x, y with
  | none, none => rfl
  | some (.error _, _), some (.error _, _) => simpa [outcome, andThen] using h
  | some (.ok a, w), some (.ok b, w') =>
    obtain ⟨rfl, hl⟩ : a = b ∧ w.limit = w'.limit := by simpa [outcome] using h
    exact hf a w w' hl
  | none, some _ | some _, none | some (.error _, _), some (.ok _, _) | some (.ok _, _), some (.error _, _) =>
    simp [outcome] at h

lemma Run.andThen_eq_ok {x : Run α} {b : β} :
    x.andThen f = some (.ok b, w') ↔ ∃ a w, x = some (.ok a, w) ∧ f a w = some (.ok b, w') := by
  match x with
  | none => simp [andThen]
  | some (.error _, _) => simp [andThen]
  | some (.ok a, w) => simp [andThen]

@[simp] lemma Run.ofExcept_eq_ok {x : Except ErrorKind α} {w : Walk} {a : α} :
    Run.ofExcept x w = some (.ok a, w') ↔ x = .ok a ∧ w = w' := by
  simp [Run.ofExcept]

section

variable {v : Vfs N} {ctx : FileAccessContext} {resolve : N → N → Walk → Run N} {segment : PathSegment}

/-- Links are followed by the limit alone. -/
def ByLimit (resolve : N → N → Walk → Run N) : Prop :=
  ∀ node dir w w', w.limit = w'.limit → (resolve node dir w).outcome = (resolve node dir w').outcome

lemma lookupSegments_byLimit (hr : ByLimit resolve)
    (segments : List PathSegment) (x : N × N) {w : Walk} (h : w.limit = w'.limit) :
    (lookupSegments v ctx resolve segments x w).outcome = (lookupSegments v ctx resolve segments x w').outcome := by
  induction segments generalizing x w w' with
  | nil => simp [lookupSegments, Run.outcome, h]
  | cons segment segments ih =>
    refine Run.outcome_andThen (hr _ _ _ _ h) fun node w w' h => ?_
    exact Run.outcome_andThen (by simp [Run.ofExcept, Run.outcome, h]) fun x w w' h => ih x h

lemma resolveLinks_byLimit (fuel : Nat) : ByLimit (resolveLinks v ctx fuel) := by
  induction fuel with
  | zero => exact fun _ _ _ _ _ => rfl
  | succ fuel ih =>
    intro node dir w w' h
    simp only [resolveLinks]
    cases v.link node ctx with
    | none => simp [Run.outcome, h]
    | some link =>
      by_cases h0 : w'.limit = 0
      · simp [Walk.followSymlink, Run.outcome, h, h0]
      simp only [Walk.followSymlink, h, h0, if_false]
      cases link with
      | node target => exact Run.outcome_andThen (by simp [Run.ofExcept, Run.outcome]) fun node w w' h => ih _ _ _ _ h
      | path target =>
        refine Run.outcome_andThen (by simp [Run.ofExcept, Run.outcome]) fun path w w' h => ?_
        exact Run.outcome_andThen (lookupSegments_byLimit ih _ _ h) fun x w w' h => ih _ _ _ _ h

/-! ## Directories that are searched -/

/-- Nothing is found in a directory the context may not search. -/
def Vfs.guarded (v : Vfs N) (ctx : FileAccessContext) : Vfs N :=
  { v with
    parent := fun n => (checkParent v ctx n).bind fun _ => v.parent n
    getNode := fun n name ctx' => (checkParent v ctx n).bind fun _ => v.getNode n name ctx' }

variable {dir dir' : N}

lemma checkDirectory_searched {node : N} (hs : segment ≠ .root) (hd : segment ≠ .dot) :
    checkDirectory v ctx segment node = checkParent v ctx node := by
  simp [checkDirectory, checkParent, hs, hd]

lemma next_guarded (startDir node : N) (segment : PathSegment) :
    ((checkDirectory (v.guarded ctx) ctx segment node).bind fun _ =>
      nextNode (v.guarded ctx) ctx startDir node segment) =
      (checkDirectory v ctx segment node).bind fun _ => nextNode v ctx startDir node segment := by
  have hcheck : checkDirectory (v.guarded ctx) ctx segment node = checkDirectory v ctx segment node := rfl
  rw [hcheck]
  cases segment with
  | root | empty | dot => rfl
  | dotDot | fileName =>
    rw [checkDirectory_searched (by simp) (by simp)]
    cases hc : checkParent v ctx node <;> simp [nextNode, Vfs.guarded, hc, Except.bind]

lemma lookupSegments_guarded (resolve : N → N → Walk → Run N) :
    lookupSegments (v.guarded ctx) ctx resolve = lookupSegments v ctx resolve := by
  funext segments
  induction segments with
  | nil => rfl
  | cons segment segments ih =>
    funext x w
    simp only [lookupSegments, next_guarded, ih]

lemma resolveLinks_guarded (fuel : Nat) : resolveLinks (v.guarded ctx) ctx fuel = resolveLinks v ctx fuel := by
  induction fuel with
  | zero => rfl
  | succ fuel ih =>
    funext node dir w
    simp only [resolveLinks, lookupSegments_guarded, ih]
    rfl

lemma enter_guarded (h : segment = .root ∨ checkParent v ctx dir = .ok ())
    (w : Walk) : enter (v.guarded ctx) ctx resolve dir segment w = enter v ctx resolve dir segment w := by
  rcases h with rfl | h
  · rfl
  · cases segment <;> simp [enter, Vfs.guarded, h, Except.bind]

lemma parentSegments_guarded (segments : List PathSegment)
    (h : segment = .root ∨ checkParent v ctx dir = .ok ()) (trailing : Bool) (w : Walk) :
    parentSegments (v.guarded ctx) ctx resolve segments dir segment trailing w =
      parentSegments v ctx resolve segments dir segment trailing w := by
  induction segments generalizing dir segment trailing w with
  | nil => rfl
  | cons next segments ih =>
    simp only [parentSegments, enter_guarded h, ih h]
    split
    · rfl
    congr 1
    funext dir' w'
    change (Run.ofExcept (checkParent v ctx dir') w').andThen _ = _
    cases hc : checkParent v ctx dir' with
    | error e => rfl
    | ok => exact ih (.inr hc) false w'

/-- Unless the path is absolute, its start directory is searched or it is the parent. -/
lemma start_searched {segments : List PathSegment} (hs : segment ≠ .root) {w : Walk} {x : N × PathSegment × Bool}
    (h : parentSegments (v.guarded ctx) ctx resolve segments dir segment trailing w = some (.ok x, w'))
    (hx : checkParent v ctx x.1 = .ok ()) : checkParent v ctx dir = .ok () := by
  induction segments generalizing trailing w with
  | nil =>
    cases h
    exact hx
  | cons next segments ih =>
    rw [parentSegments] at h
    split at h
    · exact ih h
    obtain ⟨dir', w1, henter, h⟩ := Run.andThen_eq_ok.1 h
    obtain ⟨_, _, hcheck, -⟩ := Run.andThen_eq_ok.1 h
    have hdir' : checkParent v ctx dir' = .ok () := (Run.ofExcept_eq_ok.1 hcheck).1
    cases hc : checkParent v ctx dir with
    | ok => rfl
    | error e =>
      cases segment with
      | root => exact absurd rfl hs
      | empty | dot =>
        cases henter
        exact hc.symm.trans hdir'
      | dotDot | fileName => simp [enter, Vfs.guarded, hc, Except.bind, Run.ofExcept, Run.andThen] at henter

/-! ## The two folds -/

section

variable (hr : ByLimit resolve)
  (hdir : ∀ n d w, checkParent v ctx n = .ok () → resolve n d w = some (.ok n, w))

include hr hdir

variable {dir : N} {w w1 : Walk} {segments : List PathSegment} {segment : PathSegment}

/-- A node is resolved before the next segment. -/
lemma lookupSegments_resolved (hne : segments ≠ []) {startDir node : N}
    {w2 : Walk} (hres : (resolve node startDir w).outcome = some (.ok dir, w2.limit))
    (hw : w1.limit = w.limit) (hc : checkParent v ctx dir = .ok ()) :
    (lookupSegments v ctx resolve segments (startDir, node) w1).outcome =
      (lookupSegments v ctx resolve segments (startDir, dir) w2).outcome := by
  cases segments with
  | nil => exact absurd rfl hne
  | cons segment segments =>
    have hfirst : (resolve node startDir w1.tick).outcome = (resolve dir startDir w2.tick).outcome := by
      rw [hr node startDir w1.tick w hw, hres, hdir _ _ _ hc]
      rfl
    refine Run.outcome_andThen hfirst fun node w w' h => ?_
    exact Run.outcome_andThen (by simp [Run.ofExcept, Run.outcome, h]) fun x w w' h =>
      lookupSegments_byLimit hr segments x h

/-- Where `find_parent` enters the directory of a segment, so does the lookup. -/
lemma lookup_enters (hstart : ∀ d w, resolve dir d w = some (.ok dir, w))
    (hs : segment = .root ∨ checkParent v ctx dir = .ok ())
    (henter : enter v ctx resolve dir segment w = some (.ok dir', w')) (hc : checkParent v ctx dir' = .ok ())
    (startDir : N) : ∃ startDir', ∀ segments, segments ≠ [] → ∀ w1, w1.limit = w.limit →
      (lookupSegments v ctx resolve (segment :: segments) (startDir, dir) w1).outcome =
        (lookupSegments v ctx resolve segments (startDir', dir') w').outcome := by
  have hcheck : checkDirectory v ctx segment dir = .ok () := by
    rcases hs with rfl | hs
    · rfl
    simp only [checkParent, Except.bind] at hs
    simp only [checkDirectory, Except.bind]
    grind
  have hstep : ∀ segments w1, lookupSegments v ctx resolve (segment :: segments) (startDir, dir) w1 =
      (Run.ofExcept (nextNode v ctx startDir dir segment) w1.tick).andThen fun x w =>
        lookupSegments v ctx resolve segments x w := by
    intro segments w1
    simp only [lookupSegments, hstart, hcheck, Run.andThen, Except.bind]
  simp only [hstep]
  cases segment with
  | root | empty | dot =>
    cases henter
    exact ⟨_, fun segments _ w1 h => lookupSegments_byLimit hr segments _ h⟩
  | dotDot =>
    obtain ⟨hp, rfl⟩ := Run.ofExcept_eq_ok.1 henter
    refine ⟨dir', fun segments _ w1 h => ?_⟩
    simp only [nextNode, hp]
    exact lookupSegments_byLimit hr segments _ h
  | fileName name =>
    obtain ⟨node, w2, hfound, hres⟩ := Run.andThen_eq_ok.1 henter
    obtain ⟨hget, rfl⟩ := Run.ofExcept_eq_ok.1 hfound
    refine ⟨dir, fun segments hne w1 h => ?_⟩
    simp only [nextNode, hget]
    exact lookupSegments_resolved hr hdir hne (by rw [hres]; rfl) h hc

omit hr hdir in
/-- After a slash that is not the last byte, the directory of the segment is entered. -/
lemma enters_of_slash {parent : N} {last : PathSegment}
    (h : parentSegments v ctx resolve segments dir segment true w = some (.ok (parent, last, false), w')) :
    segments ≠ [] ∧ ∃ w1 w2 dir', w1.limit = w.limit ∧
      enter v ctx resolve dir segment w1 = some (.ok dir', w2) ∧ checkParent v ctx dir' = .ok () := by
  induction segments generalizing w with
  | nil => simp [parentSegments] at h
  | cons next segments ih =>
    refine ⟨by simp, ?_⟩
    rw [parentSegments] at h
    split at h
    · exact (ih h).2
    obtain ⟨dir', w2, henter, h⟩ := Run.andThen_eq_ok.1 h
    obtain ⟨_, _, hcheck, -⟩ := Run.andThen_eq_ok.1 h
    exact ⟨w.tick, w2, dir', rfl, henter, (Run.ofExcept_eq_ok.1 hcheck).1⟩

/-- Induction on the segments that are left; `dir` is the directory the current one is looked up in. -/
lemma lookup_eq_getNode (startDir : N) {parent : N}
    {name : FileName} (hstart : ∀ d w, resolve dir d w = some (.ok dir, w))
    (hs : segment = .root ∨ checkParent v ctx dir = .ok ()) (hw : w1.limit = w.limit)
    (h : parentSegments v ctx resolve segments dir segment trailing w =
      some (.ok (parent, .fileName name, false), w')) :
    ((lookupSegments v ctx resolve (segment :: segments) (startDir, dir) w1).outcome.map fun p => p.1.map Prod.snd) =
      some (v.getNode parent name ctx) := by
  induction segments generalizing startDir dir segment trailing w w1 with
  | nil =>
    cases h
    have hcheck : checkDirectory v ctx (.fileName name) parent = .ok () := by
      rw [checkDirectory_searched (by simp) (by simp)]
      exact hs.resolve_left (by simp)
    simp only [lookupSegments, hstart, hcheck, nextNode, Run.andThen, Except.bind]
    cases v.getNode parent name ctx <;> rfl
  | cons next segments ih =>
    rw [parentSegments] at h
    split at h
    next hempty =>
      -- the lookup enters the directory and checks it at the empty segment, `find_parent` later
      subst hempty
      obtain ⟨hne, w2, w3, dir', hw2, henter, hc⟩ := enters_of_slash h
      obtain ⟨startDir', hlook⟩ := lookup_enters hr hdir hstart hs henter hc startDir
      have hlimit : w1.limit = w2.limit := hw.trans hw2.symm
      have hskip : lookupSegments v ctx resolve (.empty :: segments) (startDir', dir') w3 =
          lookupSegments v ctx resolve segments (startDir', dir') w3.tick := by
        simp [lookupSegments, hdir _ _ _ hc, checkDirectory_searched, hc, nextNode, Run.andThen, Run.ofExcept,
          Except.bind]
      rw [hlook _ (by simp) w1 hlimit, hskip,
        lookupSegments_byLimit hr segments _ (show w3.tick.limit = w3.limit from rfl),
        ← hlook segments hne w1 hlimit]
      exact ih startDir hstart hs (w := w.tick) hw h
    next =>
      obtain ⟨dir', w2, henter, h⟩ := Run.andThen_eq_ok.1 h
      obtain ⟨_, _, hcheck, h⟩ := Run.andThen_eq_ok.1 h
      obtain ⟨hc, rfl⟩ := Run.ofExcept_eq_ok.1 hcheck
      obtain ⟨startDir', hlook⟩ := lookup_enters hr hdir hstart hs henter hc startDir
      rw [hlook _ (by simp) w1 hw]
      exact ih startDir' (fun d w => hdir _ d w hc) (.inr hc) rfl h

end

lemma not_link (hlink : ∀ n stat, v.stat n = .ok stat → stat.ty = .dir → v.link n ctx = none) {n : N}
    (h : checkParent v ctx n = .ok ()) : v.link n ctx = none := by
  cases hst : v.stat n with
  | error e => simp [checkParent, hst, Except.bind] at h
  | ok stat =>
    refine hlink n stat hst ?_
    by_contra hty
    simp [checkParent, hst, hty, Except.bind] at h

/-- `find_parent` finds what `lookup_node` finds, in directories the context may search, exactly if the
path is absolute or the context may search the start directory. A directory is not a link. -/
theorem find_parent_iff (hlink : ∀ n stat, v.stat n = .ok stat → stat.ty = .dir → v.link n ctx = none)
    {fuel : Nat} {startDir parent : N} {path : Path} {name : FileName} {w w' : Walk}
    (hstart : v.link startDir ctx = none)
    (h : findParent v ctx (fuel + 1) startDir path w = some (.ok (parent, .fileName name, false), w')) :
    ((lookupNode v ctx (fuel + 1) startDir path w).map Prod.fst = some (v.getNode parent name ctx) ∧
        findParent (v.guarded ctx) ctx (fuel + 1) startDir path w = findParent v ctx (fuel + 1) startDir path w) ↔
      path.segments.head? = some .root ∨ checkParent v ctx startDir = .ok () := by
  have hdir : ∀ n d w, v.link n ctx = none → resolveLinks v ctx (fuel + 1) n d w = some (.ok n, w) := by
    intro n d w hn
    simp [resolveLinks, hn]
  simp only [lookupNode, lookupNodeWithParent]
  simp only [findParent, resolveLinks_guarded] at h ⊢
  cases hsegs : path.segments with
  | nil => simp [hsegs] at h
  | cons first segments =>
    simp only [hsegs] at h
    simp only [List.head?_cons, Option.some.injEq]
    obtain ⟨x, w1, hparent, h'⟩ := Run.andThen_eq_ok.1 h
    obtain ⟨_, _, hcheck, hx⟩ := Run.andThen_eq_ok.1 h'
    have hchecked := (Run.ofExcept_eq_ok.1 hcheck).1
    cases hx
    refine ⟨fun hsame => ?_, fun hcond => ⟨?_, ?_⟩⟩
    · by_contra hno
      rw [not_or] at hno
      rw [h] at hsame
      obtain ⟨y, w2, hguarded, hy⟩ := Run.andThen_eq_ok.1 hsame.2
      obtain ⟨_, _, hcheck', hy⟩ := Run.andThen_eq_ok.1 hy
      exact hno.2 (start_searched hno.1 hguarded (Run.ofExcept_eq_ok.1 hcheck').1)
    · have hlook := lookup_eq_getNode (resolveLinks_byLimit _) (fun n d w hn => hdir n d w (not_link hlink hn))
        startDir (fun d w => hdir _ d w hstart) hcond rfl hparent
      revert hlook
      cases lookupSegments v ctx (resolveLinks v ctx (fuel + 1)) (first :: segments) (startDir, startDir) w with
      | none => simp [Run.outcome]
      | some r => rcases r with ⟨_ | _, _⟩ <;> simp [Run.outcome, Run.andThen, Except.map]
    · rw [parentSegments_guarded segments hcond]
      rfl

end

/-- `a` in the start directory, which belongs to the super user and has this mode, is a directory with a `b`. -/
def twoDirs (mode : BitVec 12) : Vfs Nat where
  root := 0
  stat n := .ok ⟨if n = 2 then .file else .dir, if n = 0 then mode else 0o755, 0, 0⟩
  parent _ := .ok 0
  getNode n name _ :=
    if n = 0 ∧ name = nameA then .ok 1 else if n = 1 ∧ name = nameB then .ok 2 else .error .noEnt
  link _ _ := none
  readLink _ _ := .error .inval

def pathAB : Path := ⟨[0x61, slash, 0x62], by decide, by decide⟩

def visitor : FileAccessContext := ⟨none, 1000, 1000, []⟩

theorem find_parent_iff_readable :
    (lookupNode (twoDirs 0o755) visitor 1 0 pathAB (.start 16)).map Prod.fst = some (.ok 2) ∧
      findParent ((twoDirs 0o755).guarded visitor) visitor 1 0 pathAB (.start 16) =
        findParent (twoDirs 0o755) visitor 1 0 pathAB (.start 16) :=
  (find_parent_iff (fun _ _ _ _ => rfl) rfl
    (show findParent (twoDirs 0o755) visitor 1 0 pathAB (.start 16) =
      some (.ok (1, .fileName nameB, false), ⟨16, 0, 1⟩) from
      by decide)).2 (.inr (by decide))

/-- The start directory cannot be searched: `lookup_node` fails, `find_parent` finds the name. -/
theorem find_parent_unsearchable :
    findParent (twoDirs 0o700) visitor 1 0 pathAB (.start 16) = some (.ok (1, .fileName nameB, false), ⟨16, 0, 1⟩) ∧
      checkParent (twoDirs 0o700) visitor 0 = .error .acces ∧
      (twoDirs 0o700).getNode 1 nameB visitor = .ok 2 ∧
      lookupNode (twoDirs 0o700) visitor 1 0 pathAB (.start 16) = some (.error .acces, ⟨16, 0, 1⟩) := by
  decide

end Mushroom.L5
