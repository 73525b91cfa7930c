import Mushroom.L5Files.Effect

/-!
# What `rename` does to the directories of a tmpfs

`kernel/fs/node/tmpfs.rs:404-558`. All checks come before the first change
(`rename_cases`), so a rename that fails changes nothing. One that succeeds moves
the entry, also when the two names are hard links of one file, where POSIX has it
do nothing and keep both names.

`same` tells which names denote one file. Symbolic links, devices and pipes have no
identity in the model, so it is any relation that hard links can make.
-/
namespace Mushroom.L5

open L1 FsState

variable {s s' : FsState} {d newDir : Nat} {oldname newname : FileName} {checkIsDir noReplace : Bool}
  {r : Except ErrorKind Unit} {e : Entry}

/-! ## What is changed -/

lemma check_cases {c : Except Stuck (Except ErrorKind Unit)} {k : Out Unit} (h : s.check c k = .ok (r, s')) :
    (∃ err, r = .error err ∧ s' = s) ∨ k = .ok (r, s') := by
  rcases c with _ | err | _
  · cases h
  · cases h
    exact .inl ⟨err, rfl, rfl⟩
  · exact .inr h

lemma done_eq_ok {x : Except Stuck FsState} : done x () = .ok (r, s') ↔ r = .ok () ∧ x = .ok s' := by
  cases x <;> simp [done, Except.map, eq_comm]

/-- An error and the old state, the name it has already, or the move. -/
lemma rename_cases (h : s.rename d oldname checkIsDir newDir newname noReplace = .ok (r, s')) :
    (∃ err, r = .error err ∧ s' = s) ∨ r = .ok () ∧ ((d = newDir ∧ newname = oldname ∧ s' = s) ∨
      ¬(d = newDir ∧ newname = oldname) ∧
        ∃ e, s.lookup d oldname = some e ∧ s.move d oldname newDir newname e = .ok s') := by
  have hfail : ∀ err, s.fail err = .ok (r, s') → ∃ err, r = .error err ∧ s' = s := by
    intro err h
    cases h
    exact ⟨err, rfl, rfl⟩
  simp only [rename] at h
  split at h
  · exact .inl (hfail _ h)
  split at h
  · exact .inl (hfail _ h)
  rename_i e hl
  split at h
  · rename_i hd
    split at h
    · rename_i hn
      split at h
      · exact .inl (hfail _ h)
      refine (check_cases h).imp_right fun h => ?_
      cases h
      exact ⟨rfl, .inl ⟨hd, hn, rfl⟩⟩
    · rename_i hn
      split at h
      · exact .inl (hfail _ h)
      refine (check_cases h).imp_right fun h => ?_
      obtain ⟨hr, hm⟩ := done_eq_ok.1 h
      exact ⟨hr, .inr ⟨fun hsame => hn hsame.2, e, hl, hd ▸ hm⟩⟩
  · rename_i hd
    rcases check_cases h with hf | h
    · exact .inl hf
    refine (check_cases h).elim .inl fun h => ?_
    split at h
    · exact .inl (hfail _ h)
    obtain ⟨hr, hm⟩ := done_eq_ok.1 h
    exact .inr ⟨hr, .inr ⟨fun hsame => hd hsame.1, e, hl, hm⟩⟩

lemma lookup_move (h : s.move d oldname newDir newname e = .ok s') (p : Nat) (n : FileName) :
    s'.lookup p n = if p = newDir ∧ n = newname then some e
      else if p = d ∧ n = oldname then none else s.lookup p n := by
  obtain ⟨f, rfl⟩ := insert_eq h
  refine lookup_put.trans ?_
  rw [lookup_relocate, lookup_remove]

/-! ## Two names of one file -/

/-- What POSIX asks of a rename that succeeds; `same` if the two names denote one file. -/
structure Renamed (same : Prop) (s : FsState) (d : Nat) (oldname : FileName) (newDir : Nat) (newname : FileName)
    (s' : FsState) : Prop where
  kept : same → s'.lookup = s.lookup
  moved : ¬same → ∀ p n, s'.lookup p n = if p = newDir ∧ n = newname then s.lookup d oldname
    else if p = d ∧ n = oldname then none else s.lookup p n

/-- Hard links of one file have the same entry, and directories have none. -/
def HardLinks (s : FsState) (same : Nat → FileName → Nat → FileName → Prop) : Prop :=
  ∀ p n q m, same p n q m → ∃ e, s.lookup p n = some e ∧ s.lookup q m = some e ∧ ((p = q ∧ n = m) ∨ e.ty ≠ .dir)

lemma walkUp_of_ty (he : e.ty ≠ .dir) (fuel v : Nat) : s.walkUp e fuel v = s.walkUp (.file 0) fuel v := by
  have hnode : ∀ v, e.isNode v = false := by
    intro v
    cases e <;> first | rfl | exact absurd rfl he
  induction fuel generalizing v with
  | zero => rfl
  | succ fuel ih =>
    have hfile : (Entry.file 0).isNode v = false := rfl
    simp only [walkUp, hnode, hfile, ih]

/-- Two names of one file: nothing stops the rename. -/
lemma rename_hardLink (hn : ¬(d = newDir ∧ oldname = newname)) (hold : s.lookup d oldname = some e)
    (hnew : s.lookup newDir newname = some e) (he : e.ty ≠ .dir) (hfs : (s.dirs newDir).fs = (s.dirs d).fs)
    (hup : s.checkAncestors (.file 0) newDir = .ok (.ok ())) (hlinks : ∀ i, e = .file i → 0 < (s.files i).links) :
    ∃ s', s.rename d oldname false newDir newname false = .ok (.ok (), s') := by
  have hcan : ∀ held, s.canRename held e (some e) false = .ok (.ok ()) := by
    intro held
    cases e <;> first | rfl | exact absurd rfl he
  have hmove : ∃ s', s.move d oldname newDir newname e = .ok s' := by
    have hthere : ((s.remove d oldname).relocate e newDir newname).lookup newDir newname = some e := by
      rw [lookup_relocate, lookup_remove, if_neg (fun h => hn ⟨h.1.symm, h.2.symm⟩), hnew]
    simp only [move, FsState.insert, hthere]
    cases e with
    | file i => exact ⟨_, if_neg (hlinks i rfl).ne'⟩
    | _ => exact ⟨_, rfl⟩
  obtain ⟨s', hm⟩ := hmove
  refine ⟨s', ?_⟩
  simp only [rename, hold]
  rw [if_neg (not_not.2 hfs)]
  split
  · rename_i hd
    subst hd
    rw [if_neg (fun h => hn ⟨rfl, h.symm⟩), hnew, hcan, hm]
    rfl
  · rw [checkAncestors, walkUp_of_ty he, ← checkAncestors, hup, hnew, hcan, hm]
    rfl

/-- What POSIX asks of a rename with any flags: a failure changes nothing. -/
def RenamesPosix (same : Prop) (s : FsState) (d : Nat) (oldname : FileName) (newDir : Nat)
    (newname : FileName) : Prop :=
  ∀ checkIsDir noReplace r s', s.rename d oldname checkIsDir newDir newname noReplace = .ok (r, s') →
    (r = .ok () → Renamed same s d oldname newDir newname s') ∧ ∀ err, r = .error err → s' = s

/-- `rename` does what POSIX says if the names are not two names of one file. The converse holds in one file system
whose parents lead to the root and where every stored file has a link. -/
theorem rename_posix_iff {same : Nat → FileName → Nat → FileName → Prop} :
    ((same d oldname newDir newname → d = newDir ∧ oldname = newname) →
      RenamesPosix (same d oldname newDir newname) s d oldname newDir newname) ∧
    (HardLinks s same → (s.dirs newDir).fs = (s.dirs d).fs → s.checkAncestors (.file 0) newDir = .ok (.ok ()) →
      (∀ p n i, s.lookup p n = some (.file i) → 0 < (s.files i).links) →
      RenamesPosix (same d oldname newDir newname) s d oldname newDir newname →
      same d oldname newDir newname → d = newDir ∧ oldname = newname) := by
  constructor
  · intro hcond checkIsDir noReplace r s' h
    rcases rename_cases h with ⟨err, rfl, rfl⟩ | ⟨rfl, ⟨rfl, rfl, rfl⟩ | ⟨hne, e, hold, hm⟩⟩
    · exact ⟨nofun, fun _ _ => rfl⟩
    · refine ⟨fun _ => ⟨fun _ => rfl, fun _ p n => ?_⟩, fun _ _ => rfl⟩
      split
      · rename_i hpn
        rw [hpn.1, hpn.2]
      · rfl
    · refine ⟨fun _ => ⟨fun hlinked => ?_, fun _ p n => ?_⟩, nofun⟩
      · obtain ⟨hd, hn⟩ := hcond hlinked
        exact absurd ⟨hd, hn.symm⟩ hne
      · rw [lookup_move hm, hold]
  · intro hsame hfs hup hlinks h hlinked
    by_contra hne
    obtain ⟨e, hold, hnew, hplace | hty⟩ := hsame _ _ _ _ hlinked
    · exact hne hplace
    obtain ⟨s', hs'⟩ := rename_hardLink hne hold hnew hty hfs hup fun i hi => hlinks _ _ i (hi ▸ hold)
    have hkept := (h false false _ s' hs').1 rfl |>.kept hlinked
    rcases rename_cases hs' with ⟨_, hr, -⟩ | ⟨-, ⟨hd, hn, -⟩ | ⟨-, e', -, hm⟩⟩
    · cases hr
    · exact hne ⟨hd, hn.symm⟩
    have hgone := lookup_move hm d oldname
    rw [hkept, hold, if_neg hne, if_pos ⟨rfl, rfl⟩] at hgone
    cases hgone

/-- A file `a`, and with `link` also `b` as a hard link of it. -/
def withLinks (link : Bool) : FsState :=
  (LTS.runFn FsState.next .new (.createFile 0 nameA ⟨0o644, 0, 0⟩ ::
    if link then [.hardLink 0 nameA false 0 nameB] else [])).getD .new

/-- The file `a` gets the name `b`. -/
theorem rename_posix_single : ∃ s', (withLinks false).rename 0 nameA false 0 nameB false = .ok (.ok (), s') ∧
    Renamed False (withLinks false) 0 nameA 0 nameB s' := by
  have hall := (@rename_posix_iff (withLinks false) 0 0 nameA nameB fun _ _ _ _ => False).1 nofun
  exact ⟨_, rfl, (hall false false _ _ rfl).1 rfl⟩

/-- `a` and `b` are hard links of one file; the rename takes `a` away. -/
theorem rename_removes_link : ∃ s', (withLinks true).rename 0 nameA false 0 nameB false = .ok (.ok (), s') ∧
    (withLinks true).lookup 0 nameA = some (.file 0) ∧ (withLinks true).lookup 0 nameB = some (.file 0) ∧
    s'.lookup 0 nameA = none := ⟨_, rfl, rfl, rfl, rfl⟩

end Mushroom.L5
