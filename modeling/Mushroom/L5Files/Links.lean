import Mushroom.L5Files.Effect

/-!
# Link counts

The link count of a file is changed by the clones and drops of entries only.
`Balanced s held`: every file has as many links as there are entries for it in
the directories and in `held`, the entries a call has in its hands. Each
elementary move keeps it, and a call starts and ends with empty hands.
-/
namespace Mushroom.L5
open List Function L1 Items FsState

/-- The number of directory entries for file `i`; a freed directory has none. -/
def FsState.refs (s : FsState) (i : Nat) : Nat := ∑ d ∈ Finset.range s.dirCount, (values (s.items d)).count (.file i)

structure Balanced (s : FsState) (held : List Entry) : Prop where
  links : ∀ i < s.fileCount, (s.files i).links = s.refs i + held.count (.file i)
  fresh : ∀ i, s.fileCount ≤ i → s.refs i + held.count (.file i) = 0
  vacant : ∀ d, ¬s.Live d → s.items d = ∅

/-! ## Counting entries -/

lemma count_values_erase (m : Items) (n : FileName) (x : Entry) :
    (values (m.erase n)).count x + (m.lookup n).toList.count x = (values m).count x := by
  have h : ∀ l : List ((_ : FileName) × Entry), ((l.kerase n).map fun y => y.2).count x +
      (l.dlookup n).toList.count x = (l.map fun y => y.2).count x := by
    intro l
    induction l with
    | nil => rfl
    | cons y l ih =>
      obtain ⟨a, b⟩ := y
      by_cases ha : n = a
      · subst ha
        simp [List.kerase, count_cons]
      rw [kerase_cons_ne ha, dlookup_cons_ne _ _ ha]
      simp only [map_cons, count_cons]
      omega
  exact h m.entries

lemma count_values_insert (m : Items) (n : FileName) (e x : Entry) :
    (values (m.insert n e)).count x + (m.lookup n).toList.count x = (values m).count x + [e].count x := by
  have hi : values (m.insert n e) = e :: values (m.erase n) := rfl
  rw [hi, count_cons, ← count_values_erase m n x, count_singleton]
  omega

namespace FsState

variable {s : FsState} {d : Nat}

section

variable (hd : d < s.dirCount)

include hd

lemma refs_setItems (m : Items) (i : Nat) : (s.setItems d m).refs i + (values (s.items d)).count (.file i) =
      s.refs i + (values m).count (.file i) := by
  have hmem : d ∈ Finset.range s.dirCount := Finset.mem_range.2 hd
  have hup : (s.setItems d m).refs i = ∑ p ∈ Finset.range s.dirCount,
      Function.update (fun p => (values (s.items p)).count (.file i)) d
        ((values m).count (.file i)) p := by
    refine Finset.sum_congr rfl fun p _ => ?_
    by_cases hp : p = d <;> simp [items, setItems, hp]
  have hall := Finset.add_sum_erase _ (fun p => (values (s.items p)).count (.file i)) hmem
  rw [hup, Finset.sum_update_of_mem hmem, Finset.sdiff_singleton_eq_erase, refs, ← hall]
  omega

lemma refs_put (name : FileName) (e : Entry) (i : Nat) :
    (s.setItems d ((s.items d).insert name e)).refs i + (s.lookup d name).toList.count (.file i) =
      s.refs i + [e].count (.file i) := by
  have h := refs_setItems hd ((s.items d).insert name e) i
  have hc := count_values_insert (s.items d) name e (.file i)
  simp only [lookup]
  omega

lemma refs_remove (name : FileName) (i : Nat) :
    (s.remove d name).refs i + (s.lookup d name).toList.count (.file i) = s.refs i := by
  have h := refs_setItems hd ((s.items d).erase name) i
  have hc := count_values_erase (s.items d) name (.file i)
  simp only [lookup, remove]
  omega

lemma refs_pos {name : FileName} {i : Nat} (h : s.lookup d name = some (.file i)) : 0 < s.refs i := by
  have := refs_remove hd name i
  rw [h] at this
  simp at this
  omega

end

end FsState

/-! ## Elementary moves -/

namespace Balanced

variable {s s' : FsState} {held held' : List Entry} {d : Nat} {name : FileName} {e : Entry}

section

variable (h : Balanced s held)

include h

/-- The entries that are stored and those in hand add up as before. -/
lemma recount (hf : s'.files = s.files)
    (hn : s'.fileCount = s.fileCount) (hc : ∀ i, s'.refs i + held'.count (.file i) = s.refs i + held.count (.file i))
    (hv : ∀ d, ¬s'.Live d → s'.items d = ∅) : Balanced s' held' :=
  ⟨fun i hi => by rw [hf, hc, h.links i (hn ▸ hi)], fun i hi => by rw [hc, h.fresh i (hn ▸ hi)], hv⟩

lemma congr (hi : ∀ d, s'.items d = s.items d)
    (hd : s'.dirCount = s.dirCount) (hp : s'.dropped = s.dropped) (hf : s'.files = s.files)
    (hn : s'.fileCount = s.fileCount) : Balanced s' held := by
  have hr : ∀ i, s'.refs i = s.refs i := fun i => by simp only [refs, hi, hd]
  refine h.recount hf hn (fun i => by rw [hr]) fun p hl => ?_
  rw [hi]
  refine h.vacant p fun hlive => hl ?_
  rwa [FsState.Live, hd, hp]

lemma relocate (e : Entry) (d : Nat) (name : FileName) : Balanced (s.relocate e d name) held := by
  refine h.congr (fun _ => items_relocate) ?_ ?_ ?_ ?_ <;> cases e <;> rfl

lemma remove (hd : s.Live d) (hl : s.lookup d name = some e) : Balanced (s.remove d name) (e :: held) := by
  refine h.recount rfl rfl (fun i => ?_) fun p hp => ?_
  · have hr := FsState.refs_remove hd.1 name i
    simp only [hl, Option.toList_some, count_cons, count_nil] at hr ⊢
    omega
  · have hne : p ≠ d := fun he => hp (he ▸ hd)
    rw [← h.vacant p hp]
    simp [FsState.remove, FsState.items, FsState.setItems, hne]

end

/-- An entry in hand goes into a directory; what it replaces is in hand now. -/
lemma put (h : Balanced s (e :: held)) (hd : s.Live d) (name : FileName) :
    Balanced (s.setItems d ((s.items d).insert name e)) ((s.lookup d name).toList ++ held) := by
  refine h.recount rfl rfl (fun i => ?_) fun p hp => ?_
  · have hr := refs_put hd.1 name e i
    simp only [count_cons, count_nil, count_append] at hr ⊢
    omega
  · have hne : p ≠ d := fun he => hp (he ▸ hd)
    rw [← h.vacant p hp]
    simp [items, setItems, hne]

lemma setLinks (h : Balanced s held) {i links : Nat} (hi : i < s.fileCount)
    (hl : links + held.count (.file i) = (s.files i).links + held'.count (.file i))
    (hc : ∀ j, j ≠ i → held'.count (.file j) = held.count (.file j)) : Balanced (s.setLinks i links) held' := by
  have hr : ∀ j, (s.setLinks i links).refs j = s.refs j := fun j => rfl
  refine ⟨fun j hj => ?_, fun j hj => ?_, h.vacant⟩
  · rw [hr]
    have hj' := h.links j hj
    by_cases hji : j = i
    · subst hji
      simp only [FsState.setLinks, update_self]
      omega
    · simp only [FsState.setLinks, update_of_ne hji, hc j hji]
      exact hj'
  · have hji : j ≠ i := fun he => absurd (he ▸ hj : s.fileCount ≤ i) (by omega)
    rw [hr, hc j hji]
    exact h.fresh j hj

lemma count_other (held : List Entry) (hf : ∀ i, e ≠ .file i) (i : Nat) :
    (e :: held).count (.file i) = held.count (.file i) :=
  count_cons_of_ne (hf i)

/-- An entry without a link count may be taken in hand or put away. -/
lemma cons_iff (hf : ∀ i, e ≠ .file i) : Balanced s (e :: held) ↔ Balanced s held := by
  constructor <;> exact fun h => h.recount rfl rfl (fun i => by rw [count_other held hf]) h.vacant

lemma clone (h : Balanced s held) (hd : s.Live d) (hl : s.lookup d name = some e) :
    Balanced (s.clone e) (e :: held) := by
  cases e with
  | file i =>
    have hpos := refs_pos hd.1 hl
    have hi : i < s.fileCount := by
      by_contra hge
      have := h.fresh i (Nat.le_of_not_lt hge)
      omega
    refine h.setLinks hi ?_ fun j hj => ?_
    · simp
      omega
    · rw [count_cons_of_ne]
      simpa using Ne.symm hj
  | _ => exact (cons_iff (by simp)).2 h

/-- The entry that is dropped is counted by its file, so the count is positive. -/
lemma drop (h : Balanced s (e :: held)) : ∃ s', s.drop e = .ok s' ∧ Balanced s' held := by
  cases e with
  | file i =>
    have hi : i < s.fileCount := by
      by_contra hge
      have := h.fresh i (Nat.le_of_not_lt hge)
      simp at this
    have hl := h.links i hi
    rw [count_cons_self] at hl
    refine ⟨_, if_neg (by omega), h.setLinks hi ?_ fun j hj => ?_⟩
    · rw [count_cons_self]
      omega
    · rw [count_cons_of_ne]
      simpa using Ne.symm hj
  | _ => exact ⟨s, rfl, (cons_iff (by simp)).1 h⟩

lemma insert (h : Balanced s (e :: held)) (hd : s.Live d) : ∃ s', s.insert d name e = .ok s' ∧ Balanced s' held := by
  have hp := h.put hd name
  simp only [FsState.insert]
  cases hl : s.lookup d name with
  | none =>
    rw [hl] at hp
    exact ⟨_, rfl, hp⟩
  | some old =>
    rw [hl] at hp
    exact hp.drop

lemma dropAll {es : List Entry} (h : Balanced s (es ++ held)) : ∃ s', s.dropAll es = .ok s' ∧ Balanced s' held := by
  induction es generalizing s with
  | nil => exact ⟨s, rfl, h⟩
  | cons e es ih =>
    obtain ⟨s1, h1, hb⟩ := Balanced.drop h
    obtain ⟨s', h', hb'⟩ := ih hb
    refine ⟨s', ?_, hb'⟩
    rw [dropAll, h1]
    exact h'

lemma newFile (h : Balanced s held) (own : Ownership) : Balanced (s.newFile own) (.file s.fileCount :: held) := by
  have hr : ∀ i, (s.newFile own).refs i = s.refs i := fun i => rfl
  have h0 := h.fresh s.fileCount (le_refl _)
  refine ⟨fun i hi => ?_, fun i hi => ?_, h.vacant⟩
  · rw [hr]
    by_cases he : i = s.fileCount
    · subst he
      simp only [FsState.newFile, update_self, count_cons_self]
      omega
    have hlt : i < s.fileCount := by
      have : i < s.fileCount + 1 := hi
      omega
    rw [count_cons_of_ne (by simpa using Ne.symm he)]
    simp only [FsState.newFile, update_of_ne he]
    exact h.links i hlt
  · have hge : s.fileCount + 1 ≤ i := hi
    rw [hr, count_cons_of_ne (by simp; omega)]
    exact h.fresh i (by omega)

lemma newDir (h : Balanced s held) (fs : Nat) (l : Location) (own : Ownership) : Balanced (s.newDir fs l own) held := by
  have hitems : ∀ p, (s.newDir fs l own).items p = if p = s.dirCount then ∅ else s.items p := by
    intro p
    by_cases hp : p = s.dirCount <;> simp [FsState.items, FsState.newDir, hp]
  have hr : ∀ i, (s.newDir fs l own).refs i = s.refs i := by
    intro i
    have hlast : (s.newDir fs l own).dirCount = s.dirCount + 1 := rfl
    rw [FsState.refs, hlast, Finset.sum_range_succ, hitems, if_pos rfl]
    have hlow : ∀ p ∈ Finset.range s.dirCount, (Items.values ((s.newDir fs l own).items p)).count (.file i) =
        (Items.values (s.items p)).count (.file i) := fun p hp => by
      rw [hitems, if_neg (Finset.mem_range.1 hp).ne]
    rw [Finset.sum_congr rfl hlow]
    rfl
  refine h.recount rfl rfl (fun i => by rw [hr]) fun p hp => ?_
  rw [hitems]
  split
  · rfl
  refine h.vacant p fun hl => hp ⟨?_, hl.2⟩
  exact Nat.lt_succ_of_lt hl.1

lemma release (h : Balanced s held) (hd : s.Live d) : ∃ s', s.release d = .ok s' ∧ Balanced s' held := by
  simp only [FsState.release]
  split
  · exact ⟨s, rfl, h⟩
  refine dropAll (h.recount rfl rfl (fun i => ?_) fun p hp => ?_)
  · have hr := FsState.refs_setItems hd.1 ∅ i
    change (s.setItems d ∅).refs i + _ = _
    simp only [count_append] at hr ⊢
    have h0 : (Items.values ∅).count (.file i) = 0 := rfl
    omega
  by_cases hpd : p = d
  · simp [FsState.items, FsState.setItems, hpd]
  have hitems : s.items p = ∅ := by
    refine h.vacant p fun hl => hp ⟨hl.1, ?_⟩
    rw [← hl.2]
    exact update_of_ne hpd ..
  rw [← hitems]
  simp [FsState.items, FsState.setItems, hpd]

end Balanced

/-! ## Calls and runs -/

lemma Entry.Loose.ne_file {e : Entry} (h : e.Loose) (i : Nat) : e ≠ .file i := by
  rintro rfl
  exact h

/-- It may hang, but no link count runs below zero and the state is balanced. -/
lemma Effect.balanced {s : FsState} {op : FsOp} {x : Except Stuck FsState} (h : Effect s op x)
    (hd : ∀ d ∈ op.dirs, s.Live d) (hb : Balanced s []) : x = .error .hang ∨ ∃ s', x = .ok s' ∧ Balanced s' [] := by
  cases h with
  | same => exact .inr ⟨s, rfl, hb⟩
  | hang => exact .inl rfl
  | file hl => exact .inr ((hb.newFile _).insert (hd _ (mem_singleton_self _)))
  | dir hl | mount =>
    have hlive := hd _ (mem_singleton_self _)
    refine .inr (((Balanced.cons_iff (by simp)).2 (hb.newDir _ _ _)).insert ⟨?_, hlive.2⟩)
    exact Nat.lt_succ_of_lt hlive.1
  | node hmem he hl => exact .inr (((Balanced.cons_iff he.ne_file).2 hb).insert (hd _ (FsOp.mem_dirs hmem)))
  | delete hmem hl => exact .inr (hb.remove (hd _ (FsOp.mem_dirs hmem)) hl).drop
  | @move d oldname _ newDir newname _ _ e hfs hl =>
    have hd1 := hd d (mem_cons_self ..)
    have hd2 := hd newDir (by simp [FsOp.dirs, FsOp.targets])
    have hb' := (hb.remove hd1 hl).relocate e newDir newname
    refine .inr (hb'.insert ?_)
    cases e <;> exact hd2
  | @swap d oldname newDir newname old new hfs hold hnew =>
    have hd1 := hd d (mem_cons_self ..)
    have hd2 := hd newDir (by simp [FsOp.dirs, FsOp.targets])
    have hb1 := hb.clone hd1 hold
    have hd3 : (s.clone old).Live newDir := by cases old <;> exact hd2
    have hb2 := hb1.put hd3 newname
    rw [lookup_clone, hnew, items_clone] at hb2
    refine .inr ((hb2.relocate new newDir newname).insert ?_)
    cases old <;> cases new <;> exact hd1
  | @link d _ _ newDir _ e hl =>
    have hd1 := hd d (mem_cons_self ..)
    have hd2 := hd newDir (by simp [FsOp.dirs, FsOp.targets])
    refine .inr ((hb.clone hd1 hl).insert ?_)
    cases e <;> exact hd2
  | release d => exact .inr (hb.release (hd d (mem_singleton_self _)))

lemma balanced_inductive : tmpfs.Inductive fun s => Balanced s [] where
  init := by
    rintro _ rfl
    exact ⟨fun i hi => absurd hi (Nat.not_lt_zero i), fun i _ => rfl, fun d _ => rfl⟩
  step := by
    intro s op s' hb hst
    obtain ⟨hd, he⟩ := step_effect hst
    rcases he.balanced hd hb with h | ⟨s1, h, hb'⟩
    · cases h
    cases h
    exact hb'

/-- In every state each file has as many links as there are entries for it, a freed directory has no entries, and
no call on live directories decrements a link count of zero. -/
theorem links_eq_entries {s : FsState} (h : tmpfs.Reachable s) :
    (∀ i < s.fileCount, (s.files i).links = s.refs i) ∧ (∀ d, ¬s.Live d → s.items d = ∅) ∧
      ∀ op, (∀ d ∈ op.dirs, s.Live d) → s.exec op ≠ .error .underflow := by
  have hb := balanced_inductive.reachable s h
  refine ⟨hb.links, hb.vacant, fun op hd hu => ?_⟩
  have he := exec_effect (s := s) op
  rw [hu] at he
  rcases he.balanced hd hb with h | ⟨s', h, -⟩ <;> cases h

/-- A file with a second link, and the error exit of a third one. -/
theorem links_eq_entries_hardLink : ∃ s, tmpfs.Reachable s ∧ (s.files 0).links = s.refs 0 ∧
    (s.files 0).links = 2 := by
  have hex : ∃ s, LTS.runFn next .new [.createFile 0 nameA ⟨0o644, 0, 0⟩, .hardLink 0 nameA false 0 nameB,
      .hardLink 0 nameB false 0 nameA] = some s ∧ s.fileCount = 1 ∧ (s.files 0).links = 2 := ⟨_, rfl, rfl, rfl⟩
  obtain ⟨s, hs, hc, hl⟩ := hex
  have hr : tmpfs.Reachable s := ⟨_, _, rfl, LTS.runFn_run hs⟩
  exact ⟨s, hr, (links_eq_entries hr).1 0 (by omega), hl⟩

end Mushroom.L5
