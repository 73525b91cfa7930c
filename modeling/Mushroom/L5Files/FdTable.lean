import Mushroom.Core.LTS
import Mushroom.Core.OrdMap
import Mushroom.L1Encoding.Path

/-!
# File descriptor tables

`kernel/fs/fd.rs:84-228` and the calls that put a descriptor into a table. Numbers
are `i32`s, the limit is a `u32` compared as an `i32`. A new descriptor gets the
smallest free number: the ordered keys run beside a counter until it falls
behind.

`dup3` does not refuse negative numbers, and `replace` only compares with the
limit (`dup3_negative`). From a limit of 2^31 on no descriptor can be added.
-/
namespace Mushroom.L5
open List L1

/-- The number of an entry's inode and its lock record are not read here.
fd.rs:284-289 -/
structure FdEntry (α : Type) where
  fd : α
  cloexec : Bool
  deriving DecidableEq

/-- fd.rs:84-86 -/
abbrev FdTable (α : Type) := List (Int × FdEntry α)

namespace FdTable

variable {α : Type} {t' : FdTable α}

def keys (t : FdTable α) : List Int := t.map Prod.fst

/-- `fd_iter.zip(counter_iter.by_ref()).find(|(fd, counter)| counter < fd)`: the
counter that is found, and where `counter_iter` stands. `zip` asks the keys
first and leaves the counter alone when there are none.
fd.rs:146-152 -/
def zipFind (limit : Int) : Int → List Int → Option Int × Int
  | counter, [] => (none, counter)
  | counter, fd :: fds =>
    if counter < limit then
      if counter < fd then (some counter, counter + 1) else zipFind limit (counter + 1) fds
    else (none, counter)

/-- fd.rs:138-156 -/
def findFreeFdNum (t : FdTable α) (min limit : BitVec 32) : Except ErrorKind Int :=
  if min.toInt < limit.toInt then
    match zipFind limit.toInt (max 0 min.toInt) (t.keys.dropWhile fun i => i < max 0 min.toInt) with
    | (some counter, _) => .ok counter
    | (none, counter) => if counter < limit.toInt then .ok counter else .error .mfile
  else .error .inval

/-- fd.rs:158-172 -/
def insertAfter (t : FdTable α) (min : BitVec 32) (e : FdEntry α) (limit : BitVec 32) :
    Except ErrorKind Int × FdTable α :=
  match t.findFreeFdNum min limit with
  | .error err => (.error err, t)
  | .ok fdNum => (.ok fdNum, OrdMap.insert fdNum e t)

/-- fd.rs:129-136 -/
def insert (t : FdTable α) (e : FdEntry α) (limit : BitVec 32) : Except ErrorKind Int × FdTable α :=
  t.insertAfter 0 e limit

/-- fd.rs:174-190 -/
def replace (t : FdTable α) (fdNum : BitVec 32) (e : FdEntry α) (limit : BitVec 32) :
    Except ErrorKind Unit × FdTable α :=
  if fdNum.toInt < limit.toInt then (.ok (), OrdMap.insert fdNum.toInt e t) else (.error .badF, t)

/-- fd.rs:192-202 -/
def get (t : FdTable α) (fdNum : BitVec 32) : Except ErrorKind (FdEntry α) :=
  match OrdMap.get t fdNum.toInt with
  | some e => .ok e
  | none => .error .badF

/-- fd.rs:211-217 -/
def close (t : FdTable α) (fdNum : BitVec 32) : Except ErrorKind Unit × FdTable α :=
  match OrdMap.get t fdNum.toInt with
  | some _ => (.ok (), t.filter fun x => x.1 ≠ fdNum.toInt)
  | none => (.error .badF, t)

/-- fd.rs:219-237 -/
def prepareForExecve (t : FdTable α) : FdTable α := t.filter fun x => !x.2.cloexec

/-! ## The calls that duplicate a descriptor -/

/-- kernel/user/process/syscall.rs:1126-1136 -/
def dup (t : FdTable α) (fildes limit : BitVec 32) : Except ErrorKind Int × FdTable α :=
  match t.get fildes with
  | .error err => (.error err, t)
  | .ok e => t.insert ⟨e.fd, false⟩ limit

/-- syscall.rs:1138-1154 -/
def dup2 (t : FdTable α) (oldfd newfd limit : BitVec 32) : Except ErrorKind Int × FdTable α :=
  if newfd.toInt < 0 then (.error .badF, t)
  else
    match t.get oldfd with
    | .error err => (.error err, t)
    | .ok e =>
      if oldfd = newfd then (.ok newfd.toInt, t)
      else
        match t.replace newfd ⟨e.fd, false⟩ limit with
        | (.error err, t) => (.error err, t)
        | (.ok (), t) => (.ok newfd.toInt, t)

/-- syscall.rs:3829-3841 -/
def dup3 (t : FdTable α) (oldfd newfd : BitVec 32) (cloexec : Bool) (limit : BitVec 32) :
    Except ErrorKind Int × FdTable α :=
  if oldfd = newfd then (.error .inval, t)
  else
    match t.get oldfd with
    | .error err => (.error err, t)
    | .ok e =>
      match t.replace newfd ⟨e.fd, cloexec⟩ limit with
      | (.error err, t) => (.error err, t)
      | (.ok (), t) => (.ok newfd.toInt, t)

/-! ## The smallest free number -/

def Free (t : FdTable α) (min limit : Int) : Set Int := { n | max 0 min ≤ n ∧ n < limit ∧ n ∉ t.keys }

lemma zipFind_spec {limit counter : Int} {fds : List Int} (hs : fds.Pairwise (· < ·))
    (hge : ∀ fd ∈ fds, counter ≤ fd) {r : Option Int} {next : Int} (h : zipFind limit counter fds = (r, next)) :
    (∃ n, r = some n ∧ counter ≤ n ∧ n < limit ∧ n ∉ fds ∧ ∀ j, counter ≤ j → j < n → j ∈ fds) ∨
      r = none ∧ counter ≤ next ∧ (next < limit → next ∉ fds) ∧ ∀ j, counter ≤ j → j < next → j ∈ fds := by
  induction fds generalizing counter with
  | nil =>
    cases h
    exact .inr ⟨rfl, Int.le_refl _, fun _ => not_mem_nil, fun j hj hlt => by omega⟩
  | cons fd fds ih =>
    obtain ⟨hfd, hrest⟩ := pairwise_cons.1 hs
    have hle : counter ≤ fd := hge fd mem_cons_self
    unfold zipFind at h
    split at h
    · split at h
      · -- the counter has fallen behind: a gap
        rename_i hl hgap
        cases h
        refine .inl ⟨counter, rfl, Int.le_refl _, hl, fun hmem => ?_, fun j hj hlt => by omega⟩
        rcases mem_cons.1 hmem with hc | hc
        · omega
        have := hfd counter hc
        omega
      rename_i hl hnot
      have hc : fd = counter := by omega
      subst hc
      have hge' : ∀ x ∈ fds, fd + 1 ≤ x := fun x hx => by
        have := hfd x hx
        omega
      have hcover : ∀ {m : Int}, (∀ j, fd + 1 ≤ j → j < m → j ∈ fds) → ∀ j, fd ≤ j → j < m → j ∈ fd :: fds := by
        intro m hm j hj hlt
        rcases Int.lt_or_eq_of_le hj with hj | hj
        · exact mem_cons_of_mem _ (hm j hj hlt)
        · exact hj ▸ mem_cons_self
      rcases ih hrest hge' h with ⟨n, hr, hn, hlim, hnot, hall⟩ | ⟨hr, hn, hnot, hall⟩
      · refine .inl ⟨n, hr, by omega, hlim, fun hmem => ?_, hcover hall⟩
        rcases mem_cons.1 hmem with hc | hc
        · omega
        · exact hnot hc
      · refine .inr ⟨hr, by omega, fun hlim hmem => ?_, hcover hall⟩
        rcases mem_cons.1 hmem with hc | hc
        · omega
        · exact hnot hlim hc
    · rename_i hl
      cases h
      exact .inr ⟨rfl, Int.le_refl _, fun hlt => absurd hlt hl, fun j hj hlt => by omega⟩

variable {t : FdTable α}

lemma keys_sorted (hs : OrdMap.Sorted t) : t.keys.Pairwise (· < ·) := pairwise_map.2 hs

lemma mem_dropWhile_lt {l : List Int} (hs : l.Pairwise (· < ·)) {m n : Int} :
    n ∈ l.dropWhile (fun i => i < m) ↔ n ∈ l ∧ m ≤ n := by
  induction l with
  | nil => simp
  | cons x l ih =>
    obtain ⟨hx, hl⟩ := pairwise_cons.1 hs
    by_cases hlt : x < m
    · rw [dropWhile_cons_of_pos (by simpa using hlt), ih hl, mem_cons]
      constructor
      · exact fun h => ⟨.inr h.1, h.2⟩
      intro ⟨h, hm⟩
      rcases h with h | h
      · omega
      · exact ⟨h, hm⟩
    · rw [dropWhile_cons_of_neg (by simpa using hlt)]
      refine ⟨fun h => ⟨h, ?_⟩, And.left⟩
      rcases mem_cons.1 h with h | h
      · omega
      have := hx n h
      omega

/-- The number that is found is the smallest free one, and with none found
none is free. -/
lemma findFreeFdNum_spec (hs : OrdMap.Sorted t) {min limit : BitVec 32} (hmin : min.toInt < limit.toInt) :
    (∃ n, t.findFreeFdNum min limit = .ok n ∧ IsLeast (t.Free min.toInt limit.toInt) n) ∨
      t.findFreeFdNum min limit = .error .mfile ∧ t.Free min.toInt limit.toInt = ∅ := by
  have hsort := keys_sorted hs
  have hmem : ∀ n, n ∈ t.keys.dropWhile (fun i => i < max 0 min.toInt) ↔ n ∈ t.keys ∧ max 0 min.toInt ≤ n :=
    fun n => mem_dropWhile_lt hsort
  have hleast : ∀ n, max 0 min.toInt ≤ n → n < limit.toInt → n ∉ t.keys.dropWhile (fun i => i < max 0 min.toInt) →
      (∀ j, max 0 min.toInt ≤ j → j < n → j ∈ t.keys.dropWhile fun i => i < max 0 min.toInt) →
      IsLeast (t.Free min.toInt limit.toInt) n := by
    intro n hn hlim hnot hall
    refine ⟨⟨hn, hlim, fun hk => hnot ((hmem n).2 ⟨hk, hn⟩)⟩, fun j hj => ?_⟩
    by_contra hlt
    exact hj.2.2 ((hmem j).1 (hall j hj.1 (not_le.1 hlt))).1
  unfold findFreeFdNum
  rw [if_pos hmin]
  cases hz : zipFind limit.toInt (max 0 min.toInt) (t.keys.dropWhile fun i => i < max 0 min.toInt) with
  | mk r next =>
    rcases zipFind_spec (hsort.sublist (dropWhile_sublist _)) (fun fd hfd => ((hmem fd).1 hfd).2) hz with
      ⟨n, rfl, hn, hlim, hnot, hall⟩ | ⟨rfl, hn, hnot, hall⟩
    · exact .inl ⟨n, rfl, hleast n hn hlim hnot hall⟩
    by_cases hlim : next < limit.toInt
    · exact .inl ⟨next, if_pos hlim, hleast next hn hlim (hnot hlim) hall⟩
    refine .inr ⟨if_neg hlim, ?_⟩
    refine Set.eq_empty_iff_forall_notMem.2 fun j hj => ?_
    have hlt : j < next := lt_of_lt_of_le hj.2.1 (not_lt.1 hlim)
    exact hj.2.2 ((hmem j).1 (hall j hj.1 hlt)).1

/-! ## Runs -/

inductive FdCall (α : Type) where
  | insert (e : FdEntry α) (limit : BitVec 32)
  | insertAfter (min : BitVec 32) (e : FdEntry α) (limit : BitVec 32)
  | dup2 (oldfd newfd limit : BitVec 32)
  | dup3 (oldfd newfd : BitVec 32) (cloexec : Bool) (limit : BitVec 32)
  | close (fdNum limit : BitVec 32)
  | prepareForExecve (limit : BitVec 32)

def FdCall.limit : FdCall α → BitVec 32
  | insert _ limit | insertAfter _ _ limit | dup2 _ _ limit | dup3 _ _ _ limit | close _ limit
  | prepareForExecve limit => limit

def FdCall.run (t : FdTable α) : FdCall α → FdTable α
  | insert e limit => (t.insert e limit).2
  | insertAfter min e limit => (t.insertAfter min e limit).2
  | dup2 oldfd newfd limit => (t.dup2 oldfd newfd limit).2
  | dup3 oldfd newfd cloexec limit => (t.dup3 oldfd newfd cloexec limit).2
  | close fdNum _ => (t.close fdNum).2
  | prepareForExecve _ => t.prepareForExecve

def calls (α : Type) : LTS (FdTable α) (FdCall α) := LTS.ofFn (· = []) fun t c => some (c.run t)

def Natural (_ : FdTable α) : FdCall α → Prop
  | .dup3 _ newfd _ _ => 0 ≤ newfd.toInt
  | _ => True

/-- A sorted table; the numbers in it were below one of the limits. -/
structure Ok (limits : List (BitVec 32)) (t : FdTable α) : Prop where
  sorted : OrdMap.Sorted t
  range : ∀ x ∈ t, 0 ≤ x.1 ∧ ∃ limit ∈ limits, x.1 < limit.toNat

lemma toInt_le_toNat (b : BitVec 32) : b.toInt ≤ b.toNat := by
  rw [BitVec.toInt_eq_toNat_cond]
  split <;> omega

variable {limits limits' : List (BitVec 32)}

section

variable (h : Ok limits t)
include h

lemma Ok.mono (hsub : limits ⊆ limits') : Ok limits' t := by
  refine ⟨h.sorted, fun x hx => ?_⟩
  obtain ⟨h0, limit, hl, hlt⟩ := h.range x hx
  exact ⟨h0, limit, hsub hl, hlt⟩

lemma Ok.put {n : Int} (e : FdEntry α) {limit : BitVec 32} (hn : 0 ≤ n) (hlt : n < limit.toInt)
    (hl : limit ∈ limits) : Ok limits (OrdMap.insert n e t) := by
  refine ⟨OrdMap.sorted_insert h.sorted n e, fun x hx => ?_⟩
  rcases OrdMap.mem_insert hx with rfl | hx
  · exact ⟨hn, limit, hl, lt_of_lt_of_le hlt (toInt_le_toNat limit)⟩
  · exact h.range x hx

lemma Ok.filter (p : Int × FdEntry α → Bool) : Ok limits (t.filter p) :=
  ⟨OrdMap.sorted_filter h.sorted p, fun x hx => h.range x (mem_of_mem_filter hx)⟩

lemma Ok.insertAfter (min : BitVec 32) (e : FdEntry α)
    {limit : BitVec 32} (hl : limit ∈ limits) : Ok limits (t.insertAfter min e limit).2 := by
  unfold FdTable.insertAfter
  by_cases hmin : min.toInt < limit.toInt
  · rcases findFreeFdNum_spec h.sorted hmin with ⟨n, hn, hleast⟩ | ⟨herr, -⟩
    · rw [hn]
      have hn0 : 0 ≤ n := le_trans (le_max_left _ _) hleast.1.1
      exact h.put e hn0 hleast.1.2.1 hl
    · rw [herr]
      exact h
  · have herr : t.findFreeFdNum min limit = .error .inval := if_neg hmin
    rw [herr]
    exact h

lemma Ok.replace {fdNum limit : BitVec 32}
    {e : FdEntry α} {r : Except ErrorKind Unit} (h0 : 0 ≤ fdNum.toInt) (hl : limit ∈ limits)
    (hr : t.replace fdNum e limit = (r, t')) : Ok limits t' := by
  unfold FdTable.replace at hr
  split at hr
  · rename_i hlt
    cases hr
    exact h.put e h0 hlt hl
  · cases hr
    exact h

lemma Ok.run {c : FdCall α} (hl : c.limit ∈ limits) (hc : Natural t c) : Ok limits (c.run t) := by
  cases c with
  | insert e limit => exact h.insertAfter 0 e hl
  | insertAfter min e limit => exact h.insertAfter min e hl
  | dup2 oldfd newfd limit =>
    show Ok limits (t.dup2 oldfd newfd limit).2
    unfold FdTable.dup2
    split
    · exact h
    rename_i hneg
    split
    · exact h
    split
    · exact h
    split
    all_goals
      rename_i hr
      exact h.replace (not_lt.1 hneg) hl hr
  | dup3 oldfd newfd cloexec limit =>
    show Ok limits (t.dup3 oldfd newfd cloexec limit).2
    unfold FdTable.dup3
    split
    · exact h
    split
    · exact h
    split
    all_goals
      rename_i hr
      exact h.replace hc hl hr
  | close fdNum limit =>
    show Ok limits (t.close fdNum).2
    unfold FdTable.close
    split
    · exact h.filter _
    · exact h
  | prepareForExecve limit => exact h.filter _

lemma Ok.steps {ls : List (FdCall α)}
    (hr : ((calls α).only Natural).Run t ls t') : Ok (limits ++ ls.map FdCall.limit) t' := by
  induction hr generalizing limits with
  | nil => exact h.mono (subset_append_left _ _)
  | @cons t t1 t2 c ls hst _ ih =>
    obtain ⟨hc, hrun⟩ := hst
    cases hrun
    have h1 : Ok (limits ++ [c.limit]) (c.run t) :=
      (h.mono (subset_append_left _ _)).run (mem_append_right _ (mem_singleton_self _)) hc
    rw [map_cons, ← singleton_append, ← append_assoc]
    exact ih h1

end

/-- **The descriptor table.** After any calls from an empty table, none a `dup3` to a negative number, every number
in the table is not negative and below a limit in force at one of the calls. For any limit below 2^31,
minimum and entry, `insert_after` files the entry under the smallest free number from the minimum on and
below the limit; it fails with `Mfile` exactly if there is none although the minimum is below the limit, with
`Inval` if the minimum is not, and then leaves the table as it is. -/
theorem fd_table_smallest_free (t : FdTable α) (ls : List (FdCall α)) (h : ((calls α).only Natural).Run [] ls t) :
    (∀ n ∈ t.keys, 0 ≤ n ∧ ∃ c ∈ ls, n < c.limit.toNat) ∧
    ∀ (min limit : BitVec 32) (e : FdEntry α), limit.toNat < 2 ^ 31 →
      (∀ n, IsLeast (t.Free min.toInt limit.toNat) n → min.toInt < limit.toNat →
        ∃ t', t.insertAfter min e limit = (.ok n, t') ∧
          ∀ j, OrdMap.get t' j = if j = n then some e else OrdMap.get t j) ∧
      ((t.insertAfter min e limit).1 = .error .mfile ↔ min.toInt < limit.toNat ∧ t.Free min.toInt limit.toNat = ∅) ∧
      ((t.insertAfter min e limit).1 = .error .inval ↔ limit.toNat ≤ min.toInt) ∧
      ∀ err, (t.insertAfter min e limit).1 = .error err → (t.insertAfter min e limit).2 = t := by
  have hok : Ok ([] ++ ls.map FdCall.limit) t :=
    Ok.steps ⟨OrdMap.sorted_nil, fun x hx => absurd hx not_mem_nil⟩ h
  refine ⟨fun n hn => ?_, fun min limit e hlimit => ?_⟩
  · obtain ⟨x, hx, rfl⟩ := mem_map.1 hn
    obtain ⟨h0, limit, hl, hlt⟩ := hok.range x hx
    obtain ⟨c, hc, rfl⟩ := mem_map.1 hl
    exact ⟨h0, c, hc, hlt⟩
  have hint : limit.toInt = limit.toNat := BitVec.toInt_eq_toNat_of_lt (by omega)
  rw [← hint]
  unfold FdTable.insertAfter
  by_cases hmin : min.toInt < limit.toInt
  · rcases findFreeFdNum_spec hok.sorted hmin with ⟨n, hn, hleast⟩ | ⟨herr, hnone⟩
    · rw [hn]
      refine ⟨fun m hm _ => ?_, ⟨nofun, fun he => ?_⟩, ⟨nofun, fun he => ?_⟩, nofun⟩
      · have hmn : m = n := hm.unique hleast
        subst hmn
        exact ⟨_, rfl, OrdMap.get_insert hok.sorted m e⟩
      · exact absurd hleast.1 (he.2 ▸ Set.notMem_empty n)
      · omega
    · rw [herr]
      refine ⟨fun m hm _ => ?_, ⟨fun _ => ⟨hmin, hnone⟩, fun _ => rfl⟩, ⟨nofun, fun he => ?_⟩, fun err he => rfl⟩
      · exact absurd hm.1 (hnone ▸ Set.notMem_empty m)
      · omega
  · have herr : t.findFreeFdNum min limit = .error .inval := if_neg hmin
    rw [herr]
    refine ⟨fun m hm hlt => absurd hlt hmin, ⟨nofun, fun he => absurd he.1 hmin⟩,
      ⟨fun _ => not_lt.1 hmin, fun _ => rfl⟩, fun err he => rfl⟩

/-- Two descriptors, the first moved to number 5: number 1 is taken below a
limit of 2. -/
theorem fd_table_smallest_free_moved : ∃ t : FdTable Nat, ((calls Nat).only Natural).Run []
        [.insert ⟨7, false⟩ 1024, .insert ⟨8, false⟩ 1024, .dup3 0 5 true 1024, .close 0 1024] t ∧
      t.keys = [1, 5] ∧ (∀ n ∈ t.keys, 0 ≤ n) ∧ (t.insertAfter 1 ⟨9, false⟩ 2).1 = .error .mfile := by
  have hrun : ((calls Nat).only Natural).Run []
      [.insert ⟨7, false⟩ 1024, .insert ⟨8, false⟩ 1024, .dup3 0 5 true 1024, .close 0 1024]
      [(1, ⟨8, false⟩), (5, ⟨7, true⟩)] :=
    .via [(0, ⟨7, false⟩)] ⟨trivial, rfl⟩ <| .via [(0, ⟨7, false⟩), (1, ⟨8, false⟩)] ⟨trivial, rfl⟩ <|
      .via [(0, ⟨7, false⟩), (1, ⟨8, false⟩), (5, ⟨7, true⟩)] ⟨show 0 ≤ (5 : BitVec 32).toInt by decide, rfl⟩ <|
        .via _ ⟨trivial, rfl⟩ (.nil _)
  obtain ⟨hrange, hinsert⟩ := fd_table_smallest_free _ _ hrun
  refine ⟨_, hrun, rfl, fun n hn => (hrange n hn).1, ?_⟩
  refine (hinsert 1 2 ⟨9, false⟩ (by decide)).2.1.2 ⟨by decide, ?_⟩
  refine Set.eq_empty_iff_forall_notMem.2 fun n hn => hn.2.2 ?_
  have hlow : 1 ≤ n := hn.1
  have hhigh : n < 2 := hn.2.1
  have hone : n = 1 := by omega
  rw [hone]
  exact mem_cons_self

/-- `dup3` to -5 files the descriptor there; with a limit of 2^31 an empty table takes none. -/
theorem dup3_negative : -5 ∈ keys (FdCall.run [(0, ⟨7, false⟩)] (.dup3 0 (-5) false 1024) : FdTable Nat) ∧
    (insertAfter ([] : FdTable Nat) 0 ⟨7, false⟩ 0x80000000).1 = .error .inval ∧
    0 ∈ Free ([] : FdTable Nat) 0 (0x80000000 : BitVec 32).toNat :=
  ⟨by decide, by rfl, by decide, by decide, not_mem_nil⟩

end FdTable

end Mushroom.L5
