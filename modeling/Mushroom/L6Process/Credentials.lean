import Mushroom.Core.LTS
import Mushroom.L1Encoding.Path

/-!
# User and group ids

The calls that change the ids of a process
(`kernel/user/process/syscall.rs:2322-2346,2419-2489,2542-2656`), for users and
groups by the same rules. The super-user, by the effective user id, sets any id.
Another process holds no id that it did not hold before (`Confined`).

`setreuid` and `setregid` store the effective id in the place of the real one:
the value -1 if it is left unchanged (`IdCall.Named` rules it out).
-/
namespace Mushroom.L6

open L1

/-- kernel/user/process/thread.rs:1016 -/
def superUser : BitVec 32 := 0

/-- The argument that leaves an id as it is.
thread.rs:1017 -/
def unchanged : BitVec 32 := BitVec.allOnes 32

/-- The ids of one kind, of the users or of the groups.
thread.rs:980-990 -/
structure Ids where
  (real effective savedSet filesystem : BitVec 32)
  deriving DecidableEq

/-- The calls below do not read the supplementary groups. -/
structure Credentials where
  (user group : Ids)
  deriving DecidableEq

/-- thread.rs:1006-1008 -/
def Credentials.isSuperUser (c : Credentials) : Bool := c.user.effective == superUser

/-! ## The rules, for one kind of ids -/

namespace Ids

/-- syscall.rs:2324-2331,2337-2344 -/
def set (su : Bool) (ids : Ids) (id : BitVec 32) : Except ErrorKind Ids :=
  if su || ids.savedSet == id || ids.real == id then .ok { ids with real := id } else .error .perm

/-- syscall.rs:2424-2434,2460-2470 -/
def setEffective (su : Bool) (ids : Ids) (eid : BitVec 32) : Except ErrorKind Ids :=
  if eid = unchanged then .ok ids
  else if su || eid == ids.real || eid == ids.effective || eid == ids.savedSet then
    .ok { ids with effective := eid, filesystem := eid }
  else .error .perm

/-- `new` has the effective id already; the real id becomes `eid`.
syscall.rs:2436-2444,2472-2480 -/
def setReal (su : Bool) (ids new : Ids) (rid eid : BitVec 32) : Except ErrorKind Ids :=
  if rid = unchanged then .ok new
  else if su || rid == ids.real || rid == ids.effective then .ok { new with real := eid }
  else .error .perm

/-- syscall.rs:2420-2453,2456-2489 -/
def setre (su : Bool) (ids : Ids) (rid eid : BitVec 32) : Except ErrorKind Ids :=
  (ids.setEffective su eid).bind fun new =>
    (ids.setReal su new rid eid).map fun new =>
      if rid ≠ unchanged ∨ (eid ≠ unchanged ∧ eid ≠ ids.real) then { new with savedSet := new.effective } else new

/-- One turn of the loop of `setresuid`: what is stored in the place of `old`.
syscall.rs:2552-2562,2595-2605 -/
def choose (su : Bool) (ids : Ids) (old src : BitVec 32) : Except ErrorKind (BitVec 32) :=
  if src = unchanged then .ok old
  else if su || src == ids.real || src == ids.effective || src == ids.savedSet then .ok src
  else .error .perm

/-- syscall.rs:2543-2568,2586-2611 -/
def setres (su : Bool) (ids : Ids) (rid eid sid : BitVec 32) : Except ErrorKind Ids :=
  (ids.choose su ids.real rid).bind fun real =>
    (ids.choose su ids.effective eid).bind fun effective =>
      (ids.choose su ids.savedSet sid).map fun savedSet => ⟨real, effective, savedSet, effective⟩

/-- syscall.rs:2629-2639,2645-2655 -/
def setfs (su : Bool) (ids : Ids) (id : BitVec 32) : Except ErrorKind Ids :=
  if su || ids.real == id || ids.effective == id || ids.savedSet == id || ids.filesystem == id then
    .ok { ids with filesystem := id }
  else .error .perm

def exchangeable (ids : Ids) : List (BitVec 32) := [ids.real, ids.effective, ids.savedSet]

def all (ids : Ids) : List (BitVec 32) := [ids.real, ids.effective, ids.savedSet, ids.filesystem]

/-- Only ids of `ids`, and only the file system id can come from the file system id. -/
structure Confined (ids new : Ids) : Prop where
  real : new.real ∈ ids.exchangeable
  effective : new.effective ∈ ids.exchangeable
  savedSet : new.savedSet ∈ ids.exchangeable
  filesystem : new.filesystem ∈ ids.all

variable {x id eid rid sid : BitVec 32} {ids new new' : Ids}

lemma mem_all_of_exchangeable (h : x ∈ ids.exchangeable) : x ∈ ids.all :=
  List.subset_append_left ids.exchangeable [ids.filesystem] h

lemma Confined.refl (ids : Ids) : Confined ids ids := by constructor <;> simp [exchangeable, all]

lemma Confined.exchangeable (h : Confined ids new) (hx : x ∈ new.exchangeable) : x ∈ ids.exchangeable := by
  simp only [Ids.exchangeable, List.mem_cons, List.not_mem_nil, or_false] at hx
  rcases hx with rfl | rfl | rfl
  · exact h.real
  · exact h.effective
  · exact h.savedSet

lemma Confined.all (h : Confined ids new) (hx : x ∈ new.all) : x ∈ ids.all := by
  rcases List.mem_append.1 (show x ∈ new.exchangeable ++ [new.filesystem] from hx) with hx | hx
  · exact mem_all_of_exchangeable (h.exchangeable hx)
  rw [List.mem_singleton.1 hx]
  exact h.filesystem

lemma Confined.trans {a b c : Ids} (hab : Confined a b) (hbc : Confined b c) : Confined a c :=
  ⟨hab.exchangeable hbc.real, hab.exchangeable hbc.effective, hab.exchangeable hbc.savedSet, hab.all hbc.filesystem⟩

lemma set_confined (h : ids.set false id = .ok new) : Confined ids new := by
  unfold set at h
  split at h
  · rename_i hid
    cases h
    have hmem : id ∈ ids.exchangeable := by
      simp only [Bool.false_or, Bool.or_eq_true, beq_iff_eq] at hid
      rcases hid with rfl | rfl <;> simp [exchangeable]
    exact { Confined.refl ids with real := hmem }
  · cases h

lemma choose_mem {old src : BitVec 32} (h : ids.choose false old src = .ok x) (hold : old ∈ ids.exchangeable) :
    x ∈ ids.exchangeable := by
  unfold choose at h
  split at h
  · cases h
    exact hold
  split at h
  · rename_i hsrc
    cases h
    simpa [exchangeable, or_assoc] using hsrc
  · cases h

lemma setEffective_confined (h : ids.setEffective false eid = .ok new) :
    Confined ids new ∧ (eid ≠ unchanged → eid ∈ ids.exchangeable) := by
  unfold setEffective at h
  split at h
  · rename_i he
    cases h
    exact ⟨.refl _, fun hne => absurd he hne⟩
  split at h
  · rename_i heid
    cases h
    have hmem : eid ∈ ids.exchangeable := by simpa [exchangeable, or_assoc] using heid
    exact ⟨{ Confined.refl ids with effective := hmem, filesystem := mem_all_of_exchangeable hmem }, fun _ => hmem⟩
  · cases h

lemma setReal_confined (hc : Confined ids new) (heid : rid ≠ unchanged → eid ∈ ids.exchangeable)
    (h : ids.setReal false new rid eid = .ok new') : Confined ids new' := by
  unfold setReal at h
  split at h
  · cases h
    exact hc
  rename_i hr
  split at h
  · cases h
    exact { hc with real := heid hr }
  · cases h

lemma setre_confined (hnamed : rid ≠ unchanged → eid ≠ unchanged) (h : ids.setre false rid eid = .ok new) :
    Confined ids new := by
  unfold setre at h
  cases he : ids.setEffective false eid with
  | error e =>
    rw [he] at h
    cases h
  | ok new1 =>
    obtain ⟨hc1, heid⟩ := setEffective_confined he
    rw [he] at h
    cases hr : ids.setReal false new1 rid eid with
    | error e =>
      rw [Except.bind, hr] at h
      cases h
    | ok new2 =>
      have hc2 : Confined ids new2 := setReal_confined hc1 (fun hrid => heid (hnamed hrid)) hr
      rw [Except.bind, hr] at h
      cases h
      split
      · exact { hc2 with savedSet := hc2.effective }
      · exact hc2

lemma setres_confined (h : ids.setres false rid eid sid = .ok new) : Confined ids new := by
  unfold setres at h
  cases hr : ids.choose false ids.real rid with
  | error e =>
    rw [hr] at h
    cases h
  | ok real =>
    cases he : ids.choose false ids.effective eid with
    | error e =>
      rw [hr, Except.bind, he] at h
      cases h
    | ok effective =>
      cases hs : ids.choose false ids.savedSet sid with
      | error e =>
        rw [hr, Except.bind, he, Except.bind, hs] at h
        cases h
      | ok savedSet =>
        rw [hr, Except.bind, he, Except.bind, hs] at h
        cases h
        have heff : effective ∈ ids.exchangeable := choose_mem he (Confined.refl ids).effective
        exact ⟨choose_mem hr (Confined.refl ids).real, heff, choose_mem hs (Confined.refl ids).savedSet,
          mem_all_of_exchangeable heff⟩

lemma setfs_confined (h : ids.setfs false id = .ok new) : Confined ids new := by
  unfold setfs at h
  split at h
  · rename_i hid
    cases h
    have hmem : id ∈ ids.all := by
      simp only [Bool.false_or, Bool.or_eq_true, beq_iff_eq] at hid
      rcases hid with ((rfl | rfl) | rfl) | rfl <;> simp [all]
    exact { Confined.refl ids with filesystem := hmem }
  · cases h

end Ids

/-! ## The calls -/

/-- The credentials a call leaves: all checks come before the ids are stored. -/
def Credentials.storeUser (c : Credentials) : Except ErrorKind Ids → Except ErrorKind Unit × Credentials
  | .error e => (.error e, c)
  | .ok ids => (.ok (), { c with user := ids })

def Credentials.storeGroup (c : Credentials) : Except ErrorKind Ids → Except ErrorKind Unit × Credentials
  | .error e => (.error e, c)
  | .ok ids => (.ok (), { c with group := ids })

/-- syscall.rs:2322-2332 -/
def setuid (c : Credentials) (uid : BitVec 32) := c.storeUser (c.user.set c.isSuperUser uid)

/-- syscall.rs:2335-2345 -/
def setgid (c : Credentials) (gid : BitVec 32) := c.storeGroup (c.group.set c.isSuperUser gid)

/-- syscall.rs:2419-2453 -/
def setreuid (c : Credentials) (ruid euid : BitVec 32) := c.storeUser (c.user.setre c.isSuperUser ruid euid)

/-- syscall.rs:2455-2489 -/
def setregid (c : Credentials) (rguid eguid : BitVec 32) := c.storeGroup (c.group.setre c.isSuperUser rguid eguid)

/-- syscall.rs:2542-2568 -/
def setresuid (c : Credentials) (ruid euid suid : BitVec 32) := c.storeUser (c.user.setres c.isSuperUser ruid euid suid)

/-- syscall.rs:2585-2611 -/
def setresgid (c : Credentials) (rgid egid sgid : BitVec 32) :=
  c.storeGroup (c.group.setres c.isSuperUser rgid egid sgid)

/-- syscall.rs:2628-2640 -/
def setfsuid (c : Credentials) (fsuid : BitVec 32) := c.storeUser (c.user.setfs c.isSuperUser fsuid)

/-- syscall.rs:2643-2656 -/
def setfsgid (c : Credentials) (fsgid : BitVec 32) := c.storeGroup (c.group.setfs c.isSuperUser fsgid)

inductive IdCall where
  | setuid (uid : BitVec 32)
  | setgid (gid : BitVec 32)
  | setreuid (ruid euid : BitVec 32)
  | setregid (rguid eguid : BitVec 32)
  | setresuid (ruid euid suid : BitVec 32)
  | setresgid (rgid egid sgid : BitVec 32)
  | setfsuid (fsuid : BitVec 32)
  | setfsgid (fsgid : BitVec 32)
  deriving DecidableEq

def IdCall.run (c : Credentials) : IdCall → Except ErrorKind Unit × Credentials
  | setuid uid => L6.setuid c uid
  | setgid gid => L6.setgid c gid
  | setreuid ruid euid => L6.setreuid c ruid euid
  | setregid rguid eguid => L6.setregid c rguid eguid
  | setresuid ruid euid suid => L6.setresuid c ruid euid suid
  | setresgid rgid egid sgid => L6.setresgid c rgid egid sgid
  | setfsuid fsuid => L6.setfsuid c fsuid
  | setfsgid fsgid => L6.setfsgid c fsgid

/-- The processes that make these calls; a label is a call and its result. -/
def idCalls : LTS Credentials (IdCall × Except ErrorKind Unit) where
  init _ := True
  step c l c' := l.1.run c = (l.2, c')

/-- A call that sets the real id names the effective one. -/
def IdCall.Named : IdCall → Prop
  | setreuid ruid euid => ruid ≠ unchanged → euid ≠ unchanged
  | setregid rguid eguid => rguid ≠ unchanged → eguid ≠ unchanged
  | _ => True

/-- The state in which a call is made, and the call. -/
def Unprivileged (c : Credentials) (l : IdCall × Except ErrorKind Unit) : Prop := c.isSuperUser = false ∧ l.1.Named

structure Credentials.Confined (c new : Credentials) : Prop where
  user : c.user.Confined new.user
  group : c.group.Confined new.group

variable {c c' : Credentials} {r : Except ErrorKind Ids} {call : IdCall} {e : ErrorKind}
  {ls : List (IdCall × Except ErrorKind Unit)}

lemma storeUser_confined (h : ∀ ids, r = .ok ids → c.user.Confined ids) : c.Confined (c.storeUser r).2 := by
  cases r with
  | error e => exact ⟨.refl _, .refl _⟩
  | ok ids => exact ⟨h ids rfl, .refl _⟩

lemma storeGroup_confined (h : ∀ ids, r = .ok ids → c.group.Confined ids) : c.Confined (c.storeGroup r).2 := by
  cases r with
  | error e => exact ⟨.refl _, .refl _⟩
  | ok ids => exact ⟨.refl _, h ids rfl⟩

lemma run_confined (hsu : c.isSuperUser = false) (hn : call.Named) : c.Confined (call.run c).2 := by
  cases call with
  | setuid uid =>
    apply storeUser_confined
    rw [hsu]
    exact fun ids => Ids.set_confined
  | setgid gid =>
    apply storeGroup_confined
    rw [hsu]
    exact fun ids => Ids.set_confined
  | setreuid ruid euid =>
    apply storeUser_confined
    rw [hsu]
    exact fun ids => Ids.setre_confined hn
  | setregid rguid eguid =>
    apply storeGroup_confined
    rw [hsu]
    exact fun ids => Ids.setre_confined hn
  | setresuid ruid euid suid =>
    apply storeUser_confined
    rw [hsu]
    exact fun ids => Ids.setres_confined
  | setresgid rgid egid sgid =>
    apply storeGroup_confined
    rw [hsu]
    exact fun ids => Ids.setres_confined
  | setfsuid fsuid =>
    apply storeUser_confined
    rw [hsu]
    exact fun ids => Ids.setfs_confined
  | setfsgid fsgid =>
    apply storeGroup_confined
    rw [hsu]
    exact fun ids => Ids.setfs_confined

lemma storeUser_error (h : (c.storeUser r).1 = .error e) : (c.storeUser r).2 = c := by
  cases r with
  | error e => rfl
  | ok ids => cases h

lemma storeGroup_error (h : (c.storeGroup r).1 = .error e) : (c.storeGroup r).2 = c := by
  cases r with
  | error e => rfl
  | ok ids => cases h

lemma run_error (h : (call.run c).1 = .error e) : (call.run c).2 = c := by
  cases call with
  | setuid | setreuid | setresuid | setfsuid => exact storeUser_error h
  | setgid | setregid | setresgid | setfsgid => exact storeGroup_error h

lemma Run.confined (h : (idCalls.only Unprivileged).Run c ls c') : c.Confined c' := by
  refine h.keeps (P := c.Confined) ?_ ⟨.refl _, .refl _⟩
  rintro c1 l c2 hc1 ⟨⟨hsu, hn⟩, hrun⟩
  have hc2 : c1.Confined c2 := by
    have h2 := run_confined hsu hn
    rwa [hrun] at h2
  exact ⟨hc1.user.trans hc2.user, hc1.group.trans hc2.group⟩

/-- **Credential confinement.** Along every run of calls that a process makes while it is not super-user, and that
name the effective id whenever they set the real one: all ids are ids that the process had at the start; -1 is
among them only if it was before; a process that cannot take the super-user's id does not become super-user;
and a call that fails changes nothing. -/
theorem credentials_confined (c c' : Credentials) (ls : List (IdCall × Except ErrorKind Unit))
    (h : (idCalls.only Unprivileged).Run c ls c') :
    (∀ x ∈ c'.user.all, x ∈ c.user.all) ∧ (∀ x ∈ c'.group.all, x ∈ c.group.all) ∧
    (unchanged ∉ c.user.all → unchanged ∉ c'.user.all) ∧ (unchanged ∉ c.group.all → unchanged ∉ c'.group.all) ∧
    (superUser ∉ c.user.exchangeable → c'.isSuperUser = false) ∧
    ∀ call e, (IdCall.run c' call).1 = .error e → (IdCall.run c' call).2 = c' := by
  have hc := Run.confined h
  refine ⟨fun x hx => hc.user.all hx, fun x hx => hc.group.all hx, fun hno hx => hno (hc.user.all hx),
    fun hno hx => hno (hc.group.all hx), fun hno => ?_, fun call e he => run_error he⟩
  rw [Credentials.isSuperUser, beq_eq_false_iff_ne]
  intro heff
  exact hno (heff ▸ hc.user.effective)

/-- A process of user 1000 whose saved id is 1001, and of group 1000. -/
def twoUsers : Credentials := ⟨⟨1000, 1000, 1001, 1000⟩, ⟨1000, 1000, 1000, 1000⟩⟩

/-- It takes the saved id, then asks for the super-user's in vain. -/
theorem credentials_confined_two_users : ∃ c', (idCalls.only Unprivileged).Run twoUsers
        [(.setreuid unchanged 1001, .ok ()), (.setresuid 0 unchanged unchanged, .error .perm)] c' ∧
      c'.user.effective = 1001 ∧ unchanged ∉ c'.user.all ∧ c'.isSuperUser = false := by
  have hrun : (idCalls.only Unprivileged).Run twoUsers
      [(.setreuid unchanged 1001, .ok ()), (.setresuid 0 unchanged unchanged, .error .perm)]
      ⟨⟨1000, 1001, 1001, 1001⟩, ⟨1000, 1000, 1000, 1000⟩⟩ := by
    refine .cons ⟨⟨rfl, fun h => absurd rfl h⟩, rfl⟩ (.cons ⟨⟨rfl, trivial⟩, rfl⟩ (.nil _))
  obtain ⟨-, -, huser, -, hsu, -⟩ := credentials_confined _ _ _ hrun
  exact ⟨_, hrun, rfl, huser (by decide), hsu (by decide)⟩

/-- `setreuid(1000, -1)` by user 1000 stores -1 as the real user id; and a process with the super-user's id as its
saved id takes it and then any other. -/
theorem setreuid_stores_unchanged :
    (IdCall.run ⟨⟨1000, 1000, 1000, 1000⟩, ⟨1000, 1000, 1000, 1000⟩⟩ (.setreuid 1000 unchanged)) =
      (.ok (), ⟨⟨unchanged, 1000, 1000, 1000⟩, ⟨1000, 1000, 1000, 1000⟩⟩) ∧
    (IdCall.run ⟨⟨1000, 1000, 1000, 1000⟩, ⟨1000, 1000, 1000, 1000⟩⟩ (.setregid 1000 unchanged)) =
      (.ok (), ⟨⟨1000, 1000, 1000, 1000⟩, ⟨unchanged, 1000, 1000, 1000⟩⟩) ∧
    (IdCall.run (IdCall.run ⟨⟨1000, 1000, 0, 1000⟩, ⟨1000, 1000, 1000, 1000⟩⟩ (.setreuid unchanged 0)).2
      (.setuid 1234)).2.user.real = 1234 := by
  decide

/-! ## Dropping privileges -/

lemma Ids.setre_avoids {ids new : Ids} {rid eid : BitVec 32} (h : ids.setre false rid eid = .ok new) :
    (superUser ∉ ids.exchangeable → superUser ∉ new.exchangeable) ∧ (superUser ∉ ids.all → superUser ∉ new.all) := by
  by_cases hn : rid ≠ unchanged → eid ≠ unchanged
  · have hc := setre_confined hn h
    exact ⟨mt hc.exchangeable, mt hc.all⟩
  -- the effective id is not named: the real one becomes -1
  simp only [not_forall, not_not] at hn
  obtain ⟨hr, rfl⟩ := hn
  simp only [setre, setEffective, if_true, Except.bind, setReal, if_neg hr] at h
  split_ifs at h <;> cases h <;>
    simp_all [all, exchangeable, superUser, unchanged]

/-- No call of a process gives it an id of the super-user. -/
structure Credentials.Avoids (c new : Credentials) : Prop where
  exchangeable : superUser ∉ c.user.exchangeable → superUser ∉ new.user.exchangeable
  user : superUser ∉ c.user.all → superUser ∉ new.user.all
  group : superUser ∉ c.group.all → superUser ∉ new.group.all

lemma run_avoids (hsu : c.isSuperUser = false) (call : IdCall) : c.Avoids (call.run c).2 := by
  by_cases hn : call.Named
  · have hc := run_confined hsu hn
    exact ⟨mt hc.user.exchangeable, mt hc.user.all, mt hc.group.all⟩
  cases call with
  | setreuid ruid euid =>
    simp only [IdCall.run, setreuid, hsu]
    cases hr : c.user.setre false ruid euid with
    | error e => exact ⟨id, id, id⟩
    | ok ids => exact ⟨(Ids.setre_avoids hr).1, (Ids.setre_avoids hr).2, id⟩
  | setregid rguid eguid =>
    simp only [IdCall.run, setregid, hsu]
    cases hr : c.group.setre false rguid eguid with
    | error e => exact ⟨id, id, id⟩
    | ok ids => exact ⟨id, id, (Ids.setre_avoids hr).2⟩
  | _ => exact absurd trivial hn

/-- A process that cannot take the super-user's id never does. -/
lemma Run.avoids (h : idCalls.Run c ls c') (hu : superUser ∉ c.user.exchangeable) : c.Avoids c' := by
  refine h.keeps (P := c.Avoids) (fun c1 l c2 hc hrun => ?_) ⟨id, id, id⟩
  have hsu : c1.isSuperUser = false := by
    rw [Credentials.isSuperUser, beq_eq_false_iff_ne]
    exact fun he => hc.exchangeable hu (by simp [Ids.exchangeable, he])
  have h2 := run_avoids hsu l.1
  rw [show l.1.run c1 = _ from hrun] at h2
  exact ⟨h2.exchangeable ∘ hc.exchangeable, h2.user ∘ hc.user, h2.group ∘ hc.group⟩

/-- A process that can take the super-user's id can then take its group. -/
lemma exists_run_group (hu : superUser ∈ c.user.exchangeable) :
    ∃ ls c', idCalls.Run c ls c' ∧ superUser ∈ c'.group.all := by
  have hset : c.user.choose c.isSuperUser c.user.effective superUser = .ok superUser := by
    have hsrc : superUser = c.user.real ∨ superUser = c.user.effective ∨ superUser = c.user.savedSet := by
      simpa [Ids.exchangeable] using hu
    simp only [Ids.choose, show superUser ≠ unchanged by decide, if_false, Bool.or_eq_true, beq_iff_eq, or_assoc]
    exact if_pos (.inr hsrc)
  have hrun : IdCall.run c (.setresuid unchanged superUser unchanged) =
      (.ok (), { c with user := ⟨c.user.real, superUser, c.user.savedSet, superUser⟩ }) := by
    simp only [IdCall.run, setresuid, Ids.setres, hset]
    rfl
  refine ⟨[(_, .ok ()), (.setgid superUser, .ok ())], _, .cons hrun (.cons rfl (.nil _)), ?_⟩
  simp [Ids.all]

def IdCall.OfUser : IdCall → Prop
  | setuid _ | setreuid .. | setresuid .. | setfsuid _ => True
  | _ => False

lemma run_group (call : IdCall) (hcall : call.OfUser) : (call.run c).2.group = c.group := by
  have hstore : ∀ r, (c.storeUser r).2.group = c.group := by
    intro r
    cases r <;> rfl
  cases call with
  | setuid | setreuid | setresuid | setfsuid => exact hstore _
  | _ => exact hcall.elim

lemma Run.group (h : (idCalls.only fun _ l => l.1.OfUser).Run c ls c') : c'.group = c.group := by
  refine h.keeps (P := fun c' => c'.group = c.group) (fun c1 l c2 hc hrun => ?_) rfl
  have h2 := run_group (c := c1) l.1 hrun.1
  rw [show l.1.run c1 = _ from hrun.2] at h2
  exact h2.trans hc

/-- After `setuid` no calls give a user id of the super-user exactly if none is left, and of a super-user one is always
left: the effective id. A super-user that calls `setgid` and then changes its user ids until it is no longer super-user
never gets a group id of the super-user back exactly if it can no longer take the super-user's id, `id` is another, and
the effective, saved and file system group ids were others already. -/
theorem drop_permanent_iff (c : Credentials) (id : BitVec 32) :
    ((∀ ls c', idCalls.Run (setuid c id).2 ls c' → superUser ∉ c'.user.all) ↔ superUser ∉ (setuid c id).2.user.all) ∧
    (c.isSuperUser = true → (setuid c id).1 = .ok () ∧ superUser ∈ (setuid c id).2.user.all) ∧
    (c.isSuperUser = true → (setgid c id).1 = .ok () ∧ ∀ ls c',
      (idCalls.only fun _ l => l.1.OfUser).Run (setgid c id).2 ls c' → c'.isSuperUser = false →
        ((∀ ls c'', idCalls.Run c' ls c'' → superUser ∉ c''.group.all) ↔
          superUser ∉ [id, c.group.effective, c.group.savedSet, c.group.filesystem] ∧
            superUser ∉ c'.user.exchangeable)) := by
  refine ⟨⟨fun h => h [] _ (.nil _), fun hu ls c' h => ?_⟩, fun hsu => ?_, fun hsu => ?_⟩
  · exact (Run.avoids h (mt Ids.mem_all_of_exchangeable hu)).user hu
  · have heff : c.user.effective = superUser := by simpa [Credentials.isSuperUser] using hsu
    simp [setuid, Ids.set, hsu, Credentials.storeUser, Ids.all, heff]
  have hset : setgid c id = (.ok (), { c with group := { c.group with real := id } }) := by
    simp [setgid, Ids.set, hsu, Credentials.storeGroup]
  rw [hset]
  refine ⟨rfl, fun ls c' hrun _ => ?_⟩
  have hall : c'.group.all = [id, c.group.effective, c.group.savedSet, c.group.filesystem] := by
    rw [Run.group hrun]
    rfl
  rw [← hall]
  constructor
  · refine fun h => ⟨h [] _ (.nil _), fun hu => ?_⟩
    obtain ⟨ls, c'', hrun', hg⟩ := exists_run_group hu
    exact h ls c'' hrun' hg
  · rintro ⟨hg, hu⟩ ls c'' hrun'
    exact (Run.avoids hrun' hu).group hg

/-- The super-user becomes user 1000 and the super-user again; or it becomes group 1000 and user 1000 for good, and
its effective group is still that of the super-user. -/
theorem drop_undone : (∃ c', idCalls.Run (setuid ⟨⟨0, 0, 0, 0⟩, ⟨0, 0, 0, 0⟩⟩ 1000).2 [(.setuid 0, .ok ())] c' ∧
      (setuid ⟨⟨0, 0, 0, 0⟩, ⟨0, 0, 0, 0⟩⟩ 1000).2.user.real = 1000 ∧ c'.user.real = superUser) ∧
    ∃ c', (idCalls.only fun _ l => l.1.OfUser).Run (setgid ⟨⟨0, 0, 0, 0⟩, ⟨0, 0, 0, 0⟩⟩ 1000).2
        [(.setresuid 1000 1000 1000, .ok ())] c' ∧ superUser ∉ c'.user.all ∧ c'.group.effective = superUser :=
  ⟨⟨_, .cons rfl (.nil _), rfl, rfl⟩, _, .cons ⟨trivial, rfl⟩ (.nil _), by decide, rfl⟩

end Mushroom.L6
