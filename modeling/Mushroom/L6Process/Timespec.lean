import Mathlib

/-!
# Times from user space

`kernel/user/process/syscall/args.rs:877-975`. Both fields are `u32`, and `+` panics
when it overflows. The readers accept times that are not `Normal`.
-/
namespace Mushroom.L6.Time

structure Timespec where
  (sec nsec : Nat)
  deriving DecidableEq

namespace Timespec

def before (a b : Timespec) : Bool := a.sec < b.sec || a.sec == b.sec && a.nsec < b.nsec

def intoNs (t : Timespec) : Nat := t.sec * 10 ^ 9 + t.nsec

/-- `none` is the `unwrap` of the conversion to a `u32`. kernel/time.rs:173-178 -/
def fromNs (ns : Nat) : Option Timespec := if ns / 10 ^ 9 < 2 ^ 32 then some ⟨ns / 10 ^ 9, ns % 10 ^ 9⟩ else none

/-- `none` is the overflow of the nanoseconds.
args.rs:894-903 -/
def saturatingAdd (a b : Timespec) : Option Timespec :=
  let sec := min (a.sec + b.sec) (2 ^ 32 - 1)
  let nsec := a.nsec + b.nsec
  if 2 ^ 32 ≤ nsec then none
  else if 10 ^ 9 ≤ nsec then some ⟨min (sec + 1) (2 ^ 32 - 1), nsec - 10 ^ 9⟩
  else some ⟨sec, nsec⟩

/-- args.rs:905-917 -/
def checkedSub (a b : Timespec) : Option Timespec :=
  if a.before b then none
  else if a.nsec < b.nsec then some ⟨a.sec - b.sec - 1, (a.nsec + 2 ^ 32 - b.nsec + 10 ^ 9) % 2 ^ 32⟩
  else some ⟨a.sec - b.sec, a.nsec - b.nsec⟩

/-- args.rs:919-924 -/
def saturatingSub (a b : Timespec) : Timespec := (a.checkedSub b).getD ⟨0, 0⟩

/-- `none` is an overflow.
args.rs:927-940 -/
def add (a b : Timespec) : Option Timespec :=
  let sec := a.sec + b.sec
  let nsec := a.nsec + b.nsec
  if 2 ^ 32 ≤ sec ∨ 2 ^ 32 ≤ nsec then none
  else if 10 ^ 9 ≤ nsec then if 2 ^ 32 ≤ sec + 1 then none else some ⟨sec + 1, nsec - 10 ^ 9⟩
  else some ⟨sec, nsec⟩

/-- `UTIME_NOW` and `UTIME_OMIT`. -/
def special (nsec : Nat) : Bool := nsec == 0x3fffffff || nsec == 0x3ffffffe

/-- args/pointee.rs:729-760, for the `Timespec64` or `Timespec32` of an ABI. -/
def ofUser (wide : Bool) (sec nsec : Nat) : Option Timespec :=
  if special nsec then some ⟨if wide then 0 else sec, nsec⟩
  else if nsec < 10 ^ 9 ∧ sec < 2 ^ 32 then some ⟨sec, nsec⟩ else none

/-- A `Timeval` (pointee.rs:1130-1146) as a `Timespec` (args.rs:963-970); `none` is the overflow of `* 1000`. -/
def ofTimeval (sec usec : Nat) : Option Timespec :=
  if usec % 2 ^ 32 * 1000 < 2 ^ 32 then some ⟨sec % 2 ^ 32, usec % 2 ^ 32 * 1000⟩ else none

structure Normal (t : Timespec) : Prop where
  sec : t.sec < 2 ^ 32
  nsec : t.nsec < 10 ^ 9

variable {a b t : Timespec}

lemma before_iff : a.before b ↔ a.sec < b.sec ∨ a.sec = b.sec ∧ a.nsec < b.nsec := by simp [before]

lemma Normal.before_iff (ha : a.Normal) (hb : b.Normal) : a.before b ↔ a.intoNs < b.intoNs := by
  have := ha.nsec
  have := hb.nsec
  rw [Timespec.before_iff, intoNs, intoNs]
  omega

lemma normal_fromNs {ns : Nat} (h : fromNs ns = some t) : t.Normal ∧ t.intoNs = ns := by
  obtain ⟨hlt, h⟩ := Option.ite_none_right_eq_some.1 h
  cases h
  exact ⟨⟨hlt, Nat.mod_lt _ (by decide)⟩, Nat.div_add_mod' ns (10 ^ 9)⟩

lemma add_eq_none : a.add b = none ↔ 2 ^ 32 ≤ a.nsec + b.nsec ∨
    2 ^ 32 ≤ a.sec + b.sec + if 10 ^ 9 ≤ a.nsec + b.nsec then 1 else 0 := by
  simp only [add]
  split_ifs <;> simp only [true_iff, false_iff] <;> omega

lemma intoNs_add (h : a.add b = some t) : t.intoNs = a.intoNs + b.intoNs := by
  simp only [add] at h
  unfold intoNs
  split_ifs at h <;> cases h <;> simp only <;> omega

lemma Normal.add_eq_none (ha : a.Normal) (hb : b.Normal) :
    a.add b = none ↔ 2 ^ 32 * 10 ^ 9 ≤ a.intoNs + b.intoNs := by
  have := ha.nsec
  have := hb.nsec
  rw [Timespec.add_eq_none, intoNs, intoNs]
  split <;> omega

lemma Normal.add (ha : a.Normal) (hb : b.Normal) (h : a.add b = some t) : t.Normal := by
  have := ha.nsec
  have := hb.nsec
  simp only [Timespec.add] at h
  split_ifs at h <;> cases h <;> refine ⟨?_, ?_⟩ <;> simp only <;> omega

lemma saturatingAdd_eq_none : a.saturatingAdd b = none ↔ 2 ^ 32 ≤ a.nsec + b.nsec := by
  simp only [saturatingAdd]
  split_ifs <;> simp only [true_iff, false_iff] <;> assumption

lemma Normal.saturatingAdd (ha : a.Normal) (hb : b.Normal) : ∃ t, a.saturatingAdd b = some t ∧ t.Normal ∧
    (t.intoNs = min (a.intoNs + b.intoNs) (2 ^ 32 * 10 ^ 9 - 1) ↔
      a.intoNs + b.intoNs < 2 ^ 32 * 10 ^ 9 ∨ (a.nsec + b.nsec) % 10 ^ 9 = 10 ^ 9 - 1) := by
  obtain ⟨h1, h2⟩ := ha
  obtain ⟨h3, h4⟩ := hb
  simp only [Timespec.saturatingAdd, intoNs]
  rw [if_neg (by omega)]
  split
  · refine ⟨_, rfl, ⟨?_, ?_⟩, ?_⟩ <;> simp only <;> omega
  · refine ⟨_, rfl, ⟨?_, ?_⟩, ?_⟩ <;> simp only <;> omega

/-- The subtractions of `checked_sub` do not underflow. -/
lemma borrow_le (h : a.before b = false) : b.sec + (if a.nsec < b.nsec then 1 else 0) ≤ a.sec := by
  have h := mt before_iff.2 (by rw [h]; decide)
  split <;> omega

lemma Normal.checkedSub_eq_none (ha : a.Normal) (hb : b.Normal) :
    a.checkedSub b = none ↔ a.intoNs < b.intoNs := by
  rw [← ha.before_iff hb]
  unfold checkedSub
  split_ifs <;> simp_all

lemma Normal.saturatingSub (ha : a.Normal) (hb : b.Normal) :
    (a.saturatingSub b).Normal ∧ (a.saturatingSub b).intoNs = a.intoNs - b.intoNs := by
  obtain ⟨h1, h2⟩ := ha
  obtain ⟨h3, h4⟩ := hb
  simp only [Timespec.saturatingSub, checkedSub, Timespec.before_iff]
  split_ifs <;> refine ⟨⟨?_, ?_⟩, ?_⟩ <;> simp only [Option.getD, intoNs, Nat.zero_mul] <;> omega

lemma ofUser_nsec {wide : Bool} {sec nsec : Nat} (h : ofUser wide sec nsec = some t) :
    t.nsec < 2 ^ 31 ∧ (t.nsec < 10 ^ 9 ↔ special nsec = false) := by
  unfold ofUser at h
  cases hs : special nsec <;> simp only [hs] at h
  · obtain ⟨hlt, h⟩ := Option.ite_none_right_eq_some.1 h
    cases h
    exact ⟨hlt.1.trans (by decide), iff_of_true hlt.1 rfl⟩
  cases h
  simp only [special, Bool.or_eq_true, beq_iff_eq] at hs
  refine ⟨by simp only; omega, ?_⟩
  simp only [Bool.true_eq_false, iff_false]
  omega

lemma ofTimeval_nsec {sec usec : Nat} (h : ofTimeval sec usec = some t) :
    t.nsec < 10 ^ 9 ↔ usec % 2 ^ 32 < 10 ^ 6 := by
  cases (Option.ite_none_right_eq_some.1 h).2
  simp only
  omega

end Timespec

open Timespec

/-- The readers give normal times unless the nanoseconds are `special`, or the microseconds a million or more. For all
operands `+` and `saturating_add` panic exactly if a field overflows, and the subtractions never. For normal ones the
results are the arithmetic of nanoseconds, but a saturated sum keeps the nanoseconds of the sum. -/
theorem time_arithmetic (a b : Timespec) :
    (∀ wide sec nsec t, ofUser wide sec nsec = some t → t.nsec < 2 ^ 31 ∧ (t.nsec < 10 ^ 9 ↔ special nsec = false)) ∧
    (∀ sec usec, (ofTimeval sec usec = none ↔ 2 ^ 32 ≤ usec % 2 ^ 32 * 1000) ∧
      ∀ t, ofTimeval sec usec = some t → (t.nsec < 10 ^ 9 ↔ usec % 2 ^ 32 < 10 ^ 6)) ∧
    (a.add b = none ↔ 2 ^ 32 ≤ a.nsec + b.nsec ∨
      2 ^ 32 ≤ a.sec + b.sec + if 10 ^ 9 ≤ a.nsec + b.nsec then 1 else 0) ∧
    (a.saturatingAdd b = none ↔ 2 ^ 32 ≤ a.nsec + b.nsec) ∧
    (a.before b = false → b.sec + (if a.nsec < b.nsec then 1 else 0) ≤ a.sec) ∧
    (a.Normal → b.Normal →
      (a.add b = none ↔ 2 ^ 32 * 10 ^ 9 ≤ a.intoNs + b.intoNs) ∧
      (∀ t, a.add b = some t → t.Normal ∧ t.intoNs = a.intoNs + b.intoNs) ∧
      (∃ t, a.saturatingAdd b = some t ∧ t.Normal ∧
        (t.intoNs = min (a.intoNs + b.intoNs) (2 ^ 32 * 10 ^ 9 - 1) ↔
          a.intoNs + b.intoNs < 2 ^ 32 * 10 ^ 9 ∨ (a.nsec + b.nsec) % 10 ^ 9 = 10 ^ 9 - 1)) ∧
      (a.checkedSub b = none ↔ a.intoNs < b.intoNs) ∧
      (a.saturatingSub b).Normal ∧ (a.saturatingSub b).intoNs = a.intoNs - b.intoNs) := by
  refine ⟨fun _ _ _ _ => ofUser_nsec, fun sec usec => ⟨by simp [ofTimeval], fun _ => ofTimeval_nsec⟩, add_eq_none,
    saturatingAdd_eq_none, borrow_le, fun ha hb => ⟨ha.add_eq_none hb, fun t h => ⟨ha.add hb h, intoNs_add h⟩,
    ha.saturatingAdd hb, ha.checkedSub_eq_none hb, ha.saturatingSub hb⟩⟩

/-- A sum less than an operand, a special time, a `Timeval` that cannot be converted, and one with which a sum
panics. -/
theorem time_arithmetic_wrong :
    (saturatingAdd ⟨2 ^ 32 - 1, 999999999⟩ ⟨0, 1⟩).any (·.before ⟨2 ^ 32 - 1, 999999999⟩) ∧
    (ofUser true 0 0x3fffffff).map (·.nsec) = some 0x3fffffff ∧ ofTimeval 0 4294968 = none ∧
    (ofTimeval 0 4294967).map (add ⟨1, 999999999⟩) = some none := by decide

end Mushroom.L6.Time
