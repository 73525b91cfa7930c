import Mushroom.L1Encoding.Command
import Mushroom.L5Files.StreamBuffer

/-!
# The output device

`kernel/char_dev/mushroom.rs`. A write sends each piece before it reads the next,
and a fault in a later piece is the answer for all of them. `do_write_io` passes
every answer on but repeats a write that ends with `EAGAIN`; such an attempt is a
write of its own here.
-/
namespace Mushroom.L5.OutputDevice

open List L1 L2 StreamBuffer

structure Write where
  memory : UserMemory
  pointer : VirtAddr
  len : Nat

/-- What is sent, and the answer, `none` if the kernel panics; a piece is one chunk of `supervisor::output`.
mushroom.rs:82-104 -/
def writeFromUser (m : UserMemory) (addr : VirtAddr) (remaining : Nat) : Bytes × Option (Except ErrorKind Unit) :=
  if remaining = 0 then ([], some (.ok ()))
  else
    match m.readBytes addr (replicate (min remaining 0x1000) 0) with
    | (.error e, _) => ([], some (.error e))
    | (.ok _, buf) =>
      match UpdateOutput.new buf with
      | none => ([], none)
      | some command =>
        -- the piece is sent before the address of the next one is computed
        match addr.add buf.length with
        | none => (command.output, none)
        | some addr =>
          let (sent, res) := writeFromUser m addr (remaining - min remaining 0x1000)
          (command.output ++ sent, res)
termination_by remaining
decreasing_by omega

/-- Every piece of the range can be read, and the address behind it exists. -/
def Pieces (m : UserMemory) (addr len : Nat) : Prop :=
  ∀ k, 0x1000 * k < len → m.fault (addr + 0x1000 * k) (min (len - 0x1000 * k) 0x1000) = none ∧
    Canonical (addr + min len (0x1000 * (k + 1)))

namespace Write

def run (w : Write) : Bytes × Option (Except ErrorKind Unit) := writeFromUser w.memory w.pointer w.len

def sent (w : Write) : Bytes := w.run.1

/-- The bytes that the program is told are written: all of them, or none. -/
def reported (w : Write) : Bytes :=
  match w.run.2 with
  | some (.ok _) => readMem w.memory.bytes w.pointer.addr w.len
  | _ => []

/-- The first piece cannot be read, or all of them can. -/
def Fits (w : Write) : Prop :=
  w.memory.fault w.pointer.addr (min w.len 0x1000) ≠ none ∨ Pieces w.memory w.pointer.addr w.len

end Write

/-- The first piece, and those behind it. -/
lemma pieces_cons {m : UserMemory} {addr len : Nat} (hlen : 0 < len) :
    Pieces m addr len ↔ (m.fault addr (min len 0x1000) = none ∧ Canonical (addr + min len 0x1000)) ∧
      Pieces m (addr + min len 0x1000) (len - min len 0x1000) := by
  constructor
  · intro h
    refine ⟨by simpa using h 0 hlen, fun k hk => ?_⟩
    have hnext := h (k + 1) (by omega)
    rwa [show addr + min len 0x1000 + 0x1000 * k = addr + 0x1000 * (k + 1) by omega,
      show len - min len 0x1000 - 0x1000 * k = len - 0x1000 * (k + 1) by omega,
      show addr + min len 0x1000 + min (len - min len 0x1000) (0x1000 * (k + 1)) =
        addr + min len (0x1000 * (k + 1 + 1)) by omega]
  · rintro ⟨hfirst, hrest⟩ k hk
    cases k with
    | zero => simpa using hfirst
    | succ k =>
      have hnext := hrest k (by omega)
      rwa [show addr + min len 0x1000 + 0x1000 * k = addr + 0x1000 * (k + 1) by omega,
        show len - min len 0x1000 - 0x1000 * k = len - 0x1000 * (k + 1) by omega,
        show addr + min len 0x1000 + min (len - min len 0x1000) (0x1000 * (k + 1)) =
          addr + min len (0x1000 * (k + 1 + 1)) by omega] at hnext

lemma writeFromUser_spec (m : UserMemory) (addr : VirtAddr) (remaining : Nat) :
    ((writeFromUser m addr remaining).2 = some (.ok ()) →
      (writeFromUser m addr remaining).1 = readMem m.bytes addr.addr remaining) ∧
    ((writeFromUser m addr remaining).2 = some (.ok ()) ↔ Pieces m addr.addr remaining) ∧
    (0 < remaining → ((writeFromUser m addr remaining).1 = [] ↔
      m.fault addr.addr (min remaining 0x1000) ≠ none)) := by
  induction remaining using Nat.strong_induction_on generalizing addr with
  | _ remaining ih =>
    rw [writeFromUser]
    split
    · rename_i h0
      subst h0
      exact ⟨fun _ => by simp, ⟨fun _ k hk => absurd hk (Nat.not_lt_zero _), fun _ => rfl⟩,
        fun h => absurd h (by decide)⟩
    rename_i hpos
    have hpos : 0 < remaining := Nat.pos_of_ne_zero hpos
    rw [pieces_cons hpos, UserMemory.readBytes, length_replicate]
    cases hf : m.fault addr.addr (min remaining 0x1000) with
    | some x =>
      obtain ⟨done, e⟩ := x
      simp
    | none =>
      have hlen : (readMem m.bytes addr.addr (min remaining 0x1000)).length = min remaining 0x1000 := readMem_length ..
      obtain ⟨command, hnew, hout⟩ := UpdateOutput.new_eq_some
        (show (readMem m.bytes addr.addr (min remaining 0x1000)).length ≤ 0x1000 by omega)
      have hne : readMem m.bytes addr.addr (min remaining 0x1000) ≠ [] := ne_nil_of_length_pos (by omega)
      simp only [hnew, hlen]
      cases hadd : addr.add (min remaining 0x1000) with
      | none =>
        have hcan : ¬Canonical (addr.addr + min remaining 0x1000) := by
          intro hcan
          rw [VirtAddr.add_of_canonical hcan] at hadd
          cases hadd
        simp [hcan, hout, hne]
      | some next =>
        have hnext : next.addr = addr.addr + min remaining 0x1000 := VirtAddr.add_eq_some.1 hadd
        obtain ⟨hread, hpieces, -⟩ := ih (remaining - min remaining 0x1000) (by omega) next
        rw [hnext] at hread hpieces
        refine ⟨fun hok => ?_, ?_, fun _ => by simp [hout, hne]⟩
        · simp only at hok ⊢
          rw [hread hok, hout, ← readMem_append]
          congr 1
          omega
        · exact hpieces.trans ⟨fun h => ⟨⟨trivial, hnext ▸ next.canonical⟩, h⟩, fun h => h.2⟩

/-- What is sent for one write. -/
lemma Write.sent_eq_iff (w : Write) : (w.sent = w.reported ↔ w.Fits) ∧ (w.sent ≠ w.reported → w.reported = []) := by
  obtain ⟨hread, hok, hempty⟩ := writeFromUser_spec w.memory w.pointer w.len
  by_cases hp : Pieces w.memory w.pointer.addr w.len
  · have hrun : w.run.2 = some (.ok ()) := hok.2 hp
    have heq : w.sent = w.reported := by
      rw [sent, reported, hrun]
      exact hread hrun
    exact ⟨⟨fun _ => .inr hp, fun _ => heq⟩, fun hne => absurd heq hne⟩
  · have hpos : 0 < w.len := Nat.pos_of_ne_zero fun h0 => hp fun k hk => absurd hk (by omega)
    have hrep : w.reported = [] := by
      unfold reported
      split
      · rename_i u hrun
        exact absurd (hok.1 hrun) hp
      · rfl
    refine ⟨?_, fun _ => hrep⟩
    rw [hrep, Fits, or_iff_left hp]
    exact hempty hpos

/-- Over every sequence of writes the bytes sent are those reported exactly if each of the writes can read all its
pieces and compute the address behind, or cannot read the first. -/
theorem output_reported_iff (ws : List Write) :
    ws.flatMap Write.sent = ws.flatMap Write.reported ↔ ∀ w ∈ ws, w.Fits := by
  constructor
  · intro h w hw
    refine (w.sent_eq_iff).1.1 (by_contra fun hne => ?_)
    -- a write that does not fit sends more than it reports, and no write sends less
    have hle : ∀ v : Write, v.reported.length ≤ v.sent.length := by
      intro v
      by_cases hv : v.sent = v.reported
      · rw [hv]
      · simp [v.sent_eq_iff.2 hv]
    have hlt : w.reported.length < w.sent.length := by
      have hnone := w.sent_eq_iff.2 hne
      rw [hnone] at hne ⊢
      exact length_pos_of_ne_nil hne
    have hsum : (ws.map fun v => v.reported.length).sum < (ws.map fun v => v.sent.length).sum :=
      sum_lt_sum _ _ (fun v _ => hle v) ⟨w, hw, hlt⟩
    have hlen := congrArg List.length h
    rw [length_flatMap, length_flatMap] at hlen
    omega
  · intro h
    rw [flatMap_def, flatMap_def, map_congr_left fun w hw => w.sent_eq_iff.1.2 (h w hw)]

/-- The second page is not mapped: the first is sent, and the answer is an error. At the end of the lower half the
page is sent before the kernel panics. -/
theorem output_unreported : ∃ w w' : Write, w.sent.length = 0x1000 ∧ w.run.2 = some (.error .fault) ∧ w.reported = [] ∧
    w'.len = 0x1000 ∧ w'.sent.length = 0x1000 ∧ w'.run.2 = none := by
  refine ⟨⟨⟨fun _ => 7, fun a _ => if a = 0 then none else some (0, .fault)⟩, .zero, 0x2000⟩,
    ⟨⟨fun _ => 7, fun _ _ => none⟩, ⟨0x7ffffffff000, .inl (by decide)⟩, 0x1000⟩, ?_⟩
  decide +kernel

end Mushroom.L5.OutputDevice
