import Mushroom.Core.LTS

/-!
# Seq-packet sockets

`kernel/fs/fd/unix_socket/seq_packet.rs`. A read looks at the strong count of the
queue, pops a packet under the lock and copies it; writes and the drop of the
writing end go in between. The count is tested before the queue, and a packet
whose copy faults is gone.
-/
namespace Mushroom.L5.SeqPacket

open Function

abbrev Packet := List UInt8

/-- A task has `checked` when its read found the writing end. `accepted` and `delivered` are the packets of the
calls that succeeded. -/
structure State (ι : Type) where
  queue : List Packet
  peer : Bool
  checked : ι → Bool
  (accepted delivered : List Packet)

inductive Act where
  | write (data : Packet) | close | check | pop (len : Nat) (fault : Bool)

inductive Res where
  | done | data (bytes : Packet) | eof | again | fault

variable {ι : Type} [DecidableEq ι]

/-- seq_packet.rs:120-141, 248-270 -/
def next (s : State ι) (i : ι) : Act → Option (State ι × Res)
  | .write data =>
    if s.peer then some ({ s with queue := s.queue ++ [data], accepted := s.accepted ++ [data] }, .done) else none
  | .close => if s.peer then some ({ s with peer := false }, .done) else none
  | .check =>
    if s.checked i then none
    else if s.peer then some ({ s with checked := update s.checked i true }, .done)
    else some (s, .eof)
  | .pop len fault =>
    let s' := { s with queue := s.queue.tail, checked := update s.checked i false }
    if !s.checked i then none
    else match s.queue.head? with
      | none => some (s', .again)
      | some data =>
        if fault then some (s', .fault)
        else some ({ s' with delivered := s.delivered ++ [data] }, .data (data.take len))

def seqPacket (ι : Type) [DecidableEq ι] : LTS (State ι) (ι × Act) :=
  LTS.ofFn (· = ⟨[], true, fun _ => false, [], []⟩) fun s l => (next s l.1 l.2).map Prod.fst

/-- What the answer of a step says: a packet is the first of the queue, cut to the length; at the end of the file
nothing is left; another answer takes nothing. -/
def Right (s s' : State ι) (a : Act) : Res → Prop
  | .data bytes => ∃ data len fault, a = .pop len fault ∧ s.queue = data :: s'.queue ∧ bytes = data.take len ∧
      s'.delivered = s.delivered ++ [data]
  | .eof => s.peer = false ∧ s.queue = []
  | _ => s.queue <+: s'.queue ∧ s'.delivered = s.delivered

/-- Packets are in the queue, and the step is a read that finds the writing end gone, or one whose copy faults. -/
def Loses (s : State ι) (a : Act) : Prop := s.queue ≠ [] ∧ (a = .check ∧ s.peer = false ∨ ∃ len, a = .pop len true)

variable {s s' : State ι} {i : ι} {a : Act} {r : Res}

lemma next_spec (h : next s i a = some (s', r)) : (Right s s' a r ↔ ¬Loses s a) ∧
    (¬Loses s a → s.accepted = s.delivered ++ s.queue → s'.accepted = s'.delivered ++ s'.queue) := by
  cases a with
  | write data | close =>
    simp only [next, Option.ite_none_right_eq_some] at h
    obtain ⟨-, h⟩ := h
    cases h
    simp +contextual [Right, Loses]
  | check =>
    simp only [next, Option.ite_none_left_eq_some] at h
    obtain ⟨-, h⟩ := h
    cases hp : s.peer <;> simp only [hp] at h <;> cases h <;> simp [Right, Loses, hp]
  | pop len fault =>
    simp only [next, Option.ite_none_left_eq_some] at h
    obtain ⟨-, h⟩ := h
    cases hq : s.queue with
    | nil =>
      simp only [hq] at h
      cases h
      simp +contextual [Right, Loses, hq]
    | cons data queue =>
      have hlost : ¬data :: queue <+: queue := fun hp => by simpa using hp.length_le
      cases fault <;> simp only [hq] at h <;> cases h <;> simp +contextual [Right, Loses, hq, hlost]

/-- While no step loses a packet, the packets accepted are those delivered and those queued, in order. The answer of
a step is right exactly if it loses none. -/
theorem seq_packet_iff (ι : Type) [DecidableEq ι] :
    (∀ s, ((seqPacket ι).only fun s l => ¬Loses s l.2).Reachable s → s.accepted = s.delivered ++ s.queue) ∧
    ∀ (s s' : State ι) i a r, next s i a = some (s', r) → (Right s s' a r ↔ ¬Loses s a) := by
  refine ⟨LTS.Inductive.reachable ⟨?_, ?_⟩, fun s s' i a r h => (next_spec h).1⟩
  · rintro s rfl
    rfl
  rintro s ⟨i, a⟩ s' h ⟨hl, hn⟩
  obtain ⟨⟨s1, r⟩, hnext, rfl⟩ : ∃ p, next s i a = some p ∧ p.1 = s' := Option.map_eq_some_iff.1 hn
  exact (next_spec hnext).2 hl h

/-- A packet is written and the writing end closed: the read finds the end of the file. -/
theorem seq_packet_lost : ∃ s s' : State Unit, (seqPacket Unit).Reachable s ∧ s.queue = [[7]] ∧
    next s () .check = some (s', .eof) := by
  have hclose : (seqPacket Unit).Reachable _ :=
    ⟨_, [((), .write [7]), ((), .close)], rfl, .cons rfl (.cons rfl (.nil _))⟩
  exact ⟨_, _, hclose, rfl, rfl⟩

end Mushroom.L5.SeqPacket
