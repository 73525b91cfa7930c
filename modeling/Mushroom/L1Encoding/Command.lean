import Mushroom.Core.Bytes

/-!
# Commands of the kernel for the supervisor

`supervisor-services/command_buffer.rs:144-255`. A command in the
buffer is its one-byte id followed by the bytes of its struct; ids and sizes
are fixed, so the reader knows from the id how much to read.
-/
namespace Mushroom.L1

open BitVec (ofNat toNat_ofNat)

/-- `UpdateOutput`; only `new` makes one, so the size is one of the buffer.
command_buffer.rs:199-204 -/
structure UpdateOutput where
  size : BitVec 16
  buffer : ByteArr 0x1000
  size_le : size.toNat ≤ 0x1000

/-- A chunk longer than the buffer panics in the slicing.
command_buffer.rs:206-213 -/
def UpdateOutput.new (chunk : Bytes) : Option UpdateOutput :=
  if h : chunk.length ≤ 0x1000 then
    some
      { size := ofNat 16 chunk.length
        buffer := ⟨pad 0x1000 chunk, pad_length h⟩
        size_le := by
          rw [toNat_ofNat]
          exact Nat.le_trans (Nat.mod_le _ _) h }
  else none

/-- What `dispatch` hands to `update_output`: `&self.buffer[..self.size]`. -/
def UpdateOutput.output (c : UpdateOutput) : Bytes := c.buffer.1.take c.size.toNat

lemma UpdateOutput.new_eq_some {chunk : Bytes} (h : chunk.length ≤ 0x1000) :
    ∃ c, UpdateOutput.new chunk = some c ∧ c.output = chunk := by
  refine ⟨_, dif_pos h, ?_⟩
  simp only [output, toNat_ofNat]
  rw [Nat.mod_eq_of_lt (by omega), pad, List.take_left]

/-- `DeallocateMemory` carries a `SlotIndex`, a transparent `u16`.
command_buffer.rs:153-255 -/
inductive Command where
  | startNextAp
  | allocateMemory
  | deallocateMemory (slotIdx : BitVec 16)
  | updateOutput (c : UpdateOutput)
  | finishOutput
  | failOutput

def Command.id : Command → UInt8
  | .startNextAp => 0
  | .allocateMemory => 1
  | .deallocateMemory _ => 2
  | .updateOutput _ => 3
  | .finishOutput => 4
  | .failOutput => 5

def Command.payload : Command → Bytes
  | .deallocateMemory slotIdx => leBytes 2 slotIdx.toNat
  | .updateOutput c => leBytes 2 c.size.toNat ++ c.buffer.1
  | .startNextAp | .allocateMemory | .finishOutput | .failOutput => []

/-- The bytes that `push` stores: `once(C::ID).chain(bytes_of(command))`. -/
def Command.bytes (c : Command) : Bytes := c.id :: c.payload

/-- `size_of` of the command with this id, `none` for an unknown one.
command_buffer.rs:121-132 -/
def payloadSize (id : UInt8) : Option Nat :=
  match id.toNat with
  | 0 | 1 | 4 | 5 => some 0
  | 2 => some 2
  | 3 => some (2 + 0x1000)
  | _ => none

/-- The struct read from a command's bytes; a size beyond the buffer of `UpdateOutput` panics (`none`).
command_buffer.rs:111-132, 218-220 -/
def Command.read (id : UInt8) (payload : Bytes) : Option Command :=
  match id.toNat with
  | 0 => some .startNextAp
  | 1 => some .allocateMemory
  | 2 => some (.deallocateMemory (ofNat 16 (leNat payload)))
  | 3 =>
    if h : payload.length = 2 + 0x1000 ∧ leNat (payload.take 2) ≤ 0x1000 then
      some (.updateOutput
        { size := ofNat 16 (leNat (payload.take 2))
          buffer := ⟨payload.drop 2, by rw [List.length_drop]; omega⟩
          size_le := by
            rw [toNat_ofNat]
            exact Nat.le_trans (Nat.mod_le _ _) h.2 })
    else none
  | 4 => some .finishOutput
  | 5 => some .failOutput
  | _ => none

lemma leNat_leBytes_toNat (x : BitVec 16) : ofNat 16 (leNat (leBytes 2 x.toNat)) = x := by
  rw [leNat_leBytes (by have := x.isLt; omega)]
  exact BitVec.eq_of_toNat_eq (by simp)

lemma Command.payloadSize_id (c : Command) : payloadSize c.id = some c.payload.length := by
  cases c with
  | deallocateMemory slotIdx => simp [Command.id, Command.payload, payloadSize]
  | updateOutput c => simp [Command.id, Command.payload, payloadSize, c.buffer.2]
  | _ => rfl

/-- The reader rebuilds the command that the writer stored. -/
lemma Command.read_payload (c : Command) : Command.read c.id c.payload = some c := by
  cases c with
  | deallocateMemory slotIdx =>
    simp only [Command.id, Command.payload, Command.read, leNat_leBytes_toNat]
    rfl
  | updateOutput c =>
    have htake : (leBytes 2 c.size.toNat ++ c.buffer.1).take 2 = leBytes 2 c.size.toNat :=
      List.take_left' (leBytes_length _ _)
    have hdrop : (leBytes 2 c.size.toNat ++ c.buffer.1).drop 2 = c.buffer.1 :=
      List.drop_left' (leBytes_length _ _)
    have hle : leNat (leBytes 2 c.size.toNat) ≤ 0x1000 := by
      rw [leNat_leBytes (by have := c.size.isLt; omega)]
      exact c.size_le
    have hlen : (leBytes 2 c.size.toNat ++ c.buffer.1).length = 2 + 0x1000 := by
      rw [List.length_append, leBytes_length, c.buffer.2]
    obtain ⟨size, buffer, hsize⟩ := c
    simp only [Command.id, Command.payload, Command.read, htake, hdrop, leNat_leBytes_toNat]
    exact dif_pos ⟨hlen, hle⟩
  | _ => rfl

lemma Command.bytes_length (c : Command) : c.bytes.length = 1 + c.payload.length := by
  rw [Command.bytes, List.length_cons, Nat.add_comm]

end Mushroom.L1
