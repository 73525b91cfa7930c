import Mushroom.Core.Fifo
import Mushroom.Core.Ring
import Mushroom.L1Encoding.Command

/-!
# The command buffer

`supervisor-services/command_buffer.rs:18-142`. The kernel pushes commands into a
ring of bytes and the supervisor takes them out; they share the ring and two
indices. Every atomic load and store is a step, in any interleaving of one writer
(pushes are serialised by a mutex) and one reader. Index arithmetic is `u16`: a
sum or difference out of range, an index behind the buffer, an unknown command id
and a slice behind its buffer are the `panicked` states.
-/
namespace Mushroom.L4

open L1

/-- command_buffer.rs:17 -/
def commandBufferSize : Nat := 0x4000 - 2 * 2

/-- command_buffer.rs:19-26; the buffer
is only indexed below `commandBufferSize`. -/
structure CommandBuffer where
  (completedIndex pendingIndex : Nat)
  buffer : Nat → UInt8

/-- command_buffer.rs:30-36 -/
def CommandBuffer.new : CommandBuffer := ⟨0, 0, fun _ => 0⟩

def addU16 (a b : Nat) : Option Nat := if a + b < 2 ^ 16 then some (a + b) else none

def subU16 (a b : Nat) : Option Nat := if b ≤ a then some (a - b) else none

lemma addU16_eq {a b : Nat} (h : a + b < 2 ^ 16) : addU16 a b = some (a + b) := if_pos h

lemma subU16_eq {a b : Nat} (h : b ≤ a) : subU16 a b = some (a - b) := if_pos h

/-- command_buffer.rs:59-63 -/
def availableCapacity (completedIndex pendingIndex : Nat) : Option Nat :=
  if completedIndex ≤ pendingIndex then do
    addU16 completedIndex (← subU16 (commandBufferSize - 1) pendingIndex)
  else do
    subU16 (← subU16 completedIndex pendingIndex) 1

/-- Where `push` is: the local variables that are still used.
command_buffer.rs:50-82 -/
inductive Writer where
  | idle
  | loaded (command : Command) (pendingIndex : Nat)
  | storing (command : Command) (rest : Bytes) (pendingIndex : Nat)
  | panicked

/-- Where `handle` is.
command_buffer.rs:98-141 -/
inductive Reader where
  | idle
  | loaded (pendingIndex : Nat)
  | readId (completedIndex : Nat)
  | reading (commandId : UInt8) (left : Nat) (cmd : Bytes) (completedIndex : Nat)
  | dispatching (cmd : Command) (completedIndex : Nat)
  | handled (completedIndex : Nat)
  | panicked

structure Channel where
  shared : CommandBuffer
  writer : Writer
  reader : Reader

namespace Channel

def new : Channel := ⟨.new, .idle, .idle⟩

/-- `push` and `handle` start a call (with its first load), `write` and `read` are its next operation. -/
inductive Action where
  | push (command : Command)
  | write
  | handle
  | read

def Action.isReader : Action → Bool
  | .handle | .read => true
  | .push _ | .write => false

abbrev Event := Fifo.Event Command

/-- The writer's next operation.
command_buffer.rs:57-82 -/
def write (s : Channel) : Option (Option Event × Channel) :=
  match s.writer with
  | .idle | .panicked => none
  | .loaded command pendingIndex =>
    match availableCapacity s.shared.completedIndex pendingIndex with
    | none => some (none, { s with writer := .panicked })
    | some available =>
      if available < command.bytes.length then some (some (.full command), { s with writer := .idle })
      else some (none, { s with writer := .storing command command.bytes pendingIndex })
  | .storing command (byte :: rest) pendingIndex =>
    if pendingIndex < commandBufferSize then
      some (none, { s with
          shared.buffer := Function.update s.shared.buffer pendingIndex byte
          writer := .storing command rest (Ring.next commandBufferSize pendingIndex) })
    else some (none, { s with writer := .panicked })
  | .storing command [] pendingIndex =>
    some (some (.pushed command), { s with shared.pendingIndex := pendingIndex, writer := .idle })

/-- `left = 0` ends the loop over the bytes; the handler runs between `dispatching` and `handled`.
command_buffer.rs:99-140 -/
def read (s : Channel) : Option (Option Event × Channel) :=
  match s.reader with
  | .idle | .panicked => none
  | .loaded pendingIndex =>
    if pendingIndex = s.shared.completedIndex then some (none, { s with reader := .idle })
    else some (none, { s with reader := .readId s.shared.completedIndex })
  | .readId i =>
    if i < commandBufferSize then
      match payloadSize (s.shared.buffer i) with
      | some size =>
        some (none, { s with reader := .reading (s.shared.buffer i) size [] (Ring.next commandBufferSize i) })
      | none => some (none, { s with reader := .panicked })
    else some (none, { s with reader := .panicked })
  | .reading commandId (left + 1) cmd i =>
    if i < commandBufferSize then
      some (none, { s with
          reader := .reading commandId left (cmd ++ [s.shared.buffer i]) (Ring.next commandBufferSize i) })
    else some (none, { s with reader := .panicked })
  | .reading commandId 0 cmd i =>
    match Command.read commandId cmd with
    | some c => some (none, { s with reader := .dispatching c i })
    | none => some (none, { s with reader := .panicked })
  | .dispatching c i => some (some (.dispatch c), { s with reader := .handled i })
  | .handled i => some (some .complete, { s with shared.completedIndex := i, reader := .idle })

def next (s : Channel) : Action → Option (Option Event × Channel)
  | .push command =>
    match s.writer with
    | .idle => some (some (.call command), { s with writer := .loaded command s.shared.pendingIndex })
    | _ => none
  | .write => s.write
  | .handle =>
    match s.reader with
    | .idle => some (none, { s with reader := .loaded s.shared.pendingIndex })
    | _ => none
  | .read => s.read

def system : LTS Channel (Option Event) where
  init s := s = new
  step s l s' := ∃ a, s.next a = some (l, s')

def exec : Channel → List Action → Option Channel := LTS.runFn fun s a => (s.next a).map Prod.snd

end Channel

end Mushroom.L4
