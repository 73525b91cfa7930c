import Mushroom.Core.Fifo
import Mushroom.L1Encoding.Path
import Mushroom.L2Memory.Addr

/-!
# The buffer between the two halves of a pipe

`kernel/fs/fd/stream_buffer.rs`. The buffer is a `VecDeque` behind a mutex; a
half knows that the other is gone from the count of references. The calls that
copy to and from a user's memory work on the two slices of the deque: `as_slices`
may cut it anywhere (`k`), and a copy may stop anywhere. A write tests for the
read half before it takes the lock, so the read half can go in between.

`none` is a panic: a slice out of bounds, a subtraction below zero, or an address
that is not canonical.
-/
namespace Mushroom.L5.StreamBuffer
open List
open List (replicate)

open L1 L2

/-! ## The memory of a process -/

/-- After how many of so many bytes at an address a copy stops, and with which error. -/
structure UserMemory where
  bytes : Nat → UInt8
  fault : Nat → Nat → Option (Nat × ErrorKind)

/-- `VirtualMemory::read_bytes`: the result, and what is in the destination. -/
def UserMemory.readBytes (m : UserMemory) (addr : VirtAddr) (dest : Bytes) : Except ErrorKind Unit × Bytes :=
  match m.fault addr.addr dest.length with
  | none => (.ok (), readMem m.bytes addr.addr dest.length)
  | some (done, e) => (.error e, readMem m.bytes addr.addr (min done dest.length) ++ dest.drop done)

def UserMemory.writeBytes (m : UserMemory) (addr : VirtAddr) (src : Bytes) : Except ErrorKind Unit × UserMemory :=
  match m.fault addr.addr src.length with
  | none => (.ok (), { m with bytes := writeMem m.bytes addr.addr src })
  | some (done, e) => (.error e, { m with bytes := writeMem m.bytes addr.addr (src.take done) })

variable {m m' : UserMemory} {addr : VirtAddr}

lemma UserMemory.readBytes_spec {dest d : Bytes} {r : Except ErrorKind Unit} (h : m.readBytes addr dest = (r, d)) :
    d.length = dest.length ∧ (r = .ok () → d = readMem m.bytes addr.addr dest.length) := by
  unfold readBytes at h
  split at h
  · cases h
    exact ⟨readMem_length .., fun _ => rfl⟩
  cases h
  refine ⟨?_, nofun⟩
  rw [length_append, readMem_length, length_drop]
  omega

lemma UserMemory.writeBytes_ok {src : Bytes} (h : m.writeBytes addr src = (.ok (), m')) :
    m'.bytes = writeMem m.bytes addr.addr src := by
  unfold writeBytes at h
  split at h
  · cases h
    rfl
  · cases h

/-! ## The calls -/

inductive WriteCall where
  | write (buf : Bytes)
  | writeFromUser (m : UserMemory) (pointer : VirtAddr) (len : Nat)

def WriteCall.bytes : WriteCall → Bytes
  | write buf => buf
  | writeFromUser m pointer len => readMem m.bytes pointer.addr len

def WriteCall.len : WriteCall → Nat
  | write buf => buf.length
  | writeFromUser _ _ len => len

/-- The buffer, the halves, and the writes that have found a read half and not taken the lock yet. -/
structure Stream where
  buffer : Bytes
  (reader writer : Bool)
  pending : List WriteCall

/-- stream_buffer.rs:15-31 -/
def Stream.new : Stream := ⟨[], true, true, []⟩

def Stream.strongCount (s : Stream) : Nat := s.reader.toNat + s.writer.toNat

/-- `for (dest, src) in buf.iter_mut().zip(from_fn(…))`: a place is taken before a byte is. -/
def popInto : Nat → Bytes → Bytes × Bytes
  | 0, buffer => ([], buffer)
  | _ + 1, [] => ([], [])
  | n + 1, b :: buffer => (b :: (popInto n buffer).1, (popInto n buffer).2)

section

variable (capacity atomicWriteSize : Nat)

/-- The bytes, whether the other half is notified, and the stream behind. The reading half is there, so a count
of 1 means that no write half is. stream_buffer.rs:39-69 -/
def read (s : Stream) (n : Nat) : Option (Except ErrorKind Bytes × Bool × Stream) :=
  if n = 0 then some (.ok [], false, s)
  else if s.buffer = [] then
    if s.strongCount = 1 then some (.ok [], false, s) else some (.error .again, false, s)
  else if capacity < s.buffer.length then none
  else some (.ok (popInto n s.buffer).1, capacity - s.buffer.length < atomicWriteSize,
    { s with buffer := (popInto n s.buffer).2 })

/-- `vm.write_bytes` of the two slices.
stream_buffer.rs:94-103 -/
def copyOut (m : UserMemory) (pointer : VirtAddr) (slice1 slice2 : Bytes) :
    Option (Except ErrorKind Unit × UserMemory) :=
  match m.writeBytes pointer slice1 with
  | (.error e, m) => some (.error e, m)
  | (.ok (), m) =>
    if slice2 = [] then some (.ok (), m)
    else (pointer.add slice1.length).map fun pointer => m.writeBytes pointer slice2

/-- The same, with the memory behind.
stream_buffer.rs:71-115 -/
def readToUser (s : Stream) (m : UserMemory) (pointer : VirtAddr) (len k : Nat) :
    Option (Except ErrorKind Bytes × UserMemory × Bool × Stream) :=
  if len = 0 then some (.ok [], m, false, s)
  else if s.buffer = [] then
    if s.strongCount = 1 then some (.ok [], m, false, s) else some (.error .again, m, false, s)
  else if capacity < s.buffer.length then none
  else
    let len := min len s.buffer.length
    let slice1 := s.buffer.take k
    let slice2 := s.buffer.drop k
    let len1 := min len slice1.length
    let len2 := len - len1
    if slice2.length < len2 then none
    else
      match copyOut m pointer (slice1.take len1) (slice2.take len2) with
      | none => none
      | some (.error e, m) => some (.error e, m, false, s)
      | some (.ok (), m) =>
        some (.ok (s.buffer.take len), m, capacity - s.buffer.length < atomicWriteSize,
          { s with buffer := s.buffer.drop len })

/-- The part of a write before the lock: the result if the call ends there.
stream_buffer.rs:153-158,185-190 -/
def beginWrite (s : Stream) (w : WriteCall) : Option (Except ErrorKind Bytes) × Stream :=
  if s.strongCount ≤ 1 then (some (.error .pipe), s)
  else if w.len = 0 then (some (.ok []), s)
  else (none, { s with pending := w :: s.pending })

/-- How many of `len` bytes a write takes.
stream_buffer.rs:162-169,194-201 -/
def writeLen (buffer : Bytes) (len : Nat) : Option (Except ErrorKind Nat) :=
  if capacity < buffer.length then none
  else if len ≤ atomicWriteSize then
    if len ≤ capacity - buffer.length then some (.ok (min len (capacity - buffer.length))) else some (.error .again)
  else if 0 < capacity - buffer.length then some (.ok (min len (capacity - buffer.length)))
  else some (.error .again)

/-- `vm.read_bytes` into the last `len` bytes of the two slices.
stream_buffer.rs:207-218 -/
def copyIn (m : UserMemory) (pointer : VirtAddr) (len : Nat) (first second : Bytes) :
    Option (Except ErrorKind Unit × Bytes) :=
  if len ≤ second.length then
    match m.readBytes pointer (second.drop (second.length - len)) with
    | (r, copied) => some (r, first ++ (second.take (second.length - len) ++ copied))
  else if first.length < len - second.length then none
  else
    match m.readBytes pointer (first.drop (first.length - (len - second.length))) with
    | (.error e, copied) => some (.error e, first.take (first.length - (len - second.length)) ++ copied ++ second)
    | (.ok (), copied) =>
      (pointer.add (len - second.length)).map fun pointer =>
        match m.readBytes pointer second with
        | (r, copied2) => (r, first.take (first.length - (len - second.length)) ++ copied ++ copied2)

/-- The part of a write with the lock: the bytes that are taken in.
stream_buffer.rs:160-177,192-235 -/
def writeLocked (s : Stream) (k : Nat) (w : WriteCall) : Option (Except ErrorKind Bytes × Bool × Stream) :=
  match writeLen capacity atomicWriteSize s.buffer w.len with
  | none => none
  | some (.error e) => some (.error e, false, s)
  | some (.ok len) =>
    match w with
    | .write buf => some (.ok (buf.take len), true, { s with buffer := s.buffer ++ buf.take len })
    | .writeFromUser m pointer _ =>
      let startIdx := s.buffer.length
      let grown := s.buffer ++ replicate len 0
      match copyIn m pointer len (grown.take k) (grown.drop k) with
      | none => none
      | some (.error e, grown) => some (.error e, false, { s with buffer := grown.take startIdx })
      | some (.ok (), grown) => some (.ok (grown.drop startIdx), true, { s with buffer := grown })

end

/-! ## What a call did -/

lemma popInto_eq (n : Nat) (buffer : Bytes) : popInto n buffer = (buffer.take n, buffer.drop n) := by
  induction n generalizing buffer with
  | zero => rfl
  | succ n ih =>
    cases buffer with
    | nil => rfl
    | cons b buffer => rw [popInto, ih]; rfl

variable {capacity atomicWriteSize : Nat} {s s' : Stream} {r : Except ErrorKind Bytes} {notified : Bool}
  {buffer : Bytes} {w : WriteCall}

/-- A read that fails changes nothing; one that succeeds takes bytes from the front, none only at the end. -/
lemma read_spec {n : Nat} (h : read capacity atomicWriteSize s n = some (r, notified, s')) :
    (∀ e, r = .error e → s' = s) ∧
    ∀ b, r = .ok b → s' = { s with buffer := s'.buffer } ∧ s.buffer = b ++ s'.buffer ∧
      (b = [] → 0 < n → s.buffer = [] ∧ s.strongCount = 1) := by
  unfold read at h
  split at h
  · rename_i hn
    cases h
    exact ⟨fun e he => rfl, fun b hb => by cases hb; exact ⟨rfl, rfl, fun _ hpos => by omega⟩⟩
  rename_i hn
  split at h
  · rename_i hempty
    split at h
    · rename_i hcount
      cases h
      exact ⟨fun e he => rfl, fun b hb => by cases hb; exact ⟨rfl, rfl, fun _ _ => ⟨hempty, hcount⟩⟩⟩
    · cases h
      exact ⟨fun e he => rfl, nofun⟩
  rename_i hne
  split at h
  · cases h
  cases h
  refine ⟨nofun, fun b hb => ?_⟩
  cases hb
  rw [popInto_eq]
  refine ⟨rfl, (take_append_drop n s.buffer).symm, fun hb _ => ?_⟩
  rcases take_eq_nil_iff.1 hb with hb | hb
  · exact absurd hb hn
  · exact absurd hb hne

variable {pointer : VirtAddr}

lemma copyOut_ok {slice1 slice2 : Bytes} (h : copyOut m pointer slice1 slice2 = some (.ok (), m')) :
    m'.bytes = writeMem m.bytes pointer.addr (slice1 ++ slice2) := by
  unfold copyOut at h
  split at h
  · cases h
  rename_i m1 h1
  have hm1 := UserMemory.writeBytes_ok h1
  split at h
  · rename_i hnil
    cases h
    rw [hnil, append_nil]
    exact hm1
  · obtain ⟨p, hp, h2⟩ := Option.map_eq_some_iff.1 h
    rw [UserMemory.writeBytes_ok h2, hm1, VirtAddr.add_eq_some.1 hp, ← writeMem_append]

/-- The two slices, cut at any place, are the front of the buffer. -/
lemma slices_eq (buffer : Bytes) (len k : Nat) : (buffer.take k).take (min len (buffer.take k).length) ++
      (buffer.drop k).take (len - min len (buffer.take k).length) = buffer.take len := by
  conv_rhs => rw [← take_append_drop k buffer, take_append]
  congr 1
  · rcases Nat.le_total len (buffer.take k).length with h | h
    · rw [Nat.min_eq_left h]
    · rw [Nat.min_eq_right h, take_length, take_of_length_le h]
  · congr 1
    omega

variable {len k : Nat}

/-- The same for a read to a user's memory, and the bytes are in that memory. -/
lemma readToUser_spec (h : readToUser capacity atomicWriteSize s m pointer len k = some (r, m', notified, s')) :
    (∀ e, r = .error e → s' = s) ∧
    ∀ b, r = .ok b → s' = { s with buffer := s'.buffer } ∧ s.buffer = b ++ s'.buffer ∧
      (b = [] → 0 < len → s.buffer = [] ∧ s.strongCount = 1) ∧ m'.bytes = writeMem m.bytes pointer.addr b := by
  unfold readToUser at h
  split at h
  · cases h
    refine ⟨fun e he => rfl, fun b hb => ?_⟩
    cases hb
    exact ⟨rfl, rfl, fun _ hpos => by omega, (writeMem_nil ..).symm⟩
  rename_i hlen
  split at h
  · rename_i hempty
    split at h
    · rename_i hcount
      cases h
      refine ⟨fun e he => rfl, fun b hb => ?_⟩
      cases hb
      exact ⟨rfl, rfl, fun _ _ => ⟨hempty, hcount⟩, (writeMem_nil ..).symm⟩
    · cases h
      exact ⟨fun e he => rfl, nofun⟩
  rename_i hne
  split at h
  · cases h
  simp only at h
  split at h
  · cases h
  split at h
  · cases h
  · cases h
    exact ⟨fun e he => rfl, nofun⟩
  rename_i m1 hcopy
  cases h
  refine ⟨nofun, fun b hb => ?_⟩
  cases hb
  refine ⟨rfl, (take_append_drop _ s.buffer).symm, fun hb _ => ?_, ?_⟩
  · have hpos : 0 < s.buffer.length := length_pos_iff.2 hne
    rcases take_eq_nil_iff.1 hb with hb | hb
    · omega
    · exact absurd hb hne
  · rw [copyOut_ok hcopy, slices_eq]

lemma writeLen_ok {n : Nat} (h : writeLen capacity atomicWriteSize buffer len = some (.ok n)) :
    n ≤ len ∧ buffer.length + n ≤ capacity ∧ (len ≤ atomicWriteSize → n = len) := by
  unfold writeLen at h
  split_ifs at h
  · cases h
    omega
  · cases h
  · cases h
    omega
  · cases h

/-- The bytes before the new ones stay, and after a success the new ones are those of the user's memory. -/
lemma copyIn_spec {grown all : Bytes} {r : Except ErrorKind Unit} (hall : all = buffer ++ replicate len 0)
    (h : copyIn m pointer len (all.take k) (all.drop k) = some (r, grown)) :
    grown.take buffer.length = buffer ∧ (r = .ok () → grown = buffer ++ readMem m.bytes pointer.addr len) := by
  rw [← take_append_drop k all] at hall
  generalize all.take k = first at h hall
  generalize all.drop k = second at h hall
  have hlength : first.length + second.length = buffer.length + len := by
    rw [← length_append, hall, length_append, length_replicate]
  have htake : (first ++ second).take buffer.length = buffer := by rw [hall, take_left]
  unfold copyIn at h
  split at h
  · -- all new bytes are in the second slice
    rename_i hle
    have hold : first ++ second.take (second.length - len) = buffer := by
      rw [take_append, take_of_length_le (by omega)] at htake
      rw [show second.length - len = buffer.length - first.length by omega]
      exact htake
    cases hread : m.readBytes pointer (second.drop (second.length - len)) with
    | mk r1 copied =>
      rw [hread] at h
      cases h
      obtain ⟨-, hcopied⟩ := UserMemory.readBytes_spec hread
      rw [← append_assoc, hold]
      refine ⟨take_left, fun hr => ?_⟩
      rw [hcopied hr, length_drop, Nat.sub_sub_self hle]
  rename_i hlt
  split at h
  · cases h
  have hold : first.take (first.length - (len - second.length)) = buffer := by
    rw [take_append_of_le_length (by omega)] at htake
    rw [show first.length - (len - second.length) = buffer.length by omega]
    exact htake
  have hnew : (first.drop (first.length - (len - second.length))).length = len - second.length := by
    rw [length_drop]
    omega
  rw [hold] at h
  split at h
  · cases h
    rw [append_assoc]
    exact ⟨take_left, nofun⟩
  rename_i copied hread
  obtain ⟨-, hcopied⟩ := UserMemory.readBytes_spec hread
  obtain ⟨p, hp, h2⟩ := Option.map_eq_some_iff.1 h
  cases hread2 : m.readBytes p second with
  | mk r2 copied2 =>
    rw [hread2] at h2
    cases h2
    obtain ⟨-, hcopied2⟩ := UserMemory.readBytes_spec hread2
    rw [append_assoc]
    refine ⟨take_left, fun hr => ?_⟩
    rw [hcopied rfl, hnew, hcopied2 hr, VirtAddr.add_eq_some.1 hp, ← readMem_append, Nat.sub_add_cancel (by omega)]

/-- A failed write leaves the bytes; another adds a beginning of what it offers, the whole if it is small. -/
lemma writeLocked_spec (h : writeLocked capacity atomicWriteSize s k w = some (r, notified, s')) :
    s' = { s with buffer := s'.buffer } ∧ (∀ e, r = .error e → s'.buffer = s.buffer) ∧
    ∀ b, r = .ok b → s'.buffer = s.buffer ++ b ∧ b <+: w.bytes ∧ s'.buffer.length ≤ capacity ∧
      (w.len ≤ atomicWriteSize → b = w.bytes) := by
  unfold writeLocked at h
  split at h
  · cases h
  · cases h
    exact ⟨rfl, fun e he => rfl, nofun⟩
  rename_i len hlen
  obtain ⟨hle, hfits, hwhole⟩ := writeLen_ok hlen
  split at h
  · rename_i buf
    cases h
    refine ⟨rfl, nofun, fun b hb => ?_⟩
    cases hb
    refine ⟨rfl, take_prefix .., ?_, fun hatomic => take_of_length_le ?_⟩
    · rw [length_append, length_take]
      omega
    · exact (hwhole hatomic).ge
  rename_i m pointer offered
  simp only at h
  split at h
  · cases h
  · rename_i e grown hcopy
    cases h
    exact ⟨rfl, fun e he => (copyIn_spec rfl hcopy).1, nofun⟩
  rename_i grown hcopy
  have hgrown : grown = s.buffer ++ readMem m.bytes pointer.addr len := (copyIn_spec rfl hcopy).2 rfl
  cases h
  refine ⟨rfl, nofun, fun b hb => ?_⟩
  cases hb
  rw [hgrown, drop_left]
  refine ⟨rfl, ?_, ?_, fun hatomic => ?_⟩
  · rw [WriteCall.bytes, ← readMem_take hle]
    exact take_prefix ..
  · rw [length_append, readMem_length]
    exact hfits
  · rw [hwhole hatomic]
    rfl

/-! ## Runs -/

/-- A call with its outcome, or the making or dropping of a half. -/
inductive Label where
  | read (n : Nat) (r : Except ErrorKind Bytes)
  | readToUser (m : UserMemory) (pointer : VirtAddr) (len : Nat) (r : Except ErrorKind Bytes) (m' : UserMemory)
  | beginWrite (w : WriteCall) (r : Option (Except ErrorKind Bytes))
  | write (w : WriteCall) (r : Except ErrorKind Bytes)
  | dropReadHalf
  | dropWriteHalf
  | makeReadHalf
  | makeWriteHalf

namespace Label

def returned : Label → Bytes
  | read _ (.ok b) | readToUser _ _ _ (.ok b) _ => b
  | _ => []

def accepted : Label → Bytes
  | write _ (.ok b) => b
  | _ => []

def Fails : Label → Prop
  | read _ (.error _) | readToUser _ _ _ (.error _) _ | beginWrite _ (some (.error _)) | write _ (.error _) => True
  | _ => False

/-- A read for at least one byte that returns none. -/
def EndOfFile : Label → Prop
  | read n (.ok b) | readToUser _ _ n (.ok b) _ => 0 < n ∧ b = []
  | _ => False

end Label

/-- A half is dropped when no call uses it, and made while there is no such half.
stream_buffer.rs:137-143,276-282 -/
inductive Step (capacity atomicWriteSize : Nat) : Stream → Label → Stream → Prop where
  | read {s s' : Stream} {n : Nat} {r : Except ErrorKind Bytes} {notified : Bool} : s.reader = true →
      read capacity atomicWriteSize s n = some (r, notified, s') → Step capacity atomicWriteSize s (.read n r) s'
  | readToUser {s s' : Stream} {m m' : UserMemory} {pointer : VirtAddr} {len k : Nat} {r : Except ErrorKind Bytes}
      {notified : Bool} : s.reader = true →
      readToUser capacity atomicWriteSize s m pointer len k = some (r, m', notified, s') →
      Step capacity atomicWriteSize s (.readToUser m pointer len r m') s'
  | beginWrite {s s' : Stream} {w : WriteCall} {r : Option (Except ErrorKind Bytes)} : s.writer = true →
      beginWrite s w = (r, s') → Step capacity atomicWriteSize s (.beginWrite w r) s'
  | write {s s' : Stream} {before after : List WriteCall} {w : WriteCall} {k : Nat} {r : Except ErrorKind Bytes}
      {notified : Bool} : s.pending = before ++ w :: after →
      writeLocked capacity atomicWriteSize { s with pending := before ++ after } k w = some (r, notified, s') →
      Step capacity atomicWriteSize s (.write w r) s'
  | dropReadHalf {s : Stream} :
      s.reader = true → Step capacity atomicWriteSize s .dropReadHalf { s with reader := false }
  | dropWriteHalf {s : Stream} : s.writer = true → s.pending = [] →
      Step capacity atomicWriteSize s .dropWriteHalf { s with writer := false }
  | makeReadHalf {s : Stream} : s.writer = true → s.strongCount = 1 →
      Step capacity atomicWriteSize s .makeReadHalf { s with reader := true }
  | makeWriteHalf {s : Stream} : s.reader = true → s.strongCount = 1 →
      Step capacity atomicWriteSize s .makeWriteHalf { s with writer := true }

def system (capacity atomicWriteSize : Nat) : LTS Stream Label where
  init s := s = .new
  step := Step capacity atomicWriteSize

lemma beginWrite_buffer {r : Option (Except ErrorKind Bytes)} (h : beginWrite s w = (r, s')) :
    s'.buffer = s.buffer := by
  unfold beginWrite at h
  split_ifs at h <;> cases h <;> rfl

lemma Stream.writer_gone (hr : s.reader) (hc : s.strongCount = 1) : s.writer = false := by
  cases hw : s.writer <;> simp_all [strongCount]

variable {l : Label}

/-- What a step does to the buffer: bytes go in at the end and out at the front. -/
structure Moves (capacity : Nat) (s : Stream) (l : Label) (s' : Stream) : Prop where
  flow : s.buffer ++ l.accepted = l.returned ++ s'.buffer
  fits : l.accepted = [] ∨ s'.buffer.length ≤ capacity
  endOfFile : l.EndOfFile → s.buffer = [] ∧ s.writer = false

lemma Step.moves (hst : Step capacity atomicWriteSize s l s') : Moves capacity s l s' := by
  cases hst with
  | @read _ n r _ hr h =>
    obtain ⟨herr, hok⟩ := read_spec h
    cases r with
    | error e =>
      rw [herr e rfl]
      exact ⟨append_nil _, .inl rfl, nofun⟩
    | ok b =>
      obtain ⟨-, hbuf, hend⟩ := hok b rfl
      exact ⟨(append_nil _).trans hbuf, .inl rfl, fun hl => (hend hl.2 hl.1).imp_right (s.writer_gone hr)⟩
  | @readToUser _ _ _ _ _ _ r _ hr h =>
    obtain ⟨herr, hok⟩ := readToUser_spec h
    cases r with
    | error e =>
      rw [herr e rfl]
      exact ⟨append_nil _, .inl rfl, nofun⟩
    | ok b =>
      obtain ⟨-, hbuf, hend, -⟩ := hok b rfl
      exact ⟨(append_nil _).trans hbuf, .inl rfl, fun hl => (hend hl.2 hl.1).imp_right (s.writer_gone hr)⟩
  | beginWrite _ h => exact ⟨by rw [beginWrite_buffer h]; exact append_nil _, .inl rfl, nofun⟩
  | @write _ _ _ _ _ r _ hp h =>
    obtain ⟨-, herr, hok⟩ := writeLocked_spec h
    cases r with
    | error e => exact ⟨by rw [herr e rfl]; exact append_nil _, .inl rfl, nofun⟩
    | ok b => exact ⟨(hok b rfl).1.symm, .inr (hok b rfl).2.2.1, nofun⟩
  | dropReadHalf | dropWriteHalf | makeReadHalf | makeWriteHalf => exact ⟨append_nil _, .inl rfl, nofun⟩

lemma Moves.bounded (h : Moves capacity s l s') (hs : s.buffer.length ≤ capacity) : s'.buffer.length ≤ capacity := by
  rcases h.fits with hnil | hfits
  · have hlen := congrArg List.length h.flow
    simp only [hnil, length_append, length_nil] at hlen
    omega
  · exact hfits

lemma Label.Fails.nothing (hl : l.Fails) : l.accepted = [] ∧ l.returned = [] := by
  unfold Fails at hl
  split at hl
  all_goals first | exact ⟨rfl, rfl⟩ | exact hl.elim

lemma Moves.fails (h : Moves capacity s l s') (hl : l.Fails) : s'.buffer = s.buffer := by
  simpa [hl.nothing] using h.flow.symm

/-- **A bounded byte stream.** For all sizes and in every run: the reads return a beginning of what the writes accept,
and the buffer holds the rest, never more than the capacity. A write accepts a beginning of what it offers, all
of it if it is at most `atomicWriteSize` bytes; a call that fails leaves the buffer as it is; a read finds the
end of the file only with an empty buffer and without a write half; and a read to a user's memory stores there
what it returns. -/
theorem stream_buffer_fifo (capacity atomicWriteSize : Nat) (s : Stream) (ls : List Label)
    (h : (system capacity atomicWriteSize).Run .new ls s) : ls.flatMap Label.returned <+: ls.flatMap Label.accepted ∧
    ls.flatMap Label.returned ++ s.buffer = ls.flatMap Label.accepted ∧ s.buffer.length ≤ capacity ∧
    ∀ l s', (system capacity atomicWriteSize).step s l s' →
      (∀ w b, l = .write w (.ok b) → b <+: w.bytes ∧ (w.len ≤ atomicWriteSize → b = w.bytes)) ∧
      (l.Fails → s'.buffer = s.buffer ∧ l.accepted = [] ∧ l.returned = []) ∧
      (l.EndOfFile → s.buffer = [] ∧ s.writer = false) ∧
      ∀ m pointer len b m', l = .readToUser m pointer len (.ok b) m' → m'.bytes = writeMem m.bytes pointer.addr b := by
  have hsteps : (system capacity atomicWriteSize).Flow Stream.buffer Label.accepted Label.returned :=
    fun _ _ _ hst => (Step.moves hst).flow
  have hflow : ls.flatMap Label.accepted = ls.flatMap Label.returned ++ s.buffer := hsteps.run h
  have hbound : s.buffer.length ≤ capacity :=
    h.keeps (P := fun s => s.buffer.length ≤ capacity) (fun _ _ _ hs hst => (Step.moves hst).bounded hs) (Nat.zero_le _)
  refine ⟨⟨s.buffer, hflow.symm⟩, hflow.symm, hbound, fun l s' hst => ⟨?_, fun hl =>
    ⟨(Step.moves hst).fails hl, hl.nothing⟩, (Step.moves hst).endOfFile, ?_⟩⟩
  · intro w b hl
    subst hl
    cases hst with
    | write hp hw =>
      obtain ⟨-, -, hok⟩ := writeLocked_spec hw
      exact ⟨(hok b rfl).2.1, (hok b rfl).2.2.2⟩
  · intro m pointer len b m' hl
    subst hl
    cases hst with
    | readToUser hr hread => exact ((readToUser_spec hread).2 b rfl).2.2.2

/-- Three bytes are written and two of them read. -/
theorem stream_buffer_fifo_two_of_three :
    ∃ s, (system 4 2).Run .new [.beginWrite (.write [1, 2, 3]) none, .write (.write [1, 2, 3]) (.ok [1, 2, 3]),
        .read 2 (.ok [1, 2])] s ∧ s.buffer = [3] ∧ s.buffer.length ≤ 4 := by
  have hrun : (system 4 2).Run .new [.beginWrite (.write [1, 2, 3]) none, .write (.write [1, 2, 3]) (.ok [1, 2, 3]),
      .read 2 (.ok [1, 2])] ⟨[3], true, true, []⟩ := by
    refine .via ⟨[], true, true, [.write [1, 2, 3]]⟩ (.beginWrite rfl rfl) ?_
    refine .via ⟨[1, 2, 3], true, true, []⟩ ?_ ?_
    · exact @Step.write 4 2 _ _ [] [] _ 0 _ _ rfl rfl
    · exact .via _ (.read rfl rfl) (.nil _)
  obtain ⟨-, -, hbound, -⟩ := stream_buffer_fifo 4 2 _ _ hrun
  exact ⟨_, hrun, rfl, hbound⟩

/-! ## Panics -/

lemma copyOut_isSome {slice1 slice2 : Bytes} (hp : pointer.addr + slice1.length < 2 ^ 47) :
    (copyOut m pointer slice1 slice2).isSome := by
  unfold copyOut
  split
  · rfl
  split
  · rfl
  rw [VirtAddr.add_of_lower hp]
  rfl

lemma copyIn_isSome {first second : Bytes} (hlen : len ≤ first.length + second.length)
    (hp : pointer.addr + len < 2 ^ 47) : (copyIn m pointer len first second).isSome := by
  unfold copyIn
  split
  · rfl
  rw [if_neg (by omega)]
  split
  · rfl
  rw [VirtAddr.add_of_lower (by omega)]
  rfl

/-- A call returns as long as the addresses it uses are in the lower half. -/
theorem calls_return (hs : s.buffer.length ≤ capacity) : (∀ n, (read capacity atomicWriteSize s n).isSome) ∧
    (∀ m pointer len k, pointer.addr + len < 2 ^ 47 → (readToUser capacity atomicWriteSize s m pointer len k).isSome) ∧
    ∀ k w, (∀ m pointer len, w = .writeFromUser m pointer len → pointer.addr + len < 2 ^ 47) →
      (writeLocked capacity atomicWriteSize s k w).isSome := by
  have hfits : ¬capacity < s.buffer.length := not_lt.2 hs
  refine ⟨fun n => ?_, fun m pointer len k hp => ?_, fun k w hp => ?_⟩
  · unfold read
    split_ifs <;> rfl
  · unfold readToUser
    split_ifs
    · rfl
    · rfl
    · rfl
    rw [if_neg (by simp only [length_take, length_drop]; omega)]
    have hcopy := @copyOut_isSome m pointer
      ((s.buffer.take k).take (min (min len s.buffer.length) (s.buffer.take k).length))
      ((s.buffer.drop k).take (min len s.buffer.length - min (min len s.buffer.length) (s.buffer.take k).length))
      (by simp only [length_take]; omega)
    obtain ⟨x, hx⟩ := Option.isSome_iff_exists.1 hcopy
    rw [hx]
    obtain ⟨r, m'⟩ := x
    cases r <;> rfl
  unfold writeLocked
  cases hlen : writeLen capacity atomicWriteSize s.buffer w.len with
  | none =>
    unfold writeLen at hlen
    split_ifs at hlen
  | some r =>
    cases r with
    | error e => rfl
    | ok n =>
      cases w with
      | write buf => rfl
      | writeFromUser m pointer len =>
        have hn : n ≤ len := (writeLen_ok hlen).1
        have hlow := hp m pointer len rfl
        have hcopy := @copyIn_isSome m pointer n ((s.buffer ++ replicate n 0).take k)
          ((s.buffer ++ replicate n 0).drop k)
          (by simp only [length_take, length_drop, length_append, length_replicate]; omega)
          (by omega)
        obtain ⟨x, hx⟩ := Option.isSome_iff_exists.1 hcopy
        simp only
        rw [hx]
        obtain ⟨r, grown⟩ := x
        cases r <;> rfl

/-- Three bytes, of which two are at the end of the ring, are read to an address. -/
theorem calls_return_wrapped : (readToUser 4 2 ⟨[1, 2, 3], true, true, []⟩ ⟨fun _ => 0, fun _ _ => none⟩
    ⟨0x1000, .inl (by decide)⟩ 8 2).isSome :=
  (calls_return (s := ⟨[1, 2, 3], true, true, []⟩) (by decide)).2.1 _ _ 8 2 (by decide)

end Mushroom.L5.StreamBuffer
