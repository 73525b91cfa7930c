import Mushroom.L5Files.StreamBuffer

/-!
# Readiness and wake-ups

What `poll_ready` and `ready_for_write` say about the next call on a stream
buffer (a pipe, a stream socket), and which calls notify those who wait. An
`eventfd` refuses a write as well: its counter must not overflow.
-/
namespace Mushroom.L5.StreamBuffer

open List L1

/-- Who sleeps until a notification: a read, or `ready_for_write` for so many bytes. -/
inductive Waiter where
  | read
  | write (count : Nat)

section

variable (capacity atomicWriteSize : Nat)

/-- kernel/fs/fd/stream_buffer.rs:46-54,250-272 -/
def canProceed (s : Stream) : Waiter → Bool
  | .read => s.buffer ≠ [] || s.strongCount = 1
  | .write count =>
    (if count ≤ atomicWriteSize then count ≤ capacity - s.buffer.length else 0 < capacity - s.buffer.length) ||
      s.strongCount = 1

inductive Field where
  | buffer | notify
  deriving DecidableEq

/-- The fields of a half in the order in which they are dropped; the second notifies when it is.
stream_buffer.rs:33-36,147-150, kernel/rt/notify.rs:144-159 -/
def halfFields : List Field := [.buffer, .notify]

/-- The call has a notification to make after its change.
stream_buffer.rs:62-64,109-111,175,232 -/
def Notifies (s : Stream) : Label → Prop
  | .read n r => ∃ s', read capacity atomicWriteSize s n = some (r, true, s')
  | .readToUser m pointer len r m' =>
    ∃ k s', readToUser capacity atomicWriteSize s m pointer len k = some (r, m', true, s')
  | .write w r => ∃ pending k s', writeLocked capacity atomicWriteSize { s with pending } k w = some (r, true, s')
  | .dropReadHalf | .dropWriteHalf => .notify ∈ (halfFields.dropWhile (· ≠ .buffer)).tail
  | _ => False

/-- A waiter before it makes the future, with the future of this generation, and asleep in it. -/
inductive Sleeper where
  | idle
  | armed (generation : Nat)
  | asleep (generation : Nat)

/-- `outstanding` calls have made their change and are still to notify. -/
structure Wakeups where
  stream : Stream
  (outstanding generation : Nat)
  sleeper : Sleeper

inductive WakeAct where
  | change (l : Label)
  | notify | arm | check | wake

/-- Calls and drops in two steps, their change and their notification, and a waiter that makes its future, looks, and
sleeps until it is notified. stream_buffer.rs:250-278, kernel/rt/notify.rs:30-142 -/
def wakeups (v : Waiter) : LTS Wakeups WakeAct where
  init x := x.outstanding = 0 ∧ x.sleeper = .idle
  step x a x' :=
    match a with
    | .change l => ∃ s', (system capacity atomicWriteSize).step x.stream l s' ∧
        (Notifies capacity atomicWriteSize x.stream l ∧
            x' = { x with stream := s', outstanding := x.outstanding + 1 } ∨
          ¬Notifies capacity atomicWriteSize x.stream l ∧ x' = { x with stream := s' })
    | .notify => 0 < x.outstanding ∧
        x' = { x with outstanding := x.outstanding - 1, generation := x.generation + 1 }
    | .arm => x.sleeper = .idle ∧ x' = { x with sleeper := .armed x.generation }
    | .check => ∃ g, x.sleeper = .armed g ∧
        x' = { x with sleeper := if canProceed capacity atomicWriteSize x.stream v then .idle else .asleep g }
    | .wake => ∃ g, x.sleeper = .asleep g ∧ x.generation ≠ g ∧ x' = { x with sleeper := .idle }

/-- `poll_ready` reports `WRITE`.
stream_buffer.rs:238-248 -/
def pollWrite (s : Stream) : Bool := s.buffer.length < capacity || s.strongCount = 1

/-- A write with no other call in between. -/
def write (s : Stream) (k : Nat) (w : WriteCall) : Option (Except ErrorKind Bytes) :=
  match beginWrite s w with
  | (some r, _) => some r
  | (none, s) => (writeLocked capacity atomicWriteSize s k w).map (·.1)

end

/-- The counter behind a write.
kernel/fs/fd/eventfd.rs:71-97 -/
def eventFdWrite (counter : Nat) (buf : Bytes) : Except ErrorKind Nat :=
  if buf.length ≠ 8 then .error .inval
  else if leNat buf = 0 then .ok counter
  else if 2 ^ 64 ≤ counter + leNat buf then .error .again
  else .ok (counter + leNat buf)

/-- eventfd.rs:112-123 -/
def eventFdPollWrite (counter : Nat) : Bool := counter ≠ 2 ^ 64 - 1

/-! ## Wake-ups -/

variable {capacity atomicWriteSize len : Nat} {s s' : Stream} {w : WriteCall} {k : Nat} {r : Except ErrorKind Bytes}
  {m m' : UserMemory} {pointer : L2.VirtAddr}

/-- With bytes to read and room for every atomic write, nobody waits. -/
lemma canProceed_of_room (ha : 1 ≤ atomicWriteSize) (hne : s.buffer ≠ [])
    (hroom : atomicWriteSize ≤ capacity - s.buffer.length) (v : Waiter) : canProceed capacity atomicWriteSize s v := by
  cases v with
  | read => simp [canProceed, hne]
  | write count =>
    simp only [canProceed, Bool.or_eq_true]
    left
    split_ifs <;> simp only [decide_eq_true_eq] <;> omega

/-- A read that does not notify takes no byte, or there was room for every atomic write. -/
lemma read_quiet {n : Nat} (h : read capacity atomicWriteSize s n = some (r, false, s')) :
    s' = s ∨ s.buffer ≠ [] ∧ atomicWriteSize ≤ capacity - s.buffer.length := by
  unfold read at h
  split_ifs at h with _ _ _ _ <;> simp_all

lemma readToUser_quiet (h : readToUser capacity atomicWriteSize s m pointer len k = some (r, m', false, s')) :
    s' = s ∨ s.buffer ≠ [] ∧ atomicWriteSize ≤ capacity - s.buffer.length := by
  unfold readToUser at h
  split_ifs at h <;> try simp_all
  split at h <;> simp_all

lemma writeLocked_quiet
    (h : writeLocked capacity atomicWriteSize s k w = some (r, false, s')) : s'.buffer = s.buffer := by
  cases r with
  | error e => exact (writeLocked_spec h).2.1 e rfl
  | ok b =>
    unfold writeLocked at h
    split at h <;> try simp_all
    split at h <;> try simp_all
    split at h <;> simp_all

lemma Step.notifies (ha : 1 ≤ atomicWriteSize) {l : Label} (hst : Step capacity atomicWriteSize s l s') {v : Waiter}
    (hb : canProceed capacity atomicWriteSize s v = false) (hc : canProceed capacity atomicWriteSize s' v) :
    Notifies capacity atomicWriteSize s l := by
  -- a call that neither notifies nor makes room leaves the waiter as it was
  have hquiet : s' = s ∨ s.buffer ≠ [] ∧ atomicWriteSize ≤ capacity - s.buffer.length → False := by
    rintro (rfl | ⟨hne, hroom⟩)
    · simp [hb] at hc
    · simp [canProceed_of_room ha hne hroom] at hb
  have hsame : s'.buffer = s.buffer → s'.strongCount = s.strongCount → False := by
    intro hbuf hcount
    have heq : canProceed capacity atomicWriteSize s' v = canProceed capacity atomicWriteSize s v := by
      cases v <;> simp only [canProceed, hbuf, hcount]
    simp [heq, hb] at hc
  cases hst with
  | @read _ _ _ notified _ h =>
    cases notified with
    | true => exact ⟨_, h⟩
    | false => exact (hquiet (read_quiet h)).elim
  | @readToUser _ _ _ _ _ _ _ notified _ h =>
    cases notified with
    | true => exact ⟨_, _, h⟩
    | false => exact (hquiet (readToUser_quiet h)).elim
  | beginWrite _ h =>
    refine (hsame (beginWrite_buffer h) ?_).elim
    unfold StreamBuffer.beginWrite at h
    split_ifs at h <;> cases h <;> rfl
  | @write _ _ _ _ _ _ notified hp h =>
    cases notified with
    | true => exact ⟨_, _, _, h⟩
    | false =>
      have hbuf := writeLocked_quiet h
      refine (hsame hbuf ?_).elim
      rw [(writeLocked_spec h).1]
      rfl
  | dropReadHalf | dropWriteHalf => exact .head _
  | makeReadHalf _ h | makeWriteHalf _ h => cases v <;> simp [canProceed, h] at hb

/-- A waiter sleeps in a generation that has been, and if it could go on a notification has come or is to come. -/
structure Awaited (v : Waiter) (x : Wakeups) : Prop where
  armed : ∀ g, x.sleeper = .armed g → g ≤ x.generation
  asleep : ∀ g, x.sleeper = .asleep g → g ≤ x.generation
  awaited : ∀ g, x.sleeper = .asleep g → canProceed capacity atomicWriteSize x.stream v = true →
    g < x.generation ∨ 0 < x.outstanding

lemma inductive_awaited (ha : 1 ≤ atomicWriteSize) (v : Waiter) :
    (wakeups capacity atomicWriteSize v).Inductive (@Awaited capacity atomicWriteSize v) where
  init x hx := by
    refine ⟨fun g h => ?_, fun g h => ?_, fun g h => ?_⟩ <;> cases hx.2.symm.trans h
  step x a x' hi h := by
    cases a with
    | change l =>
      obtain ⟨s', hst, ⟨-, rfl⟩ | ⟨hquiet, rfl⟩⟩ := h
      · exact ⟨hi.armed, hi.asleep, fun _ _ _ => .inr (Nat.succ_pos _)⟩
      refine ⟨hi.armed, hi.asleep, fun g hg hc => ?_⟩
      cases hb : canProceed capacity atomicWriteSize x.stream v with
      | true => exact hi.awaited g hg hb
      | false => exact absurd (Step.notifies ha hst hb hc) hquiet
    | notify =>
      obtain ⟨-, rfl⟩ := h
      exact ⟨fun g hg => (hi.armed g hg).trans (Nat.le_succ _), fun g hg => (hi.asleep g hg).trans (Nat.le_succ _),
        fun g hg _ => .inl (Nat.lt_succ_of_le (hi.asleep g hg))⟩
    | arm =>
      obtain ⟨-, rfl⟩ := h
      refine ⟨fun g hg => ?_, nofun, nofun⟩
      cases hg
      exact le_rfl
    | check =>
      obtain ⟨g, hg, rfl⟩ := h
      cases hc : canProceed capacity atomicWriteSize x.stream v with
      | true => exact ⟨nofun, nofun, nofun⟩
      | false =>
        refine ⟨nofun, fun g' hg' => ?_, fun g' _ hc' => nomatch hc.symm.trans hc'⟩
        cases hg'
        exact hi.armed g hg
    | wake =>
      obtain ⟨g, -, -, rfl⟩ := h
      exact ⟨nofun, nofun, nofun⟩

/-- A call or drop after whose change a waiter can go on has a notification to make after it. So a waiter that looks
again only when it is notified does not sleep while it could go on, but for the time until that notification. -/
theorem waiter_notified (ha : 1 ≤ atomicWriteSize) (v : Waiter) :
    (∀ s l s', (system capacity atomicWriteSize).step s l s' → canProceed capacity atomicWriteSize s v = false →
      canProceed capacity atomicWriteSize s' v = true → Notifies capacity atomicWriteSize s l) ∧
    ∀ x, (wakeups capacity atomicWriteSize v).Reachable x → ∀ g, x.sleeper = .asleep g →
      canProceed capacity atomicWriteSize x.stream v = true →
        g < x.generation ∨ g = x.generation ∧ 0 < x.outstanding := by
  refine ⟨fun s l s' hst hb hc => Step.notifies ha hst hb hc, fun x hx g hg hc => ?_⟩
  have hi := (inductive_awaited ha v).reachable x hx
  have hle := hi.asleep g hg
  have hcome := hi.awaited g hg hc
  omega

/-- A writer of two bytes sleeps at a full pipe. Two bytes are read, and it is to be notified. -/
theorem waiter_notified_pipe : ∃ x, (wakeups 4 2 (.write 2)).Reachable x ∧ x.sleeper = .asleep 0 ∧
    x.generation = 0 ∧ 0 < x.outstanding := by
  have hread : (system 4 2).step ⟨[1, 2, 3, 4], true, true, []⟩ (.read 2 (.ok [1, 2])) ⟨[3, 4], true, true, []⟩ :=
    .read rfl rfl
  have hnotifies : Notifies 4 2 ⟨[1, 2, 3, 4], true, true, []⟩ (.read 2 (.ok [1, 2])) := ⟨_, rfl⟩
  have hrun : (wakeups 4 2 (.write 2)).Run ⟨⟨[1, 2, 3, 4], true, true, []⟩, 0, 0, .idle⟩
      [.arm, .check, .change (.read 2 (.ok [1, 2]))] ⟨⟨[3, 4], true, true, []⟩, 1, 0, .asleep 0⟩ :=
    .cons ⟨rfl, rfl⟩ (.cons ⟨0, rfl, rfl⟩ (.cons ⟨_, hread, .inl ⟨hnotifies, rfl⟩⟩ (.nil _)))
  have hreach : (wakeups 4 2 (.write 2)).Reachable ⟨⟨[3, 4], true, true, []⟩, 1, 0, .asleep 0⟩ :=
    ⟨_, _, ⟨rfl, rfl⟩, hrun⟩
  have hcome := (waiter_notified (by decide) (.write 2)).2 _ hreach 0 rfl rfl
  exact ⟨_, hreach, rfl, rfl, (hcome.resolve_left (Nat.lt_irrefl 0)).2⟩

/-! ## Readiness -/

/-- A copy from a user's memory does not fail with `Again`. -/
def WriteCall.Faults : WriteCall → Prop
  | .write _ => True
  | .writeFromUser m _ _ => ∀ addr len done, m.fault addr len ≠ some (done, .again)

lemma copyIn_ne_again {first second grown : Bytes} (hf : ∀ addr len done, m.fault addr len ≠ some (done, .again)) :
    copyIn m pointer len first second ≠ some (.error .again, grown) := by
  have hread : ∀ p dest, (m.readBytes p dest).1 ≠ .error .again := by
    intro p dest
    unfold UserMemory.readBytes
    split
    · nofun
    rename_i hfault
    simp only [ne_eq, Except.error.injEq]
    rintro rfl
    exact hf _ _ _ hfault
  intro h
  unfold copyIn at h
  split_ifs at h
  · simp [hread] at h
  split at h
  · rename_i hcopy
    simp only [Option.some.injEq, Prod.mk.injEq, Except.error.injEq] at h
    exact hread _ _ (by rw [hcopy, h.1])
  · simp [hread] at h

lemma writeLen_again {buffer : Bytes} (hs : buffer.length ≤ capacity) :
    writeLen capacity atomicWriteSize buffer len = some (.error .again) ↔
      capacity < buffer.length + if len ≤ atomicWriteSize then len else 1 := by
  unfold writeLen
  split_ifs <;> simp <;> omega

lemma writeLocked_again (hf : w.Faults) :
    (writeLocked capacity atomicWriteSize s k w).map (·.1) = some (.error .again) ↔
    writeLen capacity atomicWriteSize s.buffer w.len = some (.error .again) := by
  unfold writeLocked
  split
  · simp_all
  · simp_all
  rename_i hlen
  cases w with
  | write buf => simp [hlen]
  | writeFromUser m pointer len =>
    simp only [hlen]
    split
    · simp
    · rename_i hcopy
      simp only [Option.map_some, Option.some.injEq, Except.error.injEq, reduceCtorEq, iff_false]
      rintro rfl
      exact copyIn_ne_again hf hcopy
    · simp

/-- A write is refused with `Again` exactly if the read half is there and the room does not do. -/
lemma write_again (hs : s.buffer.length ≤ capacity) (hw : s.writer) (hlen : 0 < w.len) (hf : w.Faults) :
    write capacity atomicWriteSize s k w = some (.error .again) ↔ s.reader ∧
      capacity < s.buffer.length + if w.len ≤ atomicWriteSize then w.len else 1 := by
  rw [← writeLen_again hs]
  unfold write beginWrite
  cases hr : s.reader with
  | false => simp [Stream.strongCount, hw, hr]
  | true => simpa [Stream.strongCount, hw, hr, hlen.ne'] using writeLocked_again hf

/-- **Readiness for writing.** A write of at least one byte that returns `Again` finds no `WRITE` exactly if, with a
read half there and at most `atomicWriteSize` bytes to write, the buffer is full or has room for all of them; and
for an `eventfd`, if its counter is at the maximum or the sum does not overflow. -/
theorem again_not_ready_iff (hs : s.buffer.length ≤ capacity) (hw : s.writer = true) (hlen : 0 < w.len) (hf : w.Faults)
    {counter : Nat} (hc : counter < 2 ^ 64) (buf : Bytes) :
    ((write capacity atomicWriteSize s k w = some (.error .again) → pollWrite capacity s = false) ↔
      (s.reader = true → w.len ≤ atomicWriteSize → s.buffer.length = capacity ∨ s.buffer.length + w.len ≤ capacity)) ∧
    ((eventFdWrite counter buf = .error .again → eventFdPollWrite counter = false) ↔
      (buf.length = 8 → counter = 2 ^ 64 - 1 ∨ counter + leNat buf < 2 ^ 64)) := by
  refine ⟨?_, ?_⟩
  · rw [write_again hs hw hlen hf]
    cases hr : s.reader with
    | false => simp
    | true =>
      simp only [pollWrite, Stream.strongCount, hr, hw, true_and, forall_const]
      split_ifs <;> simp <;> omega
  · unfold eventFdWrite eventFdPollWrite
    split_ifs <;> simp <;> omega

/-- A pipe that holds 65535 bytes is ready for writing, but refuses two bytes. -/
theorem ready_pipe_again : ∃ bytes s, writeLocked 0x10000 0x1000 .new 0 (.write bytes) = some (.ok bytes, true, s) ∧
    pollWrite 0x10000 s = true ∧ write 0x10000 0x1000 s 0 (.write [1, 2]) = some (.error .again) := by
  obtain ⟨bytes, hb⟩ : ∃ bytes : Bytes, bytes.length = 65535 := ⟨replicate 65535 0, length_replicate⟩
  refine ⟨bytes, ⟨bytes, true, true, []⟩, ?_, ?_,
    (write_again (w := .write [1, 2]) ?_ rfl (by decide) trivial).2 ⟨rfl, ?_⟩⟩
  · simp [writeLocked, writeLen, Stream.new, WriteCall.len, hb, take_of_length_le]
  · simp [pollWrite, hb]
  · simp [hb]
  · simp [WriteCall.len, hb]

/-- A full pipe refuses a byte and is not ready. -/
theorem again_not_ready_full : write 2 2 ⟨[0, 0], true, true, []⟩ 0 (.write [1]) = some (.error .again) ∧
    pollWrite 2 ⟨[0, 0], true, true, []⟩ = false :=
  ⟨rfl, (@again_not_ready_iff 2 2 ⟨[0, 0], true, true, []⟩ (.write [1]) 0 (le_refl 2) rfl Nat.one_pos trivial 0
    (Nat.two_pow_pos 64) []).1.2 (fun _ _ => .inl rfl) rfl⟩

end Mushroom.L5.StreamBuffer
