import Mushroom.L4Services.CommandBuffer

/-!
# The command buffer is a bounded queue of commands

Every interleaving of writer and reader on the ring is matched, event by event,
by the bounded first-in first-out queue of commands whose capacity is all bytes
of the ring but one. The relation says where the bytes of the queued commands
are: one behind the other from the completed index on, in front of the part of
the command that is being stored.
-/
namespace Mushroom.L4
open List Option L1 Fifo Channel

def weight (c : Command) : Nat := c.bytes.length

/-- The specification: one byte of the ring stays free. -/
def commandQueue : LTS (Fifo Command) (Option Channel.Event) := system weight (commandBufferSize - 1)

lemma length_flatMap_bytes (l : List Command) : (l.flatMap Command.bytes).length = weigh weight l := by
  induction l with
  | nil => rfl
  | cons c l ih => simp [ih, weight]

/-- With `d` bytes in use the writer computes what is left of all but one, within `u16`. -/
lemma availableCapacity_eq {k d : Nat} (hd : d < commandBufferSize) :
    availableCapacity (k % commandBufferSize) ((k + d) % commandBufferSize) = some (commandBufferSize - 1 - d) := by
  have hsize : commandBufferSize ≤ 2 ^ 16 := by decide
  unfold availableCapacity
  rcases Ring.add_mod_cases hd (k := k) with ⟨h, he⟩ | ⟨h, he⟩
  · rw [he, if_pos (Nat.le_add_right _ _), subU16_eq (by omega), bind_eq_bind, bind_some, addU16_eq (by omega)]
    exact congrArg some (by omega)
  · rw [he, if_neg (by omega), subU16_eq (by omega), bind_eq_bind, bind_some, subU16_eq (by omega)]
    exact congrArg some (by omega)

/-! ## Positions -/

def start (q : Fifo Command) : Nat := weigh weight (q.pushed.take q.completed)

def stop (q : Fifo Command) : Nat := start q + q.load weight

def Extends (q q' : Fifo Command) (l : List Command) : Prop :=
  start q' = start q ∧ q'.queue = q.queue ++ l ∧ q'.dispatched = q.dispatched ∧ q'.completed = q.completed

variable {q : Fifo Command} {c : Command} {s' : Channel} {l : Option Channel.Event}

lemma queue_push (hq : q.Ok) (c : Command) : Extends q { q with calling := none, pushed := q.pushed ++ [c] } [c] := by
  have hle : q.completed ≤ q.pushed.length := Nat.le_trans hq.completed_le hq.dispatched_le
  refine ⟨?_, ?_, rfl, rfl⟩
  · simp [start, take_append_of_le_length hle]
  · simp [queue, drop_append_of_le_length hle]

lemma queue_complete (h : q.queue.head? = some c) : q.queue = c :: { q with completed := q.completed + 1 }.queue ∧
      start { q with completed := q.completed + 1 } = start q + weight c := by
  obtain ⟨hlt, hget⟩ := head?_queue h
  constructor
  · have hc : q.pushed[q.completed] = c := (List.getElem?_eq_some_iff.1 hget).2
    rw [queue, drop_eq_getElem_cons hlt, hc]
    rfl
  · simp [start, take_add_one, hget]

/-! ## The relation -/

def WriterRel (b : CommandBuffer) (q : Fifo Command) : Writer → Prop
  | .idle => q.calling = none
  | .loaded c pendingIndex => q.calling = some c ∧ pendingIndex = b.pendingIndex
  | .storing c rest pendingIndex =>
    q.calling = some c ∧ q.load weight + weight c < commandBufferSize ∧
      ∃ stored, c.bytes = stored ++ rest ∧ Ring.At commandBufferSize b.buffer (stop q) stored ∧
        pendingIndex = (stop q + stored.length) % commandBufferSize
  | .panicked => False

/-- The command `handle` reads is the oldest. A loaded pending index may be old, but its commands are still there. -/
def ReaderRel (b : CommandBuffer) (q : Fifo Command) : Reader → Prop
  | .idle => q.dispatched = q.completed
  | .loaded pendingIndex => q.dispatched = q.completed ∧ (pendingIndex ≠ b.completedIndex → ∃ c, q.queue.head? = some c)
  | .readId i => q.dispatched = q.completed ∧ i = b.completedIndex ∧ ∃ c, q.queue.head? = some c
  | .reading commandId left cmd i =>
    q.dispatched = q.completed ∧ ∃ c rest, q.queue.head? = some c ∧ commandId = c.id ∧
      c.payload = cmd ++ rest ∧ rest.length = left ∧ i = (start q + (1 + cmd.length)) % commandBufferSize
  | .dispatching c i =>
    q.dispatched = q.completed ∧ q.queue.head? = some c ∧ i = (start q + weight c) % commandBufferSize
  | .handled i =>
    q.dispatched = q.completed + 1 ∧ ∃ c, q.queue.head? = some c ∧ i = (start q + weight c) % commandBufferSize
  | .panicked => False

structure Rel (s : Channel) (q : Fifo Command) : Prop where
  ok : q.Ok
  room : q.load weight < commandBufferSize
  completed : s.shared.completedIndex = start q % commandBufferSize
  pending : s.shared.pendingIndex = stop q % commandBufferSize
  live : Ring.At commandBufferSize s.shared.buffer (start q) (q.queue.flatMap Command.bytes)
  writer : WriterRel s.shared q s.writer
  reader : ReaderRel s.shared q s.reader

lemma Rel.new : Rel new new where
  ok := new_ok
  room := by decide
  completed := rfl
  pending := rfl
  live := trivial
  writer := rfl
  reader := rfl

variable {b b' : CommandBuffer} {s s1 : Channel} {r : Reader}

/-- New commands do not concern a reader. -/
lemma ReaderRel.extends {q' : Fifo Command} {l : List Command}
    (h : ReaderRel b q r) (hq : Extends q q' l) (hb : b'.completedIndex = b.completedIndex) : ReaderRel b' q' r := by
  obtain ⟨hs, hl, hd, hc⟩ := hq
  have hhead : ∀ {c}, q.queue.head? = some c → q'.queue.head? = some c := by
    intro c h
    rw [hl, List.head?_append, h]
    rfl
  cases r with
  | idle => simpa only [ReaderRel, hd, hc] using h
  | loaded p =>
    refine ⟨by simpa only [hd, hc] using h.1, fun hp => ?_⟩
    obtain ⟨c, h1⟩ := h.2 (hb ▸ hp)
    exact ⟨c, hhead h1⟩
  | readId i =>
    obtain ⟨h1, h2, c, h3⟩ := h
    exact ⟨by rwa [hd, hc], by rw [hb, h2], c, hhead h3⟩
  | reading id left cmd i =>
    obtain ⟨h1, c, rest, h2, h3, h4, h5, h6⟩ := h
    exact ⟨by rwa [hd, hc], c, rest, hhead h2, h3, h4, h5, by rwa [hs]⟩
  | dispatching c i =>
    obtain ⟨h1, h2, h3⟩ := h
    exact ⟨by rwa [hd, hc], hhead h2, by rwa [hs]⟩
  | handled i =>
    obtain ⟨h1, c, h2, h3⟩ := h
    exact ⟨by rwa [hd, hc], c, hhead h2, by rwa [hs]⟩
  | panicked => exact h

/-! ## One step -/

lemma Rel.calling (h : Rel s q) (calling : Option Command) (w : Writer)
    (hw : WriterRel s.shared { q with calling := calling } w) :
    Rel { s with writer := w } { q with calling := calling } where
  ok := ⟨h.ok.completed_le, h.ok.dispatched_le, h.ok.one⟩
  room := h.room
  completed := h.completed
  pending := h.pending
  live := h.live
  writer := hw
  reader := h.reader.extends ⟨rfl, (append_nil _).symm, rfl, rfl⟩ rfl

lemma Rel.write (h : Rel s q) (hst : s.write = some (l, s')) : ∃ q', commandQueue.step q l q' ∧ Rel s' q' := by
  have hw := h.writer
  unfold Channel.write at hst
  split at hst
  · cases hst
  · cases hst
  · -- the second load and the comparison
    rename_i c p hwr
    rw [hwr] at hw
    obtain ⟨hcall, hp⟩ := hw
    rw [h.completed, hp, h.pending, stop, availableCapacity_eq h.room] at hst
    simp only at hst
    split at hst
    · rename_i hfull
      cases hst
      refine ⟨{ q with calling := none }, .full hcall ?_, h.calling none .idle rfl⟩
      simp only [weight]
      omega
    rename_i hfit
    cases hst
    refine ⟨q, .silent q, h.ok, h.room, h.completed, h.pending, h.live, ?_, h.reader⟩
    refine ⟨hcall, ?_, [], rfl, trivial, rfl⟩
    have := h.room
    simp only [weight]
    omega
  · -- one byte, behind everything that is queued and less than once around
    rename_i c byte rest p hwr
    rw [hwr] at hw
    obtain ⟨hcall, hroom, stored, hbytes, hstored, hp⟩ := hw
    have hlen : stored.length < weight c := by
      rw [weight, hbytes, length_append, length_cons]
      omega
    rw [if_pos (hp ▸ Nat.mod_lt _ (by omega))] at hst
    cases hst
    refine ⟨q, .silent q, h.ok, h.room, h.completed, h.pending, ?_, ?_, h.reader⟩
    · rw [hp]
      apply h.live.store
      · rw [length_flatMap_bytes]
        exact Nat.le_add_right _ _
      · rw [stop]
        omega
    · refine ⟨hcall, hroom, stored ++ [byte], by simp [hbytes], ?_, ?_⟩
      · rw [hp, Ring.at_append]
        exact ⟨hstored.store byte (Nat.le_refl _) (by omega), by simp [Ring.At]⟩
      · rw [hp, Ring.next_mod (by omega), length_append, length_singleton, Nat.add_assoc]
  -- the store of the pending index makes the command one of the queue
  rename_i c p hwr
  rw [hwr] at hw
  obtain ⟨hcall, hroom, stored, hbytes, hstored, hp⟩ := hw
  rw [append_nil] at hbytes
  obtain ⟨hs, hq, -, -⟩ := queue_push h.ok c
  have hload : Fifo.load weight { q with calling := none, pushed := q.pushed ++ [c] } = q.load weight + weight c := by
    rw [Fifo.load, hq]
    simp [Fifo.load]
  have hstep : commandQueue.step q (some (.pushed c))
      { q with calling := none, pushed := q.pushed ++ [c] } :=
    .pushed hcall (Nat.le_sub_one_of_lt hroom)
  cases hst
  refine ⟨_, hstep, Fifo.Step.ok hstep h.ok, ?_, ?_, ?_, ?_, rfl, h.reader.extends (queue_push h.ok c) rfl⟩
  · rw [hload]
    exact hroom
  · rw [hs]
    exact h.completed
  · simp only
    rw [stop, hs, hload, hp, ← hbytes, stop, Nat.add_assoc]
    rfl
  rw [hs, hq, flatMap_append, Ring.at_append, length_flatMap_bytes]
  refine ⟨h.live, ?_⟩
  rw [flatMap_singleton, hbytes]
  exact hstored

lemma Rel.reading (h : Rel s q) (hr : ReaderRel s.shared q r) : Rel { s with reader := r } q :=
  ⟨h.ok, h.room, h.completed, h.pending, h.live, h.writer, hr⟩

/-- The bytes of the oldest command are where the reader looks for them. -/
lemma Rel.head_at (h : Rel s q) (hc : q.queue.head? = some c) :
    Ring.At commandBufferSize s.shared.buffer (start q) c.bytes := by
  have hlive := h.live
  rw [(queue_complete hc).1, flatMap_cons, Ring.at_append] at hlive
  exact hlive.1

/-- Freeing the oldest command's bytes does not move the end of the queue. -/
lemma stop_complete (h : q.queue.head? = some c) :
    q.load weight = weight c + load weight { q with completed := q.completed + 1 } ∧
      stop { q with completed := q.completed + 1 } = stop q := by
  obtain ⟨hq, hs⟩ := queue_complete h
  have hload : q.load weight = weight c + load weight { q with completed := q.completed + 1 } := by
    rw [load, hq, weigh_cons]
    rfl
  refine ⟨hload, ?_⟩
  rw [stop, hs, stop, hload, Nat.add_assoc]

lemma WriterRel.complete {w : Writer} (h : WriterRel b q w) (hc : q.queue.head? = some c)
    (i : Nat) : WriterRel { b with completedIndex := i } { q with completed := q.completed + 1 } w := by
  obtain ⟨hload, hstop⟩ := stop_complete hc
  cases w with
  | idle | loaded | panicked => exact h
  | storing c' rest p =>
    obtain ⟨hcall, hroom, stored, hbytes, hat, hp⟩ := h
    refine ⟨hcall, by omega, stored, hbytes, ?_, ?_⟩
    · rw [hstop]
      exact hat
    · rw [hstop]
      exact hp

lemma Rel.handle (h : Rel s q) (hi : s.reader = .idle) : Rel { s with reader := .loaded s.shared.pendingIndex } q := by
  have hr := h.reader
  rw [hi] at hr
  apply h.reading
  refine ⟨hr, fun hne => ?_⟩
  rw [h.pending, h.completed, stop] at hne
  cases hq : q.queue with
  | nil => simp [load, hq] at hne
  | cons c l => exact ⟨c, rfl⟩

lemma Rel.read (h : Rel s q) (hst : s.read = some (l, s')) : ∃ q', commandQueue.step q l q' ∧ Rel s' q' := by
  have hsize : 1 < commandBufferSize := by decide
  have hr := h.reader
  unfold Channel.read at hst
  split at hst
  · cases hst
  · cases hst
  · -- the second load: either nothing to do or a command
    rename_i p hrd
    rw [hrd] at hr
    split at hst
    · cases hst
      exact ⟨q, .silent q, h.reading hr.1⟩
    rename_i hne
    cases hst
    exact ⟨q, .silent q, h.reading ⟨hr.1, rfl, hr.2 hne⟩⟩
  · -- the id is a known one: it is the oldest command's
    rename_i i hrd
    rw [hrd] at hr
    obtain ⟨hd, hi, c, hc⟩ := hr
    have hbyte : s.shared.buffer i = c.id := by
      rw [hi, h.completed]
      exact (h.head_at hc).1
    rw [if_pos (by rw [hi, h.completed]; exact Nat.mod_lt _ (by omega)), hbyte, c.payloadSize_id] at hst
    cases hst
    refine ⟨q, .silent q, h.reading ⟨hd, c, c.payload, hc, rfl, rfl, rfl, ?_⟩⟩
    rw [hi, h.completed, Ring.next_mod hsize]
    rfl
  · -- one more byte
    rename_i id left cmd i hrd
    rw [hrd] at hr
    obtain ⟨hd, c, rest, hc, hid, hpay, hleft, hi⟩ := hr
    rw [if_pos (hi ▸ Nat.mod_lt _ (by omega))] at hst
    cases hst
    cases rest with
    | nil => cases hleft
    | cons byte rest =>
      have hat := h.head_at hc
      have hbytes : c.bytes = (c.id :: cmd) ++ (byte :: rest) := by rw [Command.bytes, hpay, cons_append]
      rw [hbytes, Ring.at_append, length_cons, Nat.add_comm cmd.length] at hat
      have hbyte : s.shared.buffer i = byte := by
        rw [hi]
        exact hat.2.1
      refine ⟨q, .silent q, h.reading ⟨hd, c, rest, hc, hid, ?_, Nat.succ.inj hleft, ?_⟩⟩
      · rw [hpay, hbyte, append_assoc, singleton_append]
      rw [hi, Ring.next_mod hsize, length_append, length_singleton]
      rfl
  · -- all bytes are there and make up the command
    rename_i id cmd i hrd
    rw [hrd] at hr
    obtain ⟨hd, c, rest, hc, hid, hpay, hleft, hi⟩ := hr
    rw [length_eq_zero_iff.1 hleft, append_nil] at hpay
    rw [hid, ← hpay, c.read_payload] at hst
    cases hst
    refine ⟨q, .silent q, h.reading ⟨hd, hc, ?_⟩⟩
    rw [hi, weight, c.bytes_length, hpay]
  · -- the handler gets the oldest command
    rename_i c i hrd
    rw [hrd] at hr
    obtain ⟨hd, hc, hi⟩ := hr
    have hstep : commandQueue.step q (some (.dispatch c)) { q with dispatched := q.dispatched + 1 } :=
      .dispatch hd hc
    cases hst
    refine ⟨_, hstep, Fifo.Step.ok hstep h.ok, h.room, h.completed, h.pending, h.live, ?_, ?_⟩
    · have hw := h.writer
      cases hwr : s.writer <;> rw [hwr] at hw <;> exact hw
    · exact ⟨congrArg (· + 1) hd, c, hc, hi⟩
  · -- its bytes are free
    rename_i i hrd
    rw [hrd] at hr
    obtain ⟨hd, c, hc, hi⟩ := hr
    have hstep : commandQueue.step q (some .complete) { q with completed := q.completed + 1 } :=
      .complete hd
    obtain ⟨hq, hs⟩ := queue_complete hc
    obtain ⟨hload, hstop⟩ := stop_complete hc
    have hroom := h.room
    cases hst
    refine ⟨_, hstep, Fifo.Step.ok hstep h.ok, by omega, ?_, ?_, ?_, h.writer.complete hc i, hd⟩
    · rw [hs]
      exact hi
    · rw [hstop]
      exact h.pending
    have hlive := h.live
    rw [hq, flatMap_cons, Ring.at_append] at hlive
    rw [hs]
    exact hlive.2

/-- Every step on the ring is a step of the queue. -/
lemma channel_sim : LTS.Sim system commandQueue Rel where
  init := by
    rintro s rfl
    exact ⟨new, rfl, Rel.new⟩
  step := by
    rintro s l s' q h ⟨a, hst⟩
    cases a with
    | push c =>
      simp only [Channel.next] at hst
      split at hst
      · rename_i hi
        have hw := h.writer
        rw [hi] at hw
        cases hst
        exact ⟨_, .call c hw, h.calling (some c) _ ⟨rfl, rfl⟩⟩
      · cases hst
    | write => exact h.write hst
    | handle =>
      simp only [Channel.next] at hst
      split at hst
      · rename_i hi
        cases hst
        exact ⟨q, .silent q, h.handle hi⟩
      · cases hst
    | read => exact h.read hst

/-! ## What no step does -/

/-- The bytes of a command that is not completed stay as they are. -/
lemma Rel.next_live {a : Channel.Action} (h : Rel s q) (hst : s.next a = some (l, s')) {k : Nat}
    (hk : k < q.load weight) : s'.shared.buffer ((s.shared.completedIndex + k) % commandBufferSize) =
      s.shared.buffer ((s.shared.completedIndex + k) % commandBufferSize) := by
  rw [h.completed, Nat.mod_add_mod]
  cases a with
  | push c | handle =>
    simp only [Channel.next] at hst
    split at hst <;> cases hst
    rfl
  | read =>
    simp only [Channel.next, Channel.read] at hst
    repeat' split at hst
    all_goals cases hst
    all_goals rfl
  | write =>
    have hw := h.writer
    simp only [Channel.next, Channel.write] at hst
    split at hst
    · cases hst
    · cases hst
    · repeat' split at hst
      all_goals cases hst
      all_goals rfl
    · rename_i c byte rest p hwr
      rw [hwr] at hw
      obtain ⟨-, hroom, stored, hbytes, -, hp⟩ := hw
      have hlen : stored.length < weight c := by
        rw [weight, hbytes, length_append, length_cons]
        omega
      split at hst <;> cases hst
      · -- the store is behind the position, by less than the ring
        have hne : (start q + k + (q.load weight - k + stored.length)) % commandBufferSize ≠
            (start q + k) % commandBufferSize := Ring.mod_ne (by omega) (by omega)
        have hpos : start q + k + (q.load weight - k + stored.length) = stop q + stored.length := by
          rw [stop]
          omega
        rw [hpos, ← hp] at hne
        exact Function.update_of_ne hne.symm _ _
      · rfl
    · cases hst
      rfl

namespace Channel

/-- The reader does not look at the writer's variables. -/
lemma next_reader {a : Action} (ha : a.isReader) (s : Channel) (w : Writer) :
    { s with writer := w }.next a = (s.next a).map fun x => (x.1, { x.2 with writer := w }) := by
  cases a with
  | push | write => cases ha
  | handle =>
    simp only [next]
    cases s.reader <;> rfl
  | read =>
    simp only [next, read]
    split <;> first | rfl | (split <;> first | rfl | (split <;> rfl))

variable {rs : List Action}

lemma exec_reader (hr : ∀ a ∈ rs, a.isReader) (s : Channel) (w : Writer) :
    exec { s with writer := w } rs = (exec s rs).map fun s => { s with writer := w } := by
  induction rs generalizing s with
  | nil => rfl
  | cons a rs ih =>
    simp only [exec, LTS.runFn, next_reader (hr a mem_cons_self) s w, Option.map_map]
    cases s.next a with
    | none => rfl
    | some x => exact ih (fun b hb => hr b (mem_cons_of_mem _ hb)) x.2

/-- A push that finds no room leaves no trace: the run without it ends in the
same state. -/
lemma exec_full (hi : s.writer = .idle) (hr : ∀ a ∈ rs, a.isReader)
    (he : s.exec (.push c :: rs) = some s1) (hf : s1.next .write = some (some (.full c), s')) :
    s.exec rs = some s' := by
  have hpush : s.exec (.push c :: rs) = exec { s with writer := .loaded c s.shared.pendingIndex } rs := by
    simp [exec, LTS.runFn, next, hi]
  rw [hpush, exec_reader hr] at he
  obtain ⟨s2, hs2, rfl⟩ := map_eq_some_iff.1 he
  have hw : s2 = { s2 with writer := .idle } := by
    have hself := exec_reader hr s .idle
    rw [hs2, ← hi] at hself
    exact Option.some.inj (hs2.symm.trans (hself.trans (by rw [hi]; rfl)))
  rw [hs2, hw]
  simp only [next, write] at hf
  repeat' split at hf
  all_goals cases hf
  rfl

end Channel

/-- **The command buffer is a bounded FIFO queue of commands.** Along every interleaving the events are those of the
queue; commands are dispatched in the order of the pushes; both indices are in the buffer; the bytes of the
commands that are not completed are in the ring and no step changes them; a push without room leaves no trace;
and no party panics, in particular no unknown command is read. -/
theorem command_buffer_refines_fifo {ls : List (Option Channel.Event)} {s : Channel}
    (h : Channel.system.Run Channel.new ls s) : (∃ q, commandQueue.Run Fifo.new ls q) ∧
    Fifo.dispatches ls <+: Fifo.pushes ls ∧
    s.shared.completedIndex < commandBufferSize ∧ s.shared.pendingIndex < commandBufferSize ∧
    Ring.At commandBufferSize s.shared.buffer s.shared.completedIndex
      (((Fifo.pushes ls).drop (Fifo.completions ls)).flatMap Command.bytes) ∧ (∀ a l s', s.next a = some (l, s') →
      ∀ k < (((Fifo.pushes ls).drop (Fifo.completions ls)).flatMap Command.bytes).length,
        s'.shared.buffer ((s.shared.completedIndex + k) % commandBufferSize) =
          s.shared.buffer ((s.shared.completedIndex + k) % commandBufferSize)) ∧
    (∀ c rs s₁ s', s.writer = .idle → (∀ a ∈ rs, a.isReader) → s.exec (.push c :: rs) = some s₁ →
      s₁.next .write = some (some (.full c), s') → s.exec rs = some s') ∧
    s.writer ≠ .panicked ∧ s.reader ≠ .panicked := by
  obtain ⟨q, hq, hrel⟩ := channel_sim.run h Rel.new
  have hsize : 0 < commandBufferSize := by decide
  obtain ⟨-, hpushed, -, hcompleted⟩ := Fifo.run_history hq Fifo.new_ok
  have hqueue : (Fifo.pushes ls).drop (Fifo.completions ls) = q.queue := by
    rw [Fifo.queue, hpushed, hcompleted]
    simp [Fifo.new]
  refine ⟨⟨q, hq⟩, Fifo.dispatches_prefix hq, ?_, ?_, ?_, ?_, ?_, ?_, ?_⟩
  · rw [hrel.completed]
    exact Nat.mod_lt _ hsize
  · rw [hrel.pending]
    exact Nat.mod_lt _ hsize
  · rw [hqueue, hrel.completed, Ring.at_congr (Nat.mod_mod _ _)]
    exact hrel.live
  · intro a l s' hst k hk
    rw [hqueue, length_flatMap_bytes] at hk
    exact hrel.next_live hst hk
  · intro c rs s₁ s' hi hr he hf
    exact Channel.exec_full hi hr he hf
  · intro hp
    have hw := hrel.writer
    rwa [hp] at hw
  · intro hp
    have hr := hrel.reader
    rwa [hp] at hr

/-- A push and its handling, the second load of the writer between two of the
reader. -/
theorem command_buffer_refines_fifo_finish : ∃ ls s, system.Run new ls s ∧
    dispatches ls = [Command.finishOutput] ∧ dispatches ls <+: pushes ls := by
  have hrun : system.Run new _ _ :=
    .cons ⟨.push .finishOutput, rfl⟩ <| .cons ⟨.handle, rfl⟩ <| .cons ⟨.write, rfl⟩ <|
    .cons ⟨.read, rfl⟩ <| .cons ⟨.write, rfl⟩ <| .cons ⟨.write, rfl⟩ <| .cons ⟨.handle, rfl⟩ <|
    .cons ⟨.read, rfl⟩ <| .cons ⟨.read, rfl⟩ <| .cons ⟨.read, rfl⟩ <| .cons ⟨.read, rfl⟩ <|
    .cons ⟨.read, rfl⟩ <| .nil _
  exact ⟨_, _, hrun, rfl, (command_buffer_refines_fifo hrun).2.1⟩

end Mushroom.L4
