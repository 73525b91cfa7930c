import Mushroom.Core.LTS
import Mushroom.L2Memory.BufferIo

/-!
# File buffers are byte strings

Any sequence of operations on a file buffer, with an allocator that may refuse
at any time and user memory that may fault at any byte, is matched by the same
operations on a byte string. Pages handed out by `get_page` are kept by
somebody else, who may drop them later.
-/
namespace Mushroom.L2
open List Buffer

/-! ## The operations on a string -/

inductive FileOp where
  | write (offset : Nat) (buf : Bytes)
  | writeFromUser (offset : Nat) (u : UserCopy) (len : Nat)
  | truncate (len : Nat)
  | getPage (pageIdx : Nat) (shared : Bool)
  | read (offset : Nat) (buf : Bytes)
  | readToUser (offset : Nat) (u : UserCopy) (len : Nat)
  | drop (i : Nat)

/-- What an operation returns, with the slice, the user memory or the page it
leaves behind. -/
inductive FileResult where
  | count (r : Except Errno Nat)
  | unit (r : Except Errno Unit)
  | page (r : Except Errno Bytes)
  | slice (n : Nat) (buf : Bytes)
  | user (r : Except Errno Nat) (mem : Nat → UInt8)

def pageOf (f : Bytes) (i : Nat) : Bytes := truncated (f.drop (i * 4096)) 4096

/-- What is left of a write that stops after `buf`: the length stays. -/
def cutShort (f : Bytes) (offset : Nat) (buf : Bytes) : Bytes := (written f offset buf).take f.length

lemma cutShort_length (f : Bytes) (offset : Nat) (buf : Bytes) : (cutShort f offset buf).length = f.length := by
  rw [cutShort, length_take]
  by_cases hbuf : buf = []
  · rw [written, if_pos hbuf, Nat.min_self]
  rw [written_length hbuf]
  omega

lemma cutShort_getD (f : Bytes) (offset : Nat) (buf : Bytes) (i : Nat) :
    (cutShort f offset buf).getD i 0 = if i < f.length then overwritten offset buf i (f.getD i 0) else 0 := by
  rw [cutShort]
  by_cases hi : i < f.length
  · rw [if_pos hi, ← written_getD, getD_eq_getElem?_getD, getD_eq_getElem?_getD, List.getElem?_take_of_lt hi]
  rw [if_neg hi, getD_eq_default]
  rw [length_take]
  omega

lemma cutShort_nil (f : Bytes) (offset : Nat) : cutShort f offset [] = f := by
  rw [cutShort, written, if_pos rfl, take_length]

/-- The string `f` becomes `f'` by an operation with this result. -/
def StringStep (f : Bytes) : FileOp × FileResult → Bytes → Prop
  | (.write offset buf, .count (.ok n)), f' => n = buf.length ∧ f' = written f offset buf
  | (.write offset buf, .count (.error _)), f' => ∃ m, f' = cutShort f offset (buf.take m)
  | (.writeFromUser offset u len, .count (.ok n)), f' => n = len ∧ f' = written f offset (u.bytes len)
  | (.writeFromUser offset u len, .count (.error _)), f' => ∃ m ≤ len, f' = cutShort f offset (u.bytes m)
  | (.truncate len, .unit (.ok ())), f' => f' = truncated f len
  | (.truncate _, .unit (.error _)), f' => f' = f
  | (.getPage pageIdx _, .page (.ok bs)), f' => bs = pageOf f pageIdx ∧ f' = f
  | (.getPage _ _, .page (.error _)), f' => f' = f
  | (.read offset buf, .slice n buf'), f' =>
    n = min (f.length - offset) buf.length ∧ buf' = (f.drop offset).take n ++ buf.drop n ∧ f' = f
  | (.readToUser offset u len, .user (.ok n) mem), f' =>
    n = min (f.length - offset) len ∧ mem = stored u.mem u.pointer ((f.drop offset).take n) ∧ f' = f
  | (.readToUser offset u len, .user (.error _) mem), f' =>
    ∃ m ≤ min (f.length - offset) len, mem = stored u.mem u.pointer ((f.drop offset).take m) ∧ f' = f
  | (.drop _, .unit (.ok ())), f' => f' = f
  | _, _ => False

def stringFile : LTS Bytes (FileOp × FileResult) where
  init f := f = []
  step f l f' := StringStep f l f'

/-- A buffer, the heap its pages lie in, and the pages of everybody else. -/
structure FileState where
  buffer : Buffer
  heap : Heap
  others : List KernelPage

def FileState.release (s : FileState) (i : Nat) : FileState :=
  match s.others[i]? with
  | none => s
  | some k => { s with heap := k.drop s.heap, others := s.others.eraseIdx i }

def FileState.exec (A : Allocator) (s : FileState) : FileOp → FileResult × FileState
  | .write offset buf =>
    let r := s.buffer.write A s.heap offset buf
    (.count r.1, ⟨r.2.1, r.2.2, s.others⟩)
  | .writeFromUser offset u len =>
    let r := s.buffer.writeFromUser A s.heap offset u len
    (.count r.1, ⟨r.2.1, r.2.2, s.others⟩)
  | .truncate len =>
    let r := s.buffer.truncate A s.heap len
    (.unit r.1, ⟨r.2.1, r.2.2, s.others⟩)
  | .getPage pageIdx shared =>
    let r := s.buffer.getPage A s.heap pageIdx shared
    (.page (r.1.map fun k => (List.range 4096).map (r.2.2.bytes k.content)), ⟨r.2.1, r.2.2, handedOut r.1 ++ s.others⟩)
  | .read offset buf =>
    let r := s.buffer.read s.heap offset buf
    (.slice r.1 r.2, s)
  | .readToUser offset u len =>
    let r := s.buffer.readToUser s.heap offset u len
    (.user r.1 r.2, s)
  | .drop i => (.unit (.ok ()), s.release i)

def bufferSystem (A : Allocator) : LTS FileState (FileOp × FileResult) where
  init s := s.buffer = new ∧ Own s.heap s.others
  step s l s' := s.exec A l.1 = (l.2, s')

/-! ## Each operation -/

variable {upd : Nat → (Nat → UInt8) → (Nat → UInt8) × Bool} {offset len : Nat} {r : Except Errno Nat}

section

variable {A : Allocator} {h h' : Heap} {R : List KernelPage} {b b' : Buffer} {f data : Bytes} {d : Nat → Nat}

lemma UserCopy.take_bytes (u : UserCopy) {m : Nat} (h : m ≤ len) : (u.bytes len).take m = u.bytes m := by
  rw [UserCopy.bytes, ← map_take, take_range, Nat.min_eq_left h]
  rfl

lemma Buffer.Is.same (hf : b.Is h f) (hs : b'.len = b.len ∧ ∀ i, b'.byte h' i = b.byte h i) : b'.Is h' f :=
  ⟨hs.1.trans hf.len, fun i => (hs.2 i).trans (hf.byte i)⟩

/-- The loop of a write, and the update of the length behind it. -/
lemma Buffer.Is.pageLoop {b1 b2 : Buffer} {h1 h2 : Heap} (hf : b.Is h f)
    (o : Own h (b.pages ++ R)) (hd : Distinct b.pages) (hz : b.reserveZeroed A h (offset - b.len) = (.ok (), b1, h1))
    (hres : b1.reserve A h1 (offset + data.length - b1.len) = (.ok (), b2, h2))
    (hu : ∀ i, offset / 4096 ≤ i → i < (offset + data.length + 4095) / 4096 → Delivers offset data i (d i) (upd i))
    (hdata : data ≠ []) {r}
    (hl : L2.pageLoop A (offset / 4096) ((offset + data.length + 4095) / 4096) upd h2 0 b2.pages = r) :
    ∃ m ≤ data.length, ∀ b' : Buffer, b'.pages = r.2.1 →
      (r.1 = .ok () → b'.len = max b.len (offset + data.length) → b'.Is r.2.2 (written f offset data)) ∧
        (b'.len = b.len → b'.Is r.2.2 (cutShort f offset (data.take m))) := by
  obtain ⟨m, hm, hok, hraw⟩ := pageLoop_byte o hd hz hres hu hl
  refine ⟨m, hm, fun b' hpages => ?_⟩
  rw [← hpages] at hraw
  constructor
  · intro hr hlen
    rw [hok hr] at hraw
    refine ⟨by rw [hlen, hf.len, written_length hdata], fun i => ?_⟩
    rw [Buffer.byte, hlen, written_getD, ← hf.byte]
    split
    · rename_i hi
      rw [hraw i (.inr rfl) hi, take_length]
    · rename_i hi
      rw [overwritten_outside _ (.inr (by omega)), Buffer.byte, if_neg (by omega)]
  · intro hlen
    refine ⟨by rw [hlen, hf.len, cutShort_length], fun i => ?_⟩
    rw [Buffer.byte, hlen, cutShort_getD, ← hf.byte, ← hf.len]
    split
    · rename_i hi
      rw [hraw i (.inl hi) (by omega)]
    · rfl

variable (hf : b.Is h f) (o : Own h (b.pages ++ R)) (hd : Distinct b.pages)
include hf o hd

/-- A write puts all of its data into the file, or its front into the part
below the length. -/
lemma Buffer.Is.writeWith
    (hu : data ≠ [] → ∀ i, offset / 4096 ≤ i → i < (offset + data.length + 4095) / 4096 →
      Delivers offset data i (d i) (upd i))
    (hr : b.writeWith A h offset data.length upd = (r, b', h')) :
    (r = .ok data.length ∧ b'.Is h' (written f offset data)) ∨
      ((∃ e, r = .error e) ∧ ∃ m ≤ data.length, b'.Is h' (cutShort f offset (data.take m))) := by
  have hstay : ∀ {b' : Buffer} {h' : Heap}, b'.Is h' f →
      ∃ m ≤ data.length, b'.Is h' (cutShort f offset (data.take m)) := by
    intro b' h' hf'
    refine ⟨0, Nat.zero_le _, ?_⟩
    rw [take_zero, cutShort_nil]
    exact hf'
  unfold Buffer.writeWith at hr
  split at hr
  · rename_i hz
    cases hr
    exact .inr ⟨⟨_, rfl⟩, hstay (hf.same (reserveZeroed_same o hd hz))⟩
  rename_i b1 h1 hz
  have hsame := reserveZeroed_same o hd hz
  have hf1 := hf.same hsame
  have o1 := (reserveZeroed_step hz).own R o
  split at hr
  · rename_i hnil
    cases hr
    rw [written, if_pos (length_eq_zero_iff.1 hnil), hnil]
    exact .inl ⟨rfl, hf1⟩
  rename_i hne
  split at hr
  · rename_i hres
    cases hr
    obtain ⟨hlen, hraw⟩ := reserve_raw o1 hres
    refine .inr ⟨⟨_, rfl⟩, hstay (hf1.same ⟨hlen, fun i => ?_⟩)⟩
    rw [Buffer.byte, Buffer.byte, hlen, hraw]
  rename_i b2 h2 hres
  have hlen2 := (reserve_fits hres).1
  have hdata : data ≠ [] := fun h => hne (length_eq_zero_iff.2 h)
  obtain ⟨m, hm, hloop⟩ := hf.pageLoop o hd hz hres (hu hdata) hdata rfl
  simp only [Prod.mk.injEq] at hr
  obtain ⟨rfl, hb', rfl⟩ := hr
  obtain ⟨hall, hcut⟩ := hloop b' (by rw [← hb'])
  cases hres : (L2.pageLoop A (offset / 4096) ((offset + data.length + 4095) / 4096) upd h2 0 b2.pages).1 with
  | ok x => exact .inl ⟨rfl, hall hres (by rw [← hb']; simp only [hres, hlen2, hsame.1])⟩
  | error e => exact .inr ⟨⟨e, rfl⟩, m, hm, hcut (by rw [← hb']; simp only [hres, hlen2, hsame.1])⟩

lemma Buffer.Is.write {buf : Bytes}
    (hr : b.write A h offset buf = (r, b', h')) :
    ∃ f', StringStep f (.write offset buf, .count r) f' ∧ b'.Is h' f' := by
  rw [write_eq_writeWith] at hr
  rcases hf.writeWith o hd (fun _ i _ _ => writtenBytes_delivers offset buf i) hr with
    ⟨rfl, hall⟩ | ⟨⟨e, rfl⟩, m, -, hcut⟩
  · exact ⟨_, ⟨rfl, rfl⟩, hall⟩
  · exact ⟨_, ⟨m, rfl⟩, hcut⟩

lemma Buffer.Is.writeFromUser {u : UserCopy} (hr : b.writeFromUser A h offset u len = (r, b', h')) :
    ∃ f', StringStep f (.writeFromUser offset u len, .count r) f' ∧ b'.Is h' f' := by
  have hlen := u.bytes_length len
  have hu : u.bytes len ≠ [] → ∀ i, offset / 4096 ≤ i → i < (offset + (u.bytes len).length + 4095) / 4096 →
        Delivers offset (u.bytes len) i (userCount offset u len i) (userBytes offset u len i) := by
    intro hne i hlo hhi
    rw [hlen] at hhi
    exact userBytes_delivers u hlo hhi fun h0 => hne (length_eq_zero_iff.1 (hlen.trans h0))
  have hwith : b.writeWith A h offset (u.bytes len).length (userBytes offset u len) = (r, b', h') := by
    rw [hlen]
    exact hr
  rcases hf.writeWith o hd hu hwith with ⟨rfl, hall⟩ | ⟨⟨e, rfl⟩, m, hm, hcut⟩
  · exact ⟨written f offset (u.bytes len), ⟨hlen, rfl⟩, hall⟩
  rw [hlen] at hm
  rw [u.take_bytes hm] at hcut
  exact ⟨_, ⟨m, hm, rfl⟩, hcut⟩

lemma Buffer.Is.truncate {r : Except Errno Unit} (hr : b.truncate A h len = (r, b', h')) :
    ∃ f', StringStep f (.truncate len, .unit r) f' ∧ b'.Is h' f' := by
  cases r with
  | ok x =>
    obtain ⟨hlen, hbyte⟩ := truncate_byte o hd hr
    refine ⟨truncated f len, rfl, by rw [hlen, truncated_length], fun i => ?_⟩
    rw [hbyte, truncated_getD, hf.byte]
  | error e =>
    refine ⟨f, rfl, ?_⟩
    unfold Buffer.truncate at hr
    split at hr
    · rename_i hz
      cases hr
      exact hf.same (reserveZeroed_same o hd hz)
    · cases hr

lemma Buffer.Is.getPage {idx : Nat} {shared : Bool} {r : Except Errno KernelPage}
    (hr : b.getPage A h idx shared = (r, b', h')) :
    StringStep f (.getPage idx shared, .page (r.map fun k => (List.range 4096).map (h'.bytes k.content))) f ∧
      b'.Is h' f := by
  refine ⟨?_, hf.same (getPage_same o hd hr)⟩
  cases r with
  | error e => exact rfl
  | ok k =>
    refine ⟨ext_getElem ?_ fun j hj _ => ?_, rfl⟩
    · rw [length_map, length_range, pageOf, truncated_length]
    rw [length_map, length_range] at hj
    have hpage : (pageOf f idx).getD j 0 = f.getD (idx * 4096 + j) 0 := by
      rw [pageOf, truncated_getD, if_pos hj]
      simp
    rw [getElem_map, getElem_range, getPage_bytes o hd hr hj, hf.byte, ← hpage, getD_eq_getElem]

end

/-! ## Whole runs -/

structure FileRel (s : FileState) (f : Bytes) : Prop where
  is : s.buffer.Is s.heap f
  own : Own s.heap (s.buffer.pages ++ s.others)
  distinct : Distinct s.buffer.pages

lemma FileRel.step {s : FileState} {f f' : Bytes} (hs : FileRel s f) {b' : Buffer} {h' : Heap}
    {out : List KernelPage} (hstep : BufStep s.heap s.buffer.pages h' b'.pages out) (hf : b'.Is h' f') :
    FileRel ⟨b', h', out ++ s.others⟩ f' := by
  refine ⟨hf, (hstep.own s.others hs.own).perm (perm_append_comm_assoc ..), ?_⟩
  have := hstep.distinct [] s.others hs.own (by rw [append_nil]; exact hs.distinct)
  rwa [append_nil] at this

lemma Buffer.writeWith_step {A : Allocator} {h h' : Heap} {b b' : Buffer}
    (hr : b.writeWith A h offset len upd = (r, b', h')) : BufStep h b.pages h' b'.pages [] := by
  unfold writeWith at hr
  split at hr
  · rename_i hz
    cases hr
    exact reserveZeroed_step hz
  rename_i hz
  split at hr
  · cases hr
    exact reserveZeroed_step hz
  split at hr
  · rename_i hres
    cases hr
    exact (reserveZeroed_step hz).trans (reserve_step hres)
  · rename_i hres
    cases hr
    exact (reserveZeroed_step hz).trans ((reserve_step hres).trans pageLoop_step)

lemma FileRel.release {s : FileState} {f : Bytes} (hs : FileRel s f) (i : Nat) : FileRel (s.release i) f := by
  unfold FileState.release
  split
  · exact hs
  rename_i k hk
  obtain ⟨hlt, rfl⟩ := List.getElem?_eq_some_iff.1 hk
  have hbytes : ∀ k : KernelPage, (k.drop s.heap).bytes = s.heap.bytes := fun k => dropAll_bytes s.heap [k]
  have hperm : (s.buffer.pages ++ s.others).Perm (s.others[i] :: (s.buffer.pages ++ s.others.eraseIdx i)) :=
    ((getElem_cons_eraseIdx_perm hlt).symm.append_left _).trans perm_middle
  refine ⟨⟨hs.is.len, fun j => ?_⟩, (hs.own.perm hperm).drop, hs.distinct⟩
  rw [← hs.is.byte j]
  simp only [byte, rawByte, hbytes]

/-- Every operation on the buffer is the same operation on the string. -/
lemma buffer_sim (A : Allocator) : LTS.Sim (bufferSystem A) stringFile FileRel where
  init := by
    rintro ⟨b, h, R⟩ ⟨rfl, o⟩
    exact ⟨[], rfl, ⟨rfl, fun i => by simp [byte, new]⟩, o, List.Pairwise.nil⟩
  step := by
    rintro s ⟨op, r⟩ s' f hs hst
    cases op with
    | write offset buf =>
      have hr : s.buffer.write A s.heap offset buf = (_, _, _) := rfl
      cases hst
      obtain ⟨f', hstep, hf'⟩ := hs.is.write hs.own hs.distinct hr
      exact ⟨f', hstep, hs.step (write_step hr) hf'⟩
    | writeFromUser offset u len =>
      have hr : s.buffer.writeFromUser A s.heap offset u len = (_, _, _) := rfl
      cases hst
      obtain ⟨f', hstep, hf'⟩ := hs.is.writeFromUser hs.own hs.distinct hr
      exact ⟨f', hstep, hs.step (writeWith_step hr) hf'⟩
    | truncate len =>
      have hr : s.buffer.truncate A s.heap len = (_, _, _) := rfl
      cases hst
      obtain ⟨f', hstep, hf'⟩ := hs.is.truncate hs.own hs.distinct hr
      exact ⟨f', hstep, hs.step (truncate_step hr) hf'⟩
    | getPage idx shared =>
      have hr : s.buffer.getPage A s.heap idx shared = (_, _, _) := rfl
      cases hst
      obtain ⟨hstep, hf'⟩ := hs.is.getPage hs.own hs.distinct hr
      exact ⟨f, hstep, hs.step (getPage_step hr) hf'⟩
    | read offset buf =>
      cases hst
      refine ⟨f, ?_, hs⟩
      rw [hs.is.read offset buf]
      exact ⟨rfl, rfl, rfl⟩
    | readToUser offset u len =>
      cases hst
      refine ⟨f, ?_, hs⟩
      obtain ⟨m, hm, hok, hmem⟩ := hs.is.readToUser offset u len
      rw [hmem]
      cases hr : (s.buffer.readToUser s.heap offset u len).1 with
      | ok n =>
        obtain ⟨hn, hmn⟩ := hok n hr
        exact ⟨hn, by rw [hmn, hn], rfl⟩
      | error e => exact ⟨m, hm, rfl, rfl⟩
    | drop i =>
      cases hst
      exact ⟨f, rfl, hs.release i⟩

end Mushroom.L2
