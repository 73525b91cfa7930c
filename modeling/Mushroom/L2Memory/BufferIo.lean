import Mushroom.L2Memory.File

/-!
# Reading a file, and copies from and to user memory

`read`, `read_to_user` and `write_from_user` of
`kernel/memory/page/buffer.rs:70-285`. The two reads make the same
copies, page by page, to different places; a copy to or from user memory may
stop at a fault after some of its bytes, and the bytes copied until then stay.
-/
namespace Mushroom.L2
open List

/-! ## User memory -/

/-- User memory as one operation meets it: what its copies see, and how many of `n` bytes at `addr` a copy
gets to before it faults. -/
structure UserCopy where
  pointer : Nat
  mem : Nat → UInt8
  fault : Nat → Nat → Option Nat

/-- How many of `count` bytes from offset `d` on are copied, and whether all are.
kernel/user/process/memory.rs:201-217, 274-290 -/
def UserCopy.copied (u : UserCopy) (d count : Nat) : Nat × Bool :=
  match u.fault (u.pointer + d) count with
  | none => (count, true)
  | some n => (min n count, false)

def UserCopy.bytes (u : UserCopy) (n : Nat) : Bytes := (List.range n).map fun d => u.mem (u.pointer + d)

lemma UserCopy.copied_le (u : UserCopy) (d count : Nat) : (u.copied d count).1 ≤ count := by
  unfold copied
  split
  · exact Nat.le_refl _
  · exact Nat.min_le_right _ _

variable {d : Nat} {u : UserCopy}

lemma UserCopy.copied_all {count : Nat} (h : (u.copied d count).2) : (u.copied d count).1 = count := by
  unfold copied at h ⊢
  split
  · rfl
  rename_i hf
  rw [hf] at h
  cases h

/-! ## `write_from_user` -/

/-- One page of the loop.
buffer.rs:258-279 -/
def userBytes (offset : Nat) (u : UserCopy) (len i : Nat) (v : Nat → UInt8) : (Nat → UInt8) × Bool :=
  let copyStart := max (i * 4096) offset
  let copyEnd := min ((i + 1) * 4096 - 1) (offset + len - 1)
  let r := u.copied (copyStart - offset) (copyEnd - copyStart + 1)
  (fun j =>
    if copyStart ≤ i * 4096 + j ∧ i * 4096 + j < copyStart + r.1 then
      u.mem (u.pointer + (i * 4096 + j - offset))
    else v j, r.2)

variable {len offset : Nat}

lemma Buffer.writeWith_fits {A : Allocator} {h h' : Heap} {b b' : Buffer}
    {upd : Nat → (Nat → UInt8) → (Nat → UInt8) × Bool} (hr : b.reserve A h (offset + len - b.len) = (.ok (), b', h')) :
    (match (pageLoop A (offset / 4096) ((offset + len + 4095) / 4096) upd h' 0 b'.pages).1 with
      | .ok () => max b'.len (offset + len)
      | .error _ => b'.len) ≤
        4096 * (pageLoop A (offset / 4096) ((offset + len + 4095) / 4096) upd h' 0 b'.pages).2.1.length := by
  have h1 := reserve_fits hr
  have h2 := b'.fits
  rw [pageLoop_length]
  split
  · exact Nat.max_le.2 ⟨h2, by omega⟩
  · exact h2

/-- `write` and `write_from_user` but for the copy into a page.
buffer.rs:167-224, 226-285 -/
def Buffer.writeWith (A : Allocator) (h : Heap) (b : Buffer) (offset len : Nat)
    (upd : Nat → (Nat → UInt8) → (Nat → UInt8) × Bool) : Except Errno Nat × Buffer × Heap :=
  match b.reserveZeroed A h (offset - b.len) with
  | (.error e, b, h) => (.error e, b, h)
  | (.ok (), b, h) =>
    if len = 0 then (.ok 0, b, h)
    else
      match hr : b.reserve A h (offset + len - b.len) with
      | (.error e, b, h) => (.error e, b, h)
      | (.ok (), b', h) =>
        let r := pageLoop A (offset / 4096) ((offset + len + 4095) / 4096) upd h 0 b'.pages
        let newLen := match r.1 with
          | .ok () => max b'.len (offset + len)
          | .error _ => b'.len
        (r.1.map fun _ => len, ⟨newLen, r.2.1, writeWith_fits hr⟩, r.2.2)

/-- buffer.rs:226-285 -/
def Buffer.writeFromUser (A : Allocator) (h : Heap) (b : Buffer) (offset : Nat) (u : UserCopy) (len : Nat) :
    Except Errno Nat × Buffer × Heap :=
  b.writeWith A h offset len (userBytes offset u len)

lemma Buffer.write_eq_writeWith (A : Allocator) (h : Heap) (b : Buffer) (offset : Nat) (buf : Bytes) :
    b.write A h offset buf =
      b.writeWith A h offset buf.length fun i v => (Buffer.writtenBytes offset buf i v, true) := by
  unfold Buffer.write Buffer.writeWith
  rcases b.reserveZeroed A h (offset - b.len) with ⟨_ | _, b1, h1⟩
  · rfl
  refine if_congr length_eq_zero_iff.symm rfl ?_
  simp only [writePages_eq_pageLoop]
  try rfl

lemma UserCopy.bytes_length (u : UserCopy) (n : Nat) : (u.bytes n).length = n := by simp [UserCopy.bytes]

/-- The number of bytes that are copied when the loop leaves page `i`. -/
def userCount (offset : Nat) (u : UserCopy) (len i : Nat) : Nat :=
  max (i * 4096) offset - offset +
    (u.copied (max (i * 4096) offset - offset)
      (min ((i + 1) * 4096 - 1) (offset + len - 1) - max (i * 4096) offset + 1)).1

/-- The pages get the bytes that the copies saw. -/
lemma userBytes_delivers {i : Nat} (u : UserCopy) (hlo : offset / 4096 ≤ i)
    (hhi : i < (offset + len + 4095) / 4096) (hlen : len ≠ 0) :
    Delivers offset (u.bytes len) i (userCount offset u len i) (userBytes offset u len i) := by
  unfold userCount
  have hle := u.copied_le (max (i * 4096) offset - offset)
    (min ((i + 1) * 4096 - 1) (offset + len - 1) - max (i * 4096) offset + 1)
  refine ⟨?_, fun v j hj => ?_, fun v hok => ?_, fun v _ => ?_⟩
  · rw [u.bytes_length]
    omega
  · rw [overwritten_take]
    simp only [userBytes]
    by_cases hin : max (i * 4096) offset ≤ i * 4096 + j ∧ i * 4096 + j < max (i * 4096) offset +
        (u.copied (max (i * 4096) offset - offset)
          (min ((i + 1) * 4096 - 1) (offset + len - 1) - max (i * 4096) offset + 1)).1
    · have hd : i * 4096 + j - offset < len := by omega
      rw [if_pos hin, if_pos (by omega), overwritten, if_pos (by omega)]
      simp [UserCopy.bytes, hd]
    rw [if_neg hin]
    split
    · rw [overwritten_outside _ (.inl (by omega))]
    · rfl
  · rw [u.bytes_length, u.copied_all hok]
    omega
  · omega

/-! ## `read` and `read_to_user` -/

/-- The copies of both reads from index `i` on: where in the destination, and which bytes.
buffer.rs:82-112, 133-162 -/
def readPieces (h : Heap) (offset len : Nat) : Nat → List KernelPage → List (Nat × Bytes)
  | _, [] => []
  | i, k :: ks =>
    if offset / 4096 ≤ i ∧ i < (offset + len + 4095) / 4096 then
      let copyStart := max (i * 4096) offset
      let copyEnd := min ((i + 1) * 4096 - 1) (offset + len - 1)
      (copyStart - offset,
        (List.range (copyEnd - copyStart + 1)).map fun j => h.bytes k.content (copyStart - i * 4096 + j)) ::
        readPieces h offset len (i + 1) ks
    else readPieces h offset len (i + 1) ks

/-- `copy_nonoverlapping` into a slice -/
def splice (buf : Bytes) (d : Nat) (bs : Bytes) : Bytes := buf.take d ++ (bs ++ buf.drop (d + bs.length))

/-- Returns the count and the slice afterwards.
buffer.rs:70-115 -/
def Buffer.read (h : Heap) (b : Buffer) (offset : Nat) (buf : Bytes) : Nat × Bytes :=
  let len := min (b.len - offset) buf.length
  if len = 0 then (0, buf)
  else (len, (readPieces h offset len 0 b.pages).foldl (fun buf p => splice buf p.1 p.2) buf)

def stored (mem : Nat → UInt8) (addr : Nat) (bs : Bytes) : Nat → UInt8 :=
  fun a => overwritten addr bs a (mem a)

def toUser (u : UserCopy) : List (Nat × Bytes) → (Nat → UInt8) → Except Errno Unit × (Nat → UInt8)
  | [], mem => (.ok (), mem)
  | p :: ps, mem =>
    let r := u.copied p.1 p.2.length
    if r.2 then toUser u ps (stored mem (u.pointer + p.1) (p.2.take r.1))
    else (.error .fault, stored mem (u.pointer + p.1) (p.2.take r.1))

/-- Returns the count and user memory afterwards.
buffer.rs:117-165 -/
def Buffer.readToUser (h : Heap) (b : Buffer) (offset : Nat) (u : UserCopy) (len : Nat) :
    Except Errno Nat × (Nat → UInt8) :=
  let len := min (b.len - offset) len
  if len = 0 then (.ok 0, u.mem)
  else
    let r := toUser u (readPieces h offset len 0 b.pages) u.mem
    (r.1.map fun _ => len, r.2)

/-- The copies `ps` follow each other from `d` on and make up `data`. -/
def Pieces : Nat → List (Nat × Bytes) → Bytes → Prop
  | _, [], data => data = []
  | d, p :: ps, data => p.1 = d ∧ ∃ rest, data = p.2 ++ rest ∧ Pieces (d + p.2.length) ps rest

lemma copy_count {i : Nat} (hlo : offset / 4096 ≤ i) (hhi : i < (offset + len + 4095) / 4096)
    (hlen : len ≠ 0) : min ((i + 1) * 4096 - 1) (offset + len - 1) - max (i * 4096) offset + 1 =
      min ((i + 1) * 4096) (offset + len) - max (i * 4096) offset := by
  have hmin : min ((i + 1) * 4096 - 1) (offset + len - 1) = min ((i + 1) * 4096) (offset + len) - 1 := by
    rcases Nat.le_total ((i + 1) * 4096) (offset + len) with h | h
    · rw [Nat.min_eq_left h, Nat.min_eq_left (by omega)]
    · rw [Nat.min_eq_right h, Nat.min_eq_right (by omega)]
  rw [hmin]
  omega

/-- The copies of a page that ends at `q` end where those of the next begin. -/
lemma copy_next {p q : Nat} (hp : p < q) (hlo : offset < q) (hhi : p < offset + len) :
    min (q - offset) len = min (p - offset) len + (min q (offset + len) - max p offset) := by omega

lemma readPieces_pieces (h : Heap) (offset : Nat) (hlen : len ≠ 0) (g : Nat → UInt8) (i : Nat)
    (ks : List KernelPage) (hg : ∀ x, x / 4096 < ks.length → rawByte h ks x = g (i * 4096 + x))
    (hks : (offset + len + 4095) / 4096 ≤ i + ks.length) :
    Pieces (min (i * 4096 - offset) len) (readPieces h offset len i ks)
      ((List.range (len - min (i * 4096 - offset) len)).map fun t =>
        g (offset + (min (i * 4096 - offset) len + t))) := by
  induction ks generalizing i with
  | nil =>
    rw [length_nil] at hks
    rw [Nat.min_eq_right (by omega), Nat.sub_self]
    rfl
  | cons k ks ih =>
    have hnext : ∀ x, x / 4096 < ks.length → rawByte h ks x = g ((i + 1) * 4096 + x) := by
      intro x hx
      have := hg (4096 + x) (by rw [length_cons]; omega)
      rw [rawByte_cons, if_neg (by omega), Nat.add_sub_cancel_left] at this
      rw [this]
      exact congrArg g (by omega)
    have hrest := ih (i + 1) hnext (by rw [length_cons] at hks; omega)
    unfold readPieces
    split
    · rename_i hrange
      simp only [copy_count hrange.1 hrange.2 hlen]
      have hpos : min (i * 4096 - offset) len = max (i * 4096) offset - offset := by omega
      have hcount : min ((i + 1) * 4096 - offset) len = min (i * 4096 - offset) len +
          (min ((i + 1) * 4096) (offset + len) - max (i * 4096) offset) :=
        copy_next (by omega) (by omega) (by omega)
      have hsplit : len - min (i * 4096 - offset) len = (min ((i + 1) * 4096) (offset + len) - max (i * 4096) offset) +
            (len - min ((i + 1) * 4096 - offset) len) := by omega
      refine ⟨hpos.symm, (List.range (len - min ((i + 1) * 4096 - offset) len)).map fun t =>
          g (offset + (min ((i + 1) * 4096 - offset) len + t)), ?_, ?_⟩
      · rw [hsplit, range_add, map_append, map_map]
        refine congrArg₂ (· ++ ·) (map_congr_left fun t ht => ?_) (map_congr_left fun t _ => ?_)
        · rw [mem_range] at ht
          have hx : max (i * 4096) offset - i * 4096 + t < 4096 := by omega
          have hbyte := hg (max (i * 4096) offset - i * 4096 + t) (by rw [length_cons]; omega)
          rw [rawByte_cons, if_pos hx] at hbyte
          rw [hbyte]
          exact congrArg g (by omega)
        · simp only [Function.comp]
          exact congrArg g (by omega)
      · rw [length_map, length_range, ← hcount]
        exact hrest
    · rename_i hrange
      have hsame : min ((i + 1) * 4096 - offset) len = min (i * 4096 - offset) len := by omega
      rwa [hsame] at hrest

variable {buf data bs : Bytes} {ps : List (Nat × Bytes)}

lemma splice_splice {rest : Bytes} (h : d + bs.length ≤ buf.length) :
    splice (splice buf d bs) (d + bs.length) rest = splice buf d (bs ++ rest) := by
  have hlen : (buf.take d ++ bs).length = d + bs.length := by
    rw [length_append, length_take, Nat.min_eq_left (by omega)]
  have htake : (splice buf d bs).take (d + bs.length) = buf.take d ++ bs := by
    rw [splice, ← append_assoc, take_left' hlen]
  have hdrop : (splice buf d bs).drop (d + bs.length + rest.length) = buf.drop (d + (bs ++ rest).length) := by
    rw [splice, ← append_assoc, ← drop_drop, drop_left' hlen, drop_drop, length_append, Nat.add_assoc]
  rw [splice, htake, hdrop, splice, append_assoc, append_assoc]

lemma splice_length (h : d + bs.length ≤ buf.length) : (splice buf d bs).length = buf.length := by
  simp only [splice, length_append, length_take, length_drop]
  omega

/-- Copies that follow each other fill the slice. -/
lemma Pieces.foldl_splice (h : Pieces d ps data)
    (hlen : d + data.length ≤ buf.length) : ps.foldl (fun buf p => splice buf p.1 p.2) buf = splice buf d data := by
  induction ps generalizing d data buf with
  | nil =>
    cases h
    simp [splice]
  | cons p ps ih =>
    obtain ⟨hd, rest, rfl, hrest⟩ := h
    rw [length_append] at hlen
    rw [foldl_cons, hd, ih hrest (by rw [splice_length (by omega)]; omega), splice_splice (by omega)]

lemma stored_append (mem : Nat → UInt8) (addr : Nat) (bs rest : Bytes) :
    stored (stored mem addr bs) (addr + bs.length) rest = stored mem addr (bs ++ rest) := by
  funext a
  simp only [stored, overwritten]
  by_cases h1 : addr + bs.length ≤ a
  · have hold : bs[a - addr]? = none := List.getElem?_eq_none (by omega)
    rw [if_pos h1, if_pos (by omega), if_pos (by omega), List.getElem?_append_right (by omega), hold, Nat.sub_add_eq]
    rfl
  rw [if_neg h1]
  by_cases h2 : addr ≤ a
  · rw [if_pos h2, if_pos h2, List.getElem?_append_left (by omega)]
  · rw [if_neg h2, if_neg h2]

/-- Copies that follow each other store all of the data, or its front up to a
fault. -/
lemma Pieces.toUser
    (h : Pieces d ps data) (mem : Nat → UInt8) : ∃ m ≤ data.length, ((toUser u ps mem).1 = .ok () → m = data.length) ∧
        (toUser u ps mem).2 = stored mem (u.pointer + d) (data.take m) := by
  induction ps generalizing d data mem with
  | nil =>
    cases h
    refine ⟨0, Nat.le_refl _, fun _ => rfl, funext fun a => ?_⟩
    exact (overwritten_outside _ (by simp only [take_nil, length_nil]; omega)).symm
  | cons p ps ih =>
    obtain ⟨hd, rest, rfl, hrest⟩ := h
    unfold L2.toUser
    simp only
    split
    · rename_i hall
      obtain ⟨m, hm, hok, hmem⟩ := ih hrest (stored mem (u.pointer + p.1) (p.2.take (u.copied p.1 p.2.length).1))
      refine ⟨p.2.length + m, by rw [length_append]; omega, fun h => ?_, ?_⟩
      · rw [length_append, hok h]
      have htake : (p.2 ++ rest).take (p.2.length + m) = p.2 ++ rest.take m := take_length_add_append m
      rw [hmem, u.copied_all hall, take_length, ← Nat.add_assoc, hd, stored_append, htake]
    · have hle := u.copied_le p.1 p.2.length
      refine ⟨(u.copied p.1 p.2.length).1, by rw [length_append]; omega, nofun, ?_⟩
      rw [hd, take_append_of_le_length (by rw [← hd]; exact hle)]

/-! ## What the reads return -/

/-- The buffer holds the string `f`. -/
structure Buffer.Is (h : Heap) (b : Buffer) (f : Bytes) : Prop where
  len : b.len = f.length
  byte : ∀ i, b.byte h i = f.getD i 0

section

variable {h : Heap} {b : Buffer} {f : Bytes}

lemma Buffer.Is.pieces (hf : b.Is h f) {n : Nat} (hn : n ≠ 0) (hle : n ≤ f.length - offset) :
    Pieces 0 (readPieces h offset n 0 b.pages) ((f.drop offset).take n) := by
  have hfits := b.fits
  have hlen := hf.len
  have hp := readPieces_pieces h offset hn (rawByte h b.pages) 0 b.pages
    (fun x _ => by rw [Nat.zero_mul, Nat.zero_add]) (by omega)
  have hdata : (f.drop offset).take n = (List.range (n - 0)).map fun t => rawByte h b.pages (offset + (0 + t)) := by
    apply ext_getElem
    · simp only [length_take, length_drop, length_map, length_range]
      omega
    intro t ht _
    simp only [length_take, length_drop] at ht
    have hbyte := hf.byte (offset + t)
    rw [Buffer.byte, if_pos (by omega), getD_eq_getElem _ _ (by omega)] at hbyte
    simp only [getElem_take, getElem_drop, getElem_map, getElem_range, Nat.zero_add]
    exact hbyte.symm
  rw [hdata]
  simpa only [Nat.zero_mul, Nat.zero_sub, Nat.zero_min] using hp

/-- **`read`** returns the bytes of the string at the offset. -/
lemma Buffer.Is.read (hf : b.Is h f) (offset : Nat) (buf : Bytes) :
    b.read h offset buf = (min (f.length - offset) buf.length,
      (f.drop offset).take (min (f.length - offset) buf.length) ++ buf.drop (min (f.length - offset) buf.length)) := by
  unfold Buffer.read
  simp only [hf.len]
  split
  · rename_i h0
    rw [h0]
    rfl
  rename_i h0
  have hlen : ((f.drop offset).take (min (f.length - offset) buf.length)).length =
      min (f.length - offset) buf.length := by
    simp only [length_take, length_drop]
    omega
  rw [(hf.pieces h0 (Nat.min_le_left _ _)).foldl_splice (by omega), splice, take_zero, nil_append, Nat.zero_add, hlen]

/-- **`read_to_user`** stores the same bytes in user memory, or its front up to
a fault. -/
lemma Buffer.Is.readToUser (hf : b.Is h f) (offset : Nat) (u : UserCopy) (len : Nat) :
    ∃ m ≤ min (f.length - offset) len, (∀ n, (b.readToUser h offset u len).1 = .ok n →
        n = min (f.length - offset) len ∧ m = min (f.length - offset) len) ∧
      (b.readToUser h offset u len).2 = stored u.mem u.pointer ((f.drop offset).take m) := by
  unfold Buffer.readToUser
  simp only [hf.len]
  split
  · rename_i h0
    refine ⟨0, Nat.zero_le _, fun n hn => ?_, funext fun a => ?_⟩
    · cases hn
      exact ⟨h0.symm, h0.symm⟩
    · exact (overwritten_outside _ (by simp only [take_zero, length_nil]; omega)).symm
  rename_i h0
  obtain ⟨m, hm, hok, hmem⟩ := (hf.pieces h0 (Nat.min_le_left _ _)).toUser (u := u) u.mem
  have hlen : ((f.drop offset).take (min (f.length - offset) len)).length = min (f.length - offset) len := by
    simp only [length_take, length_drop]
    omega
  rw [hlen] at hm hok
  refine ⟨m, hm, fun n hn => ?_, ?_⟩
  · cases hr : (toUser u (readPieces h offset (min (f.length - offset) len) 0 b.pages) u.mem).1 with
    | ok x =>
      rw [hr] at hn
      cases hn
      exact ⟨rfl, hok hr⟩
    | error e =>
      rw [hr] at hn
      cases hn
  · rw [hmem, take_take, Nat.min_eq_left hm]
    rfl

end

end Mushroom.L2
