import Mushroom.Core.Bytes

/-!
# Records in memory

A record without padding is the list of its fields, each a width in bytes and a
value, lowest address first (`pack`); a reader that knows the widths gets the
values back (`unpack_pack`). `slice` is a part of a string, and `stores` is what
a list of stores leaves in memory: a string that no later store meets is still
there (`readMem_stores`).
-/
namespace Mushroom
open List

/-! ## Fields -/

def pack (fs : List (Nat × Nat)) : Bytes := fs.flatMap fun f => leBytes f.1 f.2

def unpack : List Nat → Bytes → List Nat
  | [], _ => []
  | w :: ws, b => leNat (b.take w) :: unpack ws (b.drop w)

lemma leNat_leBytes_mod (w n : Nat) : leNat (leBytes w n) = n % 256 ^ w := by
  induction w generalizing n with
  | zero => simp [leBytes, leNat, Nat.mod_one]
  | succ w ih =>
    simp only [leBytes, leNat, ih, UInt8.toNat_ofNat', Nat.reducePow, Nat.mod_mod]
    rw [pow_succ', Nat.mod_mul]

@[simp] lemma pack_nil : pack [] = [] := rfl

@[simp] lemma pack_cons (f : Nat × Nat) (fs : List (Nat × Nat)) : pack (f :: fs) = leBytes f.1 f.2 ++ pack fs := rfl

@[simp] lemma pack_length (fs : List (Nat × Nat)) : (pack fs).length = (fs.map Prod.fst).sum := by
  induction fs with
  | nil => rfl
  | cons f fs ih => simp [ih]

/-- A field is read as it was stored, up to its width. -/
lemma unpack_pack (fs : List (Nat × Nat)) : unpack (fs.map Prod.fst) (pack fs) = fs.map fun f => f.2 % 256 ^ f.1 := by
  induction fs with
  | nil => rfl
  | cons f fs ih =>
    simp only [map_cons, pack_cons, unpack]
    rw [take_left' (leBytes_length ..), drop_left' (leBytes_length ..), ih, leNat_leBytes_mod]

/-! ## Parts of a string -/

def slice (b : Bytes) (off len : Nat) : Bytes := (b.drop off).take len

@[simp] lemma slice_length (b : Bytes) (off len : Nat) : (slice b off len).length = min len (b.length - off) := by
  simp [slice]

lemma slice_append (b : Bytes) (off m n : Nat) : slice b off m ++ slice b (off + m) n = slice b off (m + n) := by
  unfold slice
  rw [← drop_drop, ← take_add]

lemma slice_zero (b : Bytes) (n : Nat) : slice b 0 n = b.take n := rfl

variable {b : Bytes} {off addr : Nat}

lemma leBytes_slice {len : Nat} (h : off + len ≤ b.length) :
    leBytes len (leNat (slice b off len)) = slice b off len := by
  have hlen : (slice b off len).length = len := by
    rw [slice_length]
    omega
  have hbytes := leBytes_leNat (slice b off len)
  rwa [hlen] at hbytes

lemma leNat_slice_lt (b : Bytes) (off len : Nat) : leNat (slice b off len) < 256 ^ len := by
  refine lt_of_lt_of_le (leNat_lt _) (Nat.pow_le_pow_right (by decide) ?_)
  rw [slice_length]
  omega

lemma leNat_leBytes_slice {len w : Nat} (h : len ≤ w) :
    leNat (leBytes w (leNat (slice b off len))) = leNat (slice b off len) :=
  leNat_leBytes (lt_of_lt_of_le (leNat_slice_lt b off len) (Nat.pow_le_pow_right (by decide) h))

def splice (b : Bytes) (off : Nat) (new : Bytes) : Bytes := b.take off ++ new ++ b.drop (off + new.length)

variable {new : Bytes}

lemma splice_length (h : off + new.length ≤ b.length) : (splice b off new).length = b.length := by
  simp only [splice, length_append, length_take, length_drop]
  omega

lemma splice_take {m : Nat} (h : m ≤ off) (hb : off ≤ b.length) : (splice b off new).take m = b.take m := by
  unfold splice
  rw [append_assoc, take_append_of_le_length (by rw [length_take]; omega), take_take, min_eq_left h]

lemma splice_drop {m : Nat} (h : off + new.length ≤ m) (hb : off ≤ b.length) :
    (splice b off new).drop m = b.drop m := by
  have hlen : (b.take off ++ new).length = off + new.length := by rw [length_append, length_take, min_eq_left hb]
  obtain ⟨k, rfl⟩ := Nat.exists_eq_add_of_le h
  unfold splice
  rw [← hlen, drop_append, hlen, Nat.add_sub_cancel_left, drop_of_length_le (by omega), nil_append, drop_drop]

lemma splice_slice {a n : Nat} (h : a + n ≤ off) (hb : off ≤ b.length) :
    slice (splice b off new) a n = slice b a n := by
  unfold slice
  rw [take_drop, take_drop, splice_take h hb]

/-! ## A list of stores -/

def stores (mem : Nat → UInt8) (ws : List (Nat × Bytes)) : Nat → UInt8 :=
  ws.foldl (fun mem w => writeMem mem w.1 w.2) mem

lemma stores_append (mem : Nat → UInt8) (ws vs : List (Nat × Bytes)) :
    stores mem (ws ++ vs) = stores (stores mem ws) vs := foldl_append ..

variable {ws : List (Nat × Bytes)}

lemma stores_of_outside {a : Nat} (h : ∀ w ∈ ws, a < w.1 ∨ w.1 + w.2.length ≤ a)
    (mem : Nat → UInt8) : stores mem ws a = mem a := by
  induction ws generalizing mem with
  | nil => rfl
  | cons w ws ih =>
    show stores (writeMem mem w.1 w.2) ws a = mem a
    rw [ih fun v hv => h v (mem_cons_of_mem w hv)]
    exact writeMem_of_not_mem (h w mem_cons_self)

lemma readMem_stores {n : Nat} (h : ∀ w ∈ ws, addr + n ≤ w.1 ∨ w.1 + w.2.length ≤ addr) (mem : Nat → UInt8) :
    readMem (stores mem ws) addr n = readMem mem addr n := by
  refine readMem_congr fun i hi => stores_of_outside (fun w hw => ?_) mem
  have hw := h w hw
  omega

/-- A string that none of the later stores meets. -/
lemma readMem_stores_split {pre post : List (Nat × Bytes)}
    (hws : ws = pre ++ (addr, b) :: post) (h : ∀ w ∈ post, addr + b.length ≤ w.1 ∨ w.1 + w.2.length ≤ addr)
    (mem : Nat → UInt8) : readMem (stores mem ws) addr b.length = b := by
  rw [hws, stores_append]
  show readMem (stores (writeMem (stores mem pre) addr b) post) addr b.length = b
  rw [readMem_stores h, readMem_writeMem]

lemma readMem_writeMem_splice {mem : Nat → UInt8} (h : off + new.length ≤ b.length)
    (hb : readMem mem addr b.length = b) :
    readMem (writeMem mem (addr + off) new) addr b.length = splice b off new := by
  obtain ⟨k, hk⟩ := Nat.exists_eq_add_of_le h
  rw [hk, readMem_append, readMem_append, readMem_writeMem, readMem_writeMem_of_disjoint (.inl (le_refl _)),
    readMem_writeMem_of_disjoint (.inr (by omega))]
  unfold splice
  congr 1
  · congr 1
    rw [← readMem_take (n := b.length) (by omega), hb]
  have hdrop : (readMem mem addr b.length).drop (off + new.length) = _ := readMem_drop (by omega)
  rw [hb] at hdrop
  rw [hdrop]
  congr 1
  omega

end Mushroom
