import Mathlib

/-!
# Byte strings and memory

Little-endian integers, the pieces `chunks(n)` cuts a slice into, padding with
zeros, and memory as a function from addresses to bytes. `read_append` and
`Holds` are the rules for memory: a string at an address is its parts one
behind the other.
-/
namespace Mushroom
open List

abbrev Bytes := List UInt8

/-- Byte strings of a fixed length, `[u8; n]`. -/
abbrev ByteArr (n : Nat) := { b : Bytes // b.length = n }

/-! ## Little-endian integers -/

/-- The `w` bytes of `n`, lowest first. -/
def leBytes : Nat → Nat → Bytes
  | 0, _ => []
  | w + 1, n => UInt8.ofNat (n % 256) :: leBytes w (n / 256)

def leNat : Bytes → Nat
  | [] => 0
  | b :: bs => b.toNat + 256 * leNat bs

@[simp] lemma leBytes_length (w n : Nat) : (leBytes w n).length = w := by
  induction w generalizing n with
  | zero => rfl
  | succ w ih => simp [leBytes, ih]

variable {n : Nat}

lemma leNat_leBytes {w : Nat} (h : n < 256 ^ w) : leNat (leBytes w n) = n := by
  induction w generalizing n with
  | zero =>
    have : n = 0 := by simpa using h
    subst this
    rfl
  | succ w ih =>
    have hdiv : n / 256 < 256 ^ w := by
      rw [Nat.div_lt_iff_lt_mul (by decide), ← pow_succ]
      exact h
    simp only [leBytes, leNat, ih hdiv, UInt8.toNat_ofNat', Nat.reducePow, Nat.mod_mod]
    omega

lemma leNat_lt (bs : Bytes) : leNat bs < 256 ^ bs.length := by
  induction bs with
  | nil => simp [leNat]
  | cons b bs ih =>
    have hb := b.toNat_lt
    simp only [leNat, length_cons, pow_succ]
    omega

lemma leBytes_leNat (bs : Bytes) : leBytes bs.length (leNat bs) = bs := by
  induction bs with
  | nil => rfl
  | cons b bs ih =>
    have hb := b.toNat_lt
    have hmod : (b.toNat + 256 * leNat bs) % 256 = b.toNat := by omega
    have hdiv : (b.toNat + 256 * leNat bs) / 256 = leNat bs := by omega
    simp only [leNat, length_cons, leBytes, hmod, hdiv, ih, UInt8.ofNat_toNat]

/-! ## Padding -/

/-- The string in an array of `n` zero bytes. -/
def pad (n : Nat) (b : Bytes) : Bytes := b ++ List.replicate (n - b.length) 0

variable {b : Bytes}

lemma pad_length (h : b.length ≤ n) : (pad n b).length = n := by
  simp only [pad, length_append, length_replicate]
  omega

lemma pad_getD (n : Nat) (b : Bytes) (i : Nat) : (pad n b).getD i 0 = b.getD i 0 := by
  simp only [pad, getD_eq_getElem?_getD]
  by_cases hi : i < b.length
  · rw [List.getElem?_append_left hi]
  rw [List.getElem?_append_right (by omega), List.getElem?_eq_none (show b.length ≤ i by omega),
    List.getElem?_replicate]
  split <;> rfl

lemma pad_injective {a : Bytes} (hl : a.length = b.length) (h : pad n a = pad n b) : a = b := (append_inj h hl).1

/-! ## Pieces -/

section

variable {α : Type}

/-- `slice.chunks(n)`: pieces of `n` elements, the last one may be shorter. -/
def chunks (n : Nat) (l : List α) : List (List α) :=
  (List.range ((l.length + (n - 1)) / n)).map fun i => (l.drop (n * i)).take n

lemma chunks_nil (hn : 0 < n) : chunks n ([] : List α) = [] := by
  have h : (([] : List α).length + (n - 1)) / n = 0 :=
    Nat.div_eq_of_lt (by rw [length_nil]; omega)
  rw [chunks, h]
  rfl

lemma chunks_cons (hn : 0 < n) {l : List α} (hl : l ≠ []) : chunks n l = l.take n :: chunks n (l.drop n) := by
  have hpos : 0 < l.length := length_pos_iff.2 hl
  have hcount : (l.length + (n - 1)) / n = (l.length - n + (n - 1)) / n + 1 := by
    by_cases hle : n ≤ l.length
    · rw [← Nat.add_div_right _ hn]
      congr 1
      omega
    · rw [Nat.div_eq_of_lt (show l.length - n + (n - 1) < n by omega), Nat.div_eq_iff hn]
      omega
  simp only [chunks, hcount, range_succ_eq_map, map_cons, map_map, mul_zero, drop_zero, length_drop]
  congr 1
  apply map_congr_left
  intro i _
  simp only [Function.comp, drop_drop, Nat.mul_succ]
  rw [add_comm]

@[simp] lemma chunks_length (n : Nat) (l : List α) : (chunks n l).length = (l.length + (n - 1)) / n := by simp [chunks]

lemma mem_chunks {l c : List α} (h : c ∈ chunks n l) : c.length ≤ n := by
  obtain ⟨i, -, rfl⟩ := mem_map.1 h
  exact length_take_le ..

end

/-- Padded pieces: only the last one is. -/
lemma chunks_pad_flatten (hn : 0 < n) (b : Bytes) :
    ((chunks n b).map (pad n)).flatten = pad (n * ((b.length + (n - 1)) / n)) b := by
  induction hk : b.length using Nat.strongRecOn generalizing b with
  | ind k ih =>
    subst hk
    by_cases hb : b = []
    · subst hb
      have h0 : (([] : Bytes).length + (n - 1)) / n = 0 :=
        Nat.div_eq_of_lt (by rw [length_nil]; omega)
      rw [chunks_nil hn, h0]
      rfl
    have hpos : 0 < b.length := length_pos_iff.2 hb
    have hcons := congrArg List.length (chunks_cons hn hb)
    simp only [chunks_length, length_cons, length_drop] at hcons
    rw [chunks_cons hn hb, map_cons, flatten_cons,
      ih (b.drop n).length (by simp; omega) (b.drop n) rfl, length_drop, hcons, Nat.mul_succ]
    by_cases hle : n ≤ b.length
    · have htake : (b.take n).length = n := by simp; omega
      have hpad : pad n (b.take n) = b.take n := by rw [pad, htake, Nat.sub_self, replicate_zero, append_nil]
      rw [hpad, pad, pad, ← append_assoc, take_append_drop, length_drop]
      congr 2
      omega
    · have h0 : (b.length - n + (n - 1)) / n = 0 := Nat.div_eq_of_lt (by omega)
      rw [h0, mul_zero, zero_add, take_of_length_le (by omega), drop_of_length_le (by omega)]
      simp [pad]

/-! ## Memory -/

/-- The `len` bytes from `addr` on. -/
@[irreducible] def readMem (mem : Nat → UInt8) (addr len : Nat) : Bytes := (List.range len).map fun i => mem (addr + i)

@[simp] lemma readMem_length (mem : Nat → UInt8) (addr len : Nat) : (readMem mem addr len).length = len := by
  simp [readMem]

@[simp] lemma readMem_zero (mem : Nat → UInt8) (addr : Nat) : readMem mem addr 0 = [] := by simp [readMem]

lemma readMem_append (mem : Nat → UInt8) (addr m n : Nat) :
    readMem mem addr (m + n) = readMem mem addr m ++ readMem mem (addr + m) n := by
  simp only [readMem, range_add, map_append, map_map]
  congr 1
  apply map_congr_left
  intro i _
  simp only [Function.comp, add_assoc]

variable {mem mem' : Nat → UInt8} {addr addr' : Nat}

lemma readMem_eq (h : ∀ i, i < b.length → mem (addr + i) = b.getD i 0) : readMem mem addr b.length = b := by
  apply ext_getElem (readMem_length ..)
  intro i hi hb
  simp only [readMem, getElem_map, getElem_range]
  rw [h i hb, getD_eq_getElem?_getD, List.getElem?_eq_getElem hb]
  rfl

lemma readMem_take {m : Nat} (h : m ≤ n) : (readMem mem addr n).take m = readMem mem addr m := by
  obtain ⟨k, rfl⟩ := Nat.exists_eq_add_of_le h
  rw [readMem_append, take_left' (readMem_length ..)]

lemma readMem_drop {m : Nat} (h : m ≤ n) : (readMem mem addr n).drop m = readMem mem (addr + m) (n - m) := by
  obtain ⟨k, rfl⟩ := Nat.exists_eq_add_of_le h
  rw [readMem_append, drop_left' (readMem_length ..), Nat.add_sub_cancel_left]

/-- Memory after a string is stored at `addr`. -/
def writeMem (mem : Nat → UInt8) (addr : Nat) (b : Bytes) (a : Nat) : UInt8 :=
  if addr ≤ a ∧ a < addr + b.length then b.getD (a - addr) 0 else mem a

lemma writeMem_of_not_mem {a : Nat} (h : a < addr ∨ addr + b.length ≤ a) :
    writeMem mem addr b a = mem a := if_neg (by omega)

lemma writeMem_add {i : Nat} (h : i < b.length) : writeMem mem addr b (addr + i) = b.getD i 0 := by
  rw [writeMem, if_pos (by omega), Nat.add_sub_cancel_left]

@[simp] lemma writeMem_nil (mem : Nat → UInt8) (addr : Nat) : writeMem mem addr [] = mem := by
  funext a
  exact writeMem_of_not_mem (by rw [length_nil]; omega)

lemma readMem_writeMem (mem : Nat → UInt8) (addr : Nat) (b : Bytes) :
    readMem (writeMem mem addr b) addr b.length = b := readMem_eq fun _ hi => writeMem_add hi

lemma readMem_congr (h : ∀ i < n, mem (addr + i) = mem' (addr + i)) : readMem mem addr n = readMem mem' addr n := by
  simp only [readMem]
  exact map_congr_left fun i hi => h i (mem_range.1 hi)

lemma readMem_writeMem_of_disjoint (h : addr' + n ≤ addr ∨ addr + b.length ≤ addr') :
    readMem (writeMem mem addr b) addr' n = readMem mem addr' n :=
  readMem_congr fun _ _ => writeMem_of_not_mem (by omega)

lemma writeMem_append (mem : Nat → UInt8) (addr : Nat) (b c : Bytes) :
    writeMem mem addr (b ++ c) = writeMem (writeMem mem addr b) (addr + b.length) c := by
  funext a
  by_cases hout : a < addr ∨ addr + (b ++ c).length ≤ a
  · rw [length_append] at hout
    rw [writeMem_of_not_mem (by rw [length_append]; omega), writeMem_of_not_mem (by omega),
      writeMem_of_not_mem (by omega)]
  rw [length_append] at hout
  by_cases hb : a < addr + b.length
  · obtain ⟨i, rfl⟩ := Nat.exists_eq_add_of_le (show addr ≤ a by omega)
    rw [writeMem_add (by rw [length_append]; omega), writeMem_of_not_mem (by omega), writeMem_add (by omega)]
    rw [getD_eq_getElem?_getD, List.getElem?_append_left (by omega), ← getD_eq_getElem?_getD]
  obtain ⟨i, rfl⟩ := Nat.exists_eq_add_of_le (show addr + b.length ≤ a by omega)
  rw [writeMem_add (by omega), add_assoc, writeMem_add (by rw [length_append]; omega),
    getD_eq_getElem?_getD, List.getElem?_append_right (by omega), Nat.add_sub_cancel_left,
    ← getD_eq_getElem?_getD]

/-- The strings lie one behind the other. -/
def Holds (mem : Nat → UInt8) : Nat → List Bytes → Prop
  | _, [] => True
  | addr, p :: ps => readMem mem addr p.length = p ∧ Holds mem (addr + p.length) ps

lemma holds_cons (p : ByteArr n) (ps : List Bytes) :
    Holds mem addr (p.1 :: ps) ↔ readMem mem addr n = p.1 ∧ Holds mem (addr + n) ps := by
  rw [Holds, p.2]

lemma holds_append {ps qs : List Bytes} :
    Holds mem addr (ps ++ qs) ↔ Holds mem addr ps ∧ Holds mem (addr + ps.flatten.length) qs := by
  induction ps generalizing addr with
  | nil => simp [Holds]
  | cons p ps ih => simp only [cons_append, Holds, ih, flatten_cons, length_append, and_assoc, add_assoc]

lemma Holds.flatten {ps : List Bytes} (h : Holds mem addr ps) : readMem mem addr ps.flatten.length = ps.flatten := by
  induction ps generalizing addr with
  | nil => exact readMem_zero ..
  | cons p ps ih => rw [flatten_cons, length_append, readMem_append, h.1, ih h.2]

end Mushroom
