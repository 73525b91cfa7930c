import Mushroom.L3Launch.InputFile

/-!
# The input chain

`Layout mem a inputs e` is the format all parties agree on: at `a` a page that
begins with the length of the first input, then its bytes, and so on; the
length `!0` ends the list. The kernel copies exactly the inputs of a layout
(`copyLoop_layout`), the pages of the loader are a layout the supervisor
accepts (`verifyLoop_payloads`), and whatever the supervisor accepts is a
layout, whose inputs the attested hash determines (`verifyLoop_same`).
-/
namespace Mushroom.L3
open List L1 L2 Header

/-- The inputs lie in memory from `a` to `e`. -/
inductive Layout (mem : Nat → UInt8) : Nat → List Bytes → Nat → Prop where
  | done {a : Nat} : readMem mem a 8 = leBytes 8 (2 ^ 64 - 1) → Layout mem a [] (a + 4096)
  | input {a e : Nat} {b : Bytes} {bs : List Bytes} : b.length < 2 ^ 64 - 1 →
    readMem mem a 8 = leBytes 8 b.length → readMem mem (a + 4096) b.length = b →
    Layout mem (a + 4096 + 4096 * stepByCount b.length) bs e → Layout mem a (b :: bs) e

variable {a i n : Nat} {bs : List Bytes} {b : Bytes} {header : Header} {nextHash : ByteArr 32}

lemma Layout.fits {mem : Nat → UInt8} {e : Nat} (h : Layout mem a bs e) : a + 4096 + bs.flatten.length ≤ e := by
  induction h with
  | done => simp
  | @input a e b bs _ _ _ _ ih =>
    have := stepByCount_eq b.length
    rw [flatten_cons, length_append]
    omega

/-! ## The kernel copies the inputs -/

section

variable {F : Type} {ops : FileOps F} {Is : Bytes → F → Prop} {pages offset len : Nat} {mem : Nat → UInt8} {x : F}

lemma Region.read_eq (h : offset + len ≤ 4096 * pages) :
    Region.read ⟨pages, mem⟩ offset len = some (readMem mem offset len) := if_pos h

/-- The file in the middle of an input: `i` bytes of `b` are copied, the rest
is still zero. -/
def partway (f b : Bytes) (i : Nat) : Bytes := f ++ (b.take i ++ List.replicate (b.length - i) 0)

lemma truncated_eq_partway (f b : Bytes) : truncated f (f.length + b.length) = partway f b 0 := by
  unfold truncated partway pad
  rw [take_of_length_le (by omega), take_zero, nil_append, Nat.sub_zero, Nat.add_sub_cancel_left]

variable {f : Bytes}

lemma partway_all (h : b.length ≤ i) : partway f b i = f ++ b := by
  unfold partway
  rw [take_of_length_le h, Nat.sub_eq_zero_of_le h, replicate_zero, append_nil]

lemma written_partway (h : i + n ≤ b.length) (hn : 0 < n) :
    written (partway f b i) (f.length + i) ((b.drop i).take n) = partway f b (i + n) := by
  have hlen : ((b.drop i).take n).length = n := by simp; omega
  have hne : (b.drop i).take n ≠ [] := fun h0 => by simp [h0] at hlen; omega
  have hhead : (f ++ b.take i).length = f.length + i := by simp; omega
  have htrunc : truncated (partway f b i) (f.length + i) = f ++ b.take i := by
    unfold truncated partway pad
    rw [← append_assoc, take_left' hhead, hhead, Nat.sub_self, replicate_zero, append_nil]
  have hdrop : (partway f b i).drop (f.length + i + n) = List.replicate (b.length - (i + n)) 0 := by
    unfold partway
    rw [← append_assoc, ← drop_drop, drop_left' hhead, drop_replicate]
    congr 1
    omega
  rw [written, if_neg hne, htrunc, hlen, hdrop]
  unfold partway
  rw [append_assoc, take_add, append_assoc]

lemma copyChunk_layout (hspec : FileSpec ops Is) (hmem : readMem mem a b.length = b) {steps : Nat}
    (hsteps : steps = (b.length - i + 4095) / 4096) (hend : a + b.length ≤ 4096 * pages) (hx : Is (partway f b i) x) :
    ∃ x', copyChunk ops ⟨pages, mem⟩ f.length b.length steps i (a + i) x = some (.ok (), x') ∧ Is (f ++ b) x' := by
  induction steps generalizing i x with
  | zero =>
    refine ⟨x, rfl, ?_⟩
    rwa [partway_all (by omega)] at hx
  | succ steps ih =>
    have hpiece : readMem mem (a + i) (min (b.length - i) 0x1000) = (b.drop i).take (min (b.length - i) 0x1000) := by
      have hrest : readMem mem (a + i) (b.length - i) = b.drop i := by rw [← readMem_drop (by omega), hmem]
      rw [← hrest, readMem_take (by omega)]
    obtain ⟨n, x1, hw, hx1⟩ := hspec.write (f.length + i) ((b.drop i).take (min (b.length - i) 0x1000)) hx
    unfold copyChunk
    rw [Region.read_eq (by omega), hpiece]
    simp only [hw]
    rw [written_partway (by omega) (by omega)] at hx1
    have hnext : partway f b (i + min (b.length - i) 0x1000) = partway f b (i + 0x1000) := by
      by_cases hle : 0x1000 ≤ b.length - i
      · rw [Nat.min_eq_right hle]
      · rw [partway_all (by omega), partway_all (by omega)]
    rw [hnext] at hx1
    obtain ⟨x', hloop, hx'⟩ := ih (by omega) hx1
    rw [← Nat.add_assoc] at hloop
    exact ⟨x', hloop, hx'⟩

lemma copyLoop_break {r : Region} {x' : F} (h : copyPass ops r offset len x = some (.ok none, x')) :
    copyLoop ops r offset len x = some (.ok (), x') := by
  unfold copyLoop
  split <;> rename_i h' <;> cases h.symm.trans h'
  rfl

lemma copyLoop_next {r : Region} {offset' len' : Nat} {x' : F}
    (h : copyPass ops r offset len x = some (.ok (some (offset', len')), x')) :
    copyLoop ops r offset len x = copyLoop ops r offset' len' x' := by
  rw [copyLoop]
  split <;> rename_i h' <;> cases h.symm.trans h'
  rfl

/-- The loop over the headers copies the inputs of a layout. -/
lemma copyLoop_layout (hspec : FileSpec ops Is) {e : Nat} (h : Layout mem a bs e) (hpages : e ≤ 4096 * pages)
    (hbound : 4096 * pages < 2 ^ 64) (hf : f.length ≤ a) (hx : Is f x) :
    ∃ x', copyLoop ops ⟨pages, mem⟩ a f.length x = some (.ok (), x') ∧ Is (f ++ bs.flatten) x' := by
  induction h generalizing f x with
  | @done a hword =>
    have hpass : copyPass ops ⟨pages, mem⟩ a f.length x = some (.ok none, x) := by
      unfold copyPass
      rw [Region.read_eq (by omega), hword]
      simp only [leNat_leBytes (show 2 ^ 64 - 1 < 256 ^ 8 by decide), if_true]
    exact ⟨x, copyLoop_break hpass, by simpa using hx⟩
  | @input a e b bs hlen hword hmem hrest ih =>
    have hfits := hrest.fits
    have hcount := stepByCount_eq b.length
    obtain ⟨x1, htr, hx1⟩ := hspec.truncate (f.length + b.length) hx
    rw [truncated_eq_partway] at hx1
    have hchunk : ∃ x', copyChunk ops ⟨pages, mem⟩ f.length b.length (stepByCount b.length) 0
        (a + 4096 + 0) x1 = some (.ok (), x') ∧ Is (f ++ b) x' :=
      copyChunk_layout hspec hmem hcount (by omega) hx1
    obtain ⟨x2, hchunk, hx2⟩ := hchunk
    have hpass : copyPass ops ⟨pages, mem⟩ a f.length x =
        some (.ok (some (a + 0x1000 + 0x1000 * stepByCount b.length, f.length + b.length)), x2) := by
      unfold copyPass
      rw [Region.read_eq (by omega), hword]
      simp only [leNat_leBytes (show b.length < 256 ^ 8 by omega)]
      rw [if_neg (by omega), if_neg (by omega)]
      simp only [htr]
      rw [Nat.add_zero] at hchunk
      simp [hchunk]
    have hf' : (f ++ b).length ≤ a + 4096 + 4096 * stepByCount b.length := by
      rw [length_append]
      omega
    obtain ⟨x', hloop, hx'⟩ := ih hpages hf' hx2
    rw [length_append] at hloop
    refine ⟨x', (copyLoop_next hpass).trans hloop, ?_⟩
    rwa [append_assoc] at hx'

end

/-! ## What the supervisor accepts -/

variable {log : List (HashType × Bytes)}

section

variable {S : Sha} {host host' : Nat → UInt8} {log' : List (HashType × Bytes)}

def headerAt (host : Nat → UInt8) (a : Nat) : Option Header := read ⟨readMem host a 96, readMem_length ..⟩

lemma headerAt_bytes (h : headerAt host a = some header) : header.bytes = readMem host a 96 := bytes_of_read h

/-- The kernel reads the length from the header the supervisor checked. -/
lemma headerAt_length (h : headerAt host a = some header) : readMem host a 8 = leBytes 8 header.inputLen.toNat := by
  have hb := headerAt_bytes h
  rw [← readMem_take (show 8 ≤ 96 by decide), ← hb, bytes, append_assoc, append_assoc, take_left' (leBytes_length ..)]

lemma verifyLoop_eq_some (h : verifyLoop S host i nextHash = some (n, log)) :
    ∃ header, headerAt host (4096 * i) = some header ∧ header.digest S = nextHash ∧ i < inputPages ∧
      ((header = last ∧ n = i + 1 ∧ log = [(.sha256, header.bytes)]) ∨
        ∃ input next log', hashInput host (i + 1) header.inputLen.toNat = some (input, next) ∧
          header.hashType.hash S input = header.hash ∧ verifyLoop S host next header.nextHash = some (n, log') ∧
          log = (.sha256, header.bytes) :: (header.hashType, input) :: log') := by
  rw [verifyLoop] at h
  split at h
  · cases h
  rename_i p hp
  obtain ⟨hlt, hpage⟩ := convert_eq_some hp
  split at h
  · cases h
  rename_i header hread
  have hat : headerAt host (4096 * i) = some header := by
    rw [← hread]
    unfold headerAt
    congr 2
    rw [hpage, readMem_take (by decide)]
  split at h
  · cases h
  rename_i hver
  have hdig : header.digest S = nextHash := by
    rwa [Bool.not_eq_false, verify, beq_iff_eq] at hver
  split at h
  · rename_i hlast
    cases h
    exact ⟨header, hat, hdig, hlt, .inl ⟨hlast, rfl, rfl⟩⟩
  split at h
  · cases h
  rename_i input next hin
  split at h
  · rename_i hhash
    obtain ⟨⟨n', log'⟩, hrec, he⟩ := Option.map_eq_some_iff.1 h
    simp only [Prod.mk.injEq] at he
    obtain ⟨rfl, rfl⟩ := he
    exact ⟨header, hat, hdig, hlt, .inr ⟨input, next, log', hin, hhash, hrec, rfl⟩⟩
  · cases h

/-- No two of the strings have the same hash under the same function. -/
structure Collisionless (S : Sha) (log : List (HashType × Bytes)) : Prop where
  sha256 : ∀ x y, (.sha256, x) ∈ log → (.sha256, y) ∈ log → S.sha256 x = S.sha256 y → x = y
  sha384 : ∀ x y, (.sha384, x) ∈ log → (.sha384, y) ∈ log → S.sha384 x = S.sha384 y → x = y

lemma Collisionless.mono (h : Collisionless S log) (hsub : ∀ x ∈ log', x ∈ log) : Collisionless S log' :=
  ⟨fun x y hx hy => h.sha256 x y (hsub _ hx) (hsub _ hy), fun x y hx hy => h.sha384 x y (hsub _ hx) (hsub _ hy)⟩

lemma Collisionless.hash (h : Collisionless S log) {t : HashType} {x y : Bytes} (hx : (t, x) ∈ log)
    (hy : (t, y) ∈ log) (he : t.hash S x = t.hash S y) : x = y := by
  cases t with
  | sha256 =>
    apply h.sha256 x y hx hy
    apply Subtype.ext
    apply pad_injective ((S.sha256 x).2.trans (S.sha256 y).2.symm)
    exact congrArg Subtype.val he
  | sha384 => exact h.sha384 x y hx hy he

/-- An accepted input lies behind its header as the layout says. -/
lemma Layout.of_hashInput {next : Nat} {input : Bytes} (hat : headerAt host (4096 * i) = some header)
    (hin : hashInput host (i + 1) header.inputLen.toNat = some (input, next))
    (hrest : Layout host (4096 * next) bs (4096 * n)) : Layout host (4096 * i) (input :: bs) (4096 * n) := by
  obtain ⟨rfl, rfl, hle⟩ := hashInput_eq_some hin
  have hcount := stepByCount_eq header.inputLen.toNat
  have haddr : 4096 * (i + 1) = 4096 * i + 4096 := by omega
  have hbound : header.inputLen.toNat < 2 ^ 64 - 1 := by
    unfold inputPages at hle
    omega
  refine .input ?_ ?_ ?_ ?_
  · rw [readMem_length]
    exact hbound
  · rw [readMem_length]
    exact headerAt_length hat
  · rw [readMem_length, haddr]
  rw [readMem_length, hcount]
  convert hrest using 1
  omega

/-- Two regions accepted for the same hash hold the same inputs. -/
lemma verifyLoop_same {n' : Nat}
    (h : verifyLoop S host i nextHash = some (n, log)) (h' : verifyLoop S host' i nextHash = some (n', log'))
    (hcol : Collisionless S (log ++ log')) :
    ∃ bs, Layout host (4096 * i) bs (4096 * n) ∧ Layout host' (4096 * i) bs (4096 * n') := by
  -- by induction on the pages left: a pass takes at least the header's
  induction hk : inputPages - i using Nat.strongRecOn generalizing i nextHash log log' with
  | ind k ih =>
    subst hk
    obtain ⟨header, hat, hdig, hlt, hcase⟩ := verifyLoop_eq_some h
    obtain ⟨header', hat', hdig', -, hcase'⟩ := verifyLoop_eq_some h'
    have hlogged : (.sha256, header.bytes) ∈ log ++ log' := by
      rcases hcase with ⟨-, -, rfl⟩ | ⟨_, _, _, -, -, -, rfl⟩ <;> simp
    have hlogged' : (.sha256, header'.bytes) ∈ log ++ log' := by
      rcases hcase' with ⟨-, -, rfl⟩ | ⟨_, _, _, -, -, -, rfl⟩ <;> simp
    have hbytes : header.bytes = header'.bytes :=
      hcol.sha256 _ _ hlogged hlogged' (hdig.trans hdig'.symm)
    obtain rfl : header = header' := by
      have hr := read_bytes header header.bytes_length
      simp only [hbytes, read_bytes header' header'.bytes_length, Option.some.injEq] at hr
      exact hr.symm
    have haddr : 4096 * (i + 1) = 4096 * i + 4096 := by omega
    rcases hcase with ⟨hlast, rfl, -⟩ | ⟨input, next, tail, hin, hhash, hrec, rfl⟩
    · have hlen : header.inputLen.toNat = 2 ^ 64 - 1 := by rw [hlast]; rfl
      rcases hcase' with ⟨-, rfl, -⟩ | ⟨input', next', tail', hin', -, -, -⟩
      · refine ⟨[], ?_, ?_⟩
        · rw [haddr]
          exact .done ((headerAt_length hat).trans (by rw [hlen]))
        · rw [haddr]
          exact .done ((headerAt_length hat').trans (by rw [hlen]))
      · -- an input of length `!0` does not fit the region
        obtain ⟨-, hnext, hle⟩ := hashInput_eq_some hin'
        unfold inputPages at hle
        omega
    rcases hcase' with ⟨hlast, -, -⟩ | ⟨input', next', tail', hin', hhash', hrec', rfl⟩
    · have hlen : header.inputLen.toNat = 2 ^ 64 - 1 := by rw [hlast]; rfl
      obtain ⟨-, hnext, hle⟩ := hashInput_eq_some hin
      unfold inputPages at hle
      omega
    have hnext := (hashInput_eq_some hin).2.1
    have hnext' := (hashInput_eq_some hin').2.1
    obtain rfl : input = input' := by
      apply hcol.hash _ _ (hhash.trans hhash'.symm)
      · simp
      · simp
    obtain rfl : next = next' := hnext.trans hnext'.symm
    obtain ⟨bs, hl, hl'⟩ := ih (inputPages - next) (by omega) hrec hrec'
      (hcol.mono fun x hx => by rcases mem_append.1 hx with hx | hx <;> simp [hx]) rfl
    exact ⟨input :: bs, .of_hashInput hat hin hl, .of_hashInput hat' hin' hl'⟩

end

/-! ## What the loader writes -/

section

variable {S : Sha} {host : Nat → UInt8}

lemma headers_cons (input : Input) (inputs : List Input) : headers S (input :: inputs) =
      (new S input.bytes input.hashType (headers S inputs).2 :: (headers S inputs).1,
        new S input.bytes input.hashType (headers S inputs).2) := by
  simp [headers]

lemma payloads_cons (input : Input) (inputs : List Input) : payloads S (input :: inputs) =
      (headers S (input :: inputs)).2.page :: (dataPages input.bytes ++ payloads S inputs) := by
  simp [payloads, headers_cons]

@[simp] lemma dataPages_length (b : Bytes) : (dataPages b).length = stepByCount b.length := by
  rw [dataPages, length_pmap, chunks_length, stepByCount_eq]

lemma dataPages_flatten (b : Bytes) :
    ((dataPages b).map Subtype.val).flatten = pad (4096 * stepByCount b.length) b := by
  have hmap : (dataPages b).map Subtype.val = (chunks 4096 b).map (pad 4096) := by
    rw [dataPages, map_pmap]
    exact pmap_eq_map ..
  rw [hmap, chunks_pad_flatten (by decide), stepByCount_eq]

lemma hashPages_ok {count : Nat} (h : i + count ≤ inputPages) :
    hashPages host count i = some (readMem host (4096 * i) (4096 * count)) := by
  induction count generalizing i with
  | zero => rw [Nat.mul_zero, readMem_zero]; rfl
  | succ count ih =>
    unfold hashPages convertToPrivateInPlace
    rw [if_pos (by omega), ih (by omega)]
    simp only [Option.map_some]
    rw [show 4096 * (count + 1) = 4096 + 4096 * count by omega, readMem_append]
    rfl

/-- The supervisor hashes the bytes of an input that lies in zero-padded
pages. -/
lemma hashInput_ok (hfit : i + stepByCount b.length ≤ inputPages)
    (hmem : readMem host (4096 * i) (4096 * stepByCount b.length) = pad (4096 * stepByCount b.length) b) :
    hashInput host i b.length = some (b, i + stepByCount b.length) := by
  have hcount := stepByCount_eq b.length
  have hb : readMem host (4096 * i) b.length = b := by
    rw [← readMem_take (show b.length ≤ 4096 * stepByCount b.length by omega), hmem, pad, take_left' rfl]
  have hzero : readMem host (4096 * i + b.length) (4096 * stepByCount b.length - b.length) =
      List.replicate (4096 * stepByCount b.length - b.length) 0 := by
    rw [← readMem_drop (by omega), hmem, pad, drop_left' rfl]
  unfold hashInput
  rw [hashPages_ok (by omega)]
  simp only
  by_cases hrem : b.length % 4096 = 0
  · rw [if_pos hrem]
    have hfull : 4096 * (b.length / 4096) = b.length := by omega
    have hnext : i + b.length / 4096 = i + stepByCount b.length := by omega
    rw [hfull, hb, hnext]
  have hlast : i + b.length / 4096 < inputPages := by omega
  have haddr : 4096 * (i + b.length / 4096) = 4096 * i + 4096 * (b.length / 4096) := by omega
  have hlen : b.length = 4096 * (b.length / 4096) + b.length % 4096 := by omega
  have htail : (readMem host (4096 * (i + b.length / 4096)) 4096).drop (b.length % 4096) =
      List.replicate (4096 - b.length % 4096) 0 := by
    rw [readMem_drop (by omega), haddr, Nat.add_assoc, ← hlen,
      show 4096 - b.length % 4096 = 4096 * stepByCount b.length - b.length by omega, hzero]
  have hbytes : readMem host (4096 * i) (4096 * (b.length / 4096)) ++
      (readMem host (4096 * (i + b.length / 4096)) 4096).take (b.length % 4096) = b := by
    rw [readMem_take (by omega), haddr, ← readMem_append, ← hlen, hb]
  unfold convertToPrivateInPlace
  rw [if_neg hrem, if_pos hlast]
  simp only
  have hnext : i + b.length / 4096 + 1 = i + stepByCount b.length := by omega
  rw [if_pos htail, hbytes, hnext]

lemma headerAt_page (h : readMem host a 4096 = header.page.1) : headerAt host a = some header := by
  have hb : readMem host a 96 = header.bytes := by
    rw [← readMem_take (show 96 ≤ 4096 by decide), h]
    exact take_left' header.bytes_length
  rw [← header.read_bytes header.bytes_length]
  unfold headerAt
  congr 2

lemma convert_ok (h : i < inputPages) :
    convertToPrivateInPlace host i = some ⟨readMem host (4096 * i) 4096, readMem_length ..⟩ := if_pos h

lemma read_page (hat : headerAt host (4096 * i) = some header)
    (hlen : ((readMem host (4096 * i) 4096).take 96).length = 96) :
    read ⟨(readMem host (4096 * i) 4096).take 96, hlen⟩ = some header := by
  rw [← hat]
  unfold headerAt
  congr 2
  exact readMem_take (by decide)

lemma verifyLoop_last (hlt : i < inputPages) (hat : headerAt host (4096 * i) = some last) :
    verifyLoop S host i (last.digest S) = some (i + 1, [(.sha256, last.bytes)]) := by
  rw [verifyLoop]
  split
  · rename_i h
    cases (convert_ok hlt).symm.trans h
  rename_i p hp
  obtain rfl := Option.some.inj (hp.symm.trans (convert_ok hlt))
  simp [read_page hat, verify]

lemma verifyLoop_input {next : Nat} {input : Bytes} (hlt : i < inputPages)
    (hat : headerAt host (4096 * i) = some header) (hne : header ≠ last)
    (hin : hashInput host (i + 1) header.inputLen.toNat = some (input, next))
    (hhash : header.hashType.hash S input = header.hash) :
    verifyLoop S host i (header.digest S) = (verifyLoop S host next header.nextHash).map fun r =>
      (r.1, (.sha256, header.bytes) :: (header.hashType, input) :: r.2) := by
  rw [verifyLoop]
  split
  · rename_i h
    cases (convert_ok hlt).symm.trans h
  rename_i p hp
  obtain rfl := Option.some.inj (hp.symm.trans (convert_ok hlt))
  simp only [read_page hat, verify, BEq.rfl, Bool.true_eq_false, if_false, if_neg hne]
  split
  · rename_i h
    cases hin.symm.trans h
  rename_i h
  cases hin.symm.trans h
  rw [if_pos hhash]

/-- The supervisor accepts what the loader wrote, and it is a layout of the
inputs. -/
lemma verifyLoop_payloads (inputs : List Input) (hfit : i + (payloads S inputs).length ≤ inputPages)
    (hmem : Holds host (4096 * i) ((payloads S inputs).map Subtype.val)) :
    (∃ log, verifyLoop S host i ((headers S inputs).2.digest S) = some (i + (payloads S inputs).length, log)) ∧
      Layout host (4096 * i) (inputs.map Input.bytes) (4096 * (i + (payloads S inputs).length)) := by
  induction inputs generalizing i with
  | nil =>
    have hpages : payloads S [] = [last.page] := rfl
    rw [hpages] at hfit hmem ⊢
    rw [length_singleton] at hfit ⊢
    have hlast : headerAt host (4096 * i) = some last := headerAt_page ((holds_cons _ _).1 hmem).1
    refine ⟨⟨_, verifyLoop_last (by omega) hlast⟩, ?_⟩
    rw [show 4096 * (i + 1) = 4096 * i + 4096 by omega]
    exact .done (headerAt_length hlast)
  | cons input inputs ih =>
    have hheader : (headers S (input :: inputs)).2 =
        new S input.bytes input.hashType (headers S inputs).2 := by rw [headers_cons]
    rw [payloads_cons] at hfit hmem ⊢
    simp only [length_cons, length_append, dataPages_length] at hfit ⊢
    rw [map_cons, map_append, holds_cons, holds_append, dataPages_flatten] at hmem
    obtain ⟨hpage, hdata, hrest⟩ := hmem
    have hcount := stepByCount_eq input.bytes.length
    have hpad : (pad (4096 * stepByCount input.bytes.length) input.bytes).length =
        4096 * stepByCount input.bytes.length := pad_length (by omega)
    have hdata := hdata.flatten
    rw [dataPages_flatten, hpad] at hdata
    rw [hpad] at hrest
    rw [hheader] at hpage ⊢
    have hat := headerAt_page hpage
    have hlen : (BitVec.ofNat 64 input.bytes.length).toNat = input.bytes.length := by
      rw [BitVec.toNat_ofNat, Nat.mod_eq_of_lt]
      unfold inputPages at hfit
      omega
    have hne : new S input.bytes input.hashType (headers S inputs).2 ≠ last := by
      intro he
      have := congrArg (fun h : Header => h.inputLen.toNat) he
      simp only [new, hlen, last] at this
      unfold inputPages at hfit
      have hall : (BitVec.allOnes 64).toNat = 2 ^ 64 - 1 := rfl
      omega
    have haddr : 4096 * (i + 1) = 4096 * i + 4096 := by omega
    have hin : hashInput host (i + 1) input.bytes.length = some (input.bytes, i + 1 + stepByCount input.bytes.length) :=
      hashInput_ok (by omega) (by rw [haddr]; exact hdata)
    have hnext : 4096 * i + 4096 + 4096 * stepByCount input.bytes.length =
        4096 * (i + 1 + stepByCount input.bytes.length) := by omega
    rw [hnext] at hrest
    obtain ⟨⟨log, hlog⟩, hlayout⟩ := ih (by omega) hrest
    have hend : i + 1 + stepByCount input.bytes.length + (payloads S inputs).length =
        i + (stepByCount input.bytes.length + (payloads S inputs).length + 1) := by omega
    rw [hend] at hlog hlayout
    have hin' : hashInput host (i + 1)
        (new S input.bytes input.hashType (headers S inputs).2).inputLen.toNat =
        some (input.bytes, i + 1 + stepByCount input.bytes.length) := by
      rw [← hin]
      congr 1
    have hloop := verifyLoop_input (by omega) hat hne hin' rfl
    have hnextHash : (new S input.bytes input.hashType (headers S inputs).2).nextHash =
        (headers S inputs).2.digest S := rfl
    rw [hnextHash, hlog, Option.map_some] at hloop
    exact ⟨⟨_, hloop⟩, .of_hashInput hat hin' hlayout⟩

end

/-! ## From the loader to the file -/

def Loaded (host : Nat → UInt8) (commands : List LoadCommand) : Prop :=
  ∀ c ∈ commands, ∀ p, c.payload = .shared p → readMem host (c.physicalAddress - inputFileStart) 4096 = p.1

variable {host : Nat → UInt8} {S : Sha} {inputs : List Input}

lemma holds_of_pages {ps : List Page} {k : Nat} (hk : ∀ i (hi : i < ps.length),
    readMem host (4096 * (k + i)) 4096 = (ps[i]).1) : Holds host (4096 * k) (ps.map Subtype.val) := by
  induction ps generalizing k with
  | nil => trivial
  | cons p ps ih =>
    rw [map_cons, holds_cons, show 4096 * k + 4096 = 4096 * (k + 1) by omega]
    refine ⟨hk 0 (by simp), ih fun i hi => ?_⟩
    have := hk (i + 1) (by simpa using hi)
    rw [show k + 1 + i = k + (i + 1) by omega]
    simpa using this

lemma Loaded.holds (h : Loaded host (loadInput S inputs).1) (hfit : (payloads S inputs).length ≤ inputPages) :
    Holds host 0 ((payloads S inputs).map Subtype.val) := by
  have hpage : ∀ i (hi : i < (payloads S inputs).length),
      readMem host (4096 * i) 4096 = ((payloads S inputs)[i]).1 := by
    intro i hi
    have hmem : (⟨inputFileStart + 4096 * i, 0, .shared (payloads S inputs)[i]⟩ : LoadCommand) ∈
        (loadInput S inputs).1 := by
      unfold loadInput
      dsimp only
      refine mem_map.2 ⟨(i, (payloads S inputs)[i]), ?_, rfl⟩
      refine mem_iff_getElem.2 ⟨i, by simp; omega, ?_⟩
      rw [getElem_zip, getElem_range]
    have := h _ hmem _ rfl
    rwa [Nat.add_sub_cancel_left] at this
  exact holds_of_pages (k := 0) fun i hi => by rw [Nat.zero_add]; exact hpage i hi

lemma Loaded.of_pages (h : ∀ i p, (payloads S inputs)[i]? = some p → readMem host (4096 * i) 4096 = p.1) :
    Loaded host (loadInput S inputs).1 := by
  intro c hc p hp
  unfold loadInput at hc
  dsimp only at hc
  obtain ⟨⟨i, q⟩, hmem, rfl⟩ := mem_map.1 hc
  obtain ⟨k, hk, he⟩ := mem_iff_getElem.1 hmem
  rw [getElem_zip, getElem_range] at he
  simp only [Prod.mk.injEq, LoadCommandPayload.shared.injEq] at he hp
  obtain ⟨rfl, hq⟩ := he
  subst hp
  rw [Nat.add_sub_cancel_left]
  exact h k q (by rw [← hq]; exact List.getElem?_eq_getElem _)

lemma inputHash_eq (S : Sha) (inputs : List Input) :
    inputHash S (inputs.map (HashedInput.new S)) = (headers S inputs).2.digest S := by
  have hfold : (inputs.map (HashedInput.new S)).reverse.foldl (fun header input =>
      ⟨input.inputLen, input.hashType, input.hash, header.digest S⟩) last = (headers S inputs).2 := by
    induction inputs with
    | nil => rfl
    | cons input inputs ih =>
      rw [map_cons, reverse_cons, foldl_append, ih, headers_cons]
      rfl
  rw [inputHash, hfold]

/-- The supervisor of TDX gets `host_data` with 16 zero bytes. -/
def configId (hostData : ByteArr 32) : ByteArr 48 := ⟨pad 48 hostData.1, pad_length (by rw [hostData.2]; decide)⟩

lemma verifyAndLoad_tdx (S : Sha) (host : Nat → UInt8) (hostData : ByteArr 32) :
    verifyAndLoad S host (.tdx (configId hostData)) = verifyAndLoad S host (.snp hostData) := by
  have hdrop : (configId hostData).1.drop 32 = List.replicate 16 0 := by
    show (pad 48 hostData.1).drop 32 = _
    rw [pad, drop_left' hostData.2, hostData.2]
  have htake : (configId hostData).1.take 32 = hostData.1 := by
    show (pad 48 hostData.1).take 32 = _
    rw [pad, take_left' hostData.2]
  simp only [verifyAndLoad]
  rw [if_pos hdrop]
  congr 1
  exact Subtype.ext htake

/-- **Input delivery.** Any inputs that fit the region: the supervisor accepts the loader's pages for its `host_data`
and stops behind the end header, the kernel copies the concatenation of the inputs to the file, and
`host_data` is the hash the verifier computes. -/
theorem input_round_trip {S : Sha} {inputs : List Input} (hfit : (payloads S inputs).length ≤ inputPages)
    {host : Nat → UInt8} (hload : Loaded host (loadInput S inputs).1) {A : Allocator} {h : Heap}
    {R : List KernelPage} (ho : Own h R) (hs : Supplies A h) :
    (∃ log, verifyAndLoad S host (.snp (loadInput S inputs).2) = some ((payloads S inputs).length, log) ∧
      verifyAndLoad S host (.tdx (configId (loadInput S inputs).2)) = some ((payloads S inputs).length, log)) ∧
    (∃ b' h', copyTo (bufferFile A) ⟨(payloads S inputs).length, host⟩ (Buffer.new, h) = some (.ok (), b', h') ∧
      b'.len = (inputs.map Input.bytes).flatten.length ∧
      ∀ i, b'.byte h' i = (inputs.map Input.bytes).flatten.getD i 0) ∧
    (loadInput S inputs).2 = inputHash S (inputs.map (HashedInput.new S)) := by
  have hlow : 0 + (payloads S inputs).length ≤ inputPages := by omega
  obtain ⟨⟨log, hver⟩, hlayout⟩ := verifyLoop_payloads inputs hlow (hload.holds hfit)
  rw [Nat.zero_add] at hver hlayout
  refine ⟨⟨log, hver, (verifyAndLoad_tdx ..).trans hver⟩, ?_, (inputHash_eq S inputs).symm⟩
  obtain ⟨⟨b', h'⟩, hcopy, hb⟩ := copyLoop_layout (bufferFile_spec A R) hlayout le_rfl
    (by unfold inputPages at hfit; omega) (Nat.zero_le _) (bufferIs_new ho hs)
  exact ⟨b', h', hcopy, hb.len, hb.byte⟩

lemma verifyLoop_le (h : verifyLoop S host i nextHash = some (n, log)) : n ≤ inputPages := by
  induction hk : inputPages - i using Nat.strongRecOn generalizing i nextHash log with
  | ind k ih =>
    obtain ⟨header, -, -, hlt, hcase⟩ := verifyLoop_eq_some h
    rcases hcase with ⟨-, rfl, -⟩ | ⟨input, next, tail, hin, -, hrec, -⟩
    · omega
    have := (hashInput_eq_some hin).2.1
    exact ih (inputPages - next) (by omega) hrec rfl

/-- **Input integrity.** In two runs of the supervisor for the same attested hash, whatever the host did to the
region, the kernel copies the same bytes to the input file, and reads only converted pages. -/
theorem input_integrity {S : Sha} {attested : Attested} {host host' : Nat → UInt8} {n n' : Nat}
    {log log' : List (HashType × Bytes)} (h : verifyAndLoad S host attested = some (n, log))
    (h' : verifyAndLoad S host' attested = some (n', log')) (hcol : Collisionless S (log ++ log')) :
    ∃ input : Bytes, ∀ (A : Allocator) (g : Heap) (R : List KernelPage), Own g R → Supplies A g →
      (∃ b₁ g₁, copyTo (bufferFile A) ⟨n, host⟩ (Buffer.new, g) = some (.ok (), b₁, g₁) ∧
        b₁.len = input.length ∧ ∀ i, b₁.byte g₁ i = input.getD i 0) ∧
      ∃ b₂ g₂, copyTo (bufferFile A) ⟨n', host'⟩ (Buffer.new, g) = some (.ok (), b₂, g₂) ∧
        b₂.len = input.length ∧ ∀ i, b₂.byte g₂ i = input.getD i 0 := by
  obtain ⟨nextHash, hv, hv'⟩ : ∃ nextHash, verifyLoop S host 0 nextHash = some (n, log) ∧
      verifyLoop S host' 0 nextHash = some (n', log') := by
    cases attested with
    | snp hostData => exact ⟨hostData, h, h'⟩
    | tdx mrConfigId =>
      simp only [verifyAndLoad] at h h'
      split at h
      · rename_i hz
        rw [if_pos hz] at h'
        exact ⟨_, h, h'⟩
      · cases h
  obtain ⟨bs, hl, hl'⟩ := verifyLoop_same hv hv' hcol
  refine ⟨bs.flatten, fun A g R ho hs => ?_⟩
  have hcopies : ∀ {mem : Nat → UInt8} {pages : Nat}, pages ≤ inputPages → Layout mem (4096 * 0) bs (4096 * pages) →
      ∃ b₁ g₁, copyTo (bufferFile A) ⟨pages, mem⟩ (Buffer.new, g) = some (.ok (), b₁, g₁) ∧
        b₁.len = bs.flatten.length ∧ ∀ i, b₁.byte g₁ i = bs.flatten.getD i 0 := by
    intro mem pages hle hlayout
    obtain ⟨⟨b₁, g₁⟩, hcopy, hb⟩ := copyLoop_layout (bufferFile_spec A R) hlayout le_rfl
      (by unfold inputPages at hle; omega) (Nat.zero_le _) (bufferIs_new ho hs)
    exact ⟨b₁, g₁, hcopy, hb.len, hb.byte⟩
  exact ⟨hcopies (verifyLoop_le hv) hl, hcopies (verifyLoop_le hv') hl'⟩

lemma readMem_page {h : b.length ≤ 4096} (hb : ∀ i, i < 4096 → host (a + i) = b.getD i 0) :
    readMem host a 4096 = (page b h).1 := by
  have hmem : readMem host a (page b h).1.length = (page b h).1 := by
    apply readMem_eq
    intro i hi
    rw [(page b h).2] at hi
    exact (hb i hi).trans (pad_getD 4096 b i).symm
  rwa [(page b h).2] at hmem

/-! ## A region with one input -/

def sampleDigest : ByteArr 32 :=
  ⟨[0xca, 0x35, 0x87, 0x58, 0xf6, 0xd2, 0x7e, 0x6c, 0xf4, 0x52, 0x72, 0x93, 0x79, 0x77, 0xa7, 0x48,
    0xfd, 0x88, 0x39, 0x1d, 0xb6, 0x79, 0xce, 0xda, 0x7d, 0xc7, 0xbf, 0x1f, 0x00, 0x5e, 0xe8, 0x79], rfl⟩

def lastDigest : ByteArr 32 :=
  ⟨[0x49, 0xcf, 0x1c, 0xb3, 0xef, 0x1a, 0x1c, 0xbd, 0xae, 0x1e, 0x10, 0x7f, 0xd4, 0xa3, 0x0d, 0x71,
    0x79, 0xcd, 0x84, 0x14, 0xed, 0x53, 0x9b, 0xa0, 0x0d, 0x3a, 0x4e, 0x08, 0x18, 0x2a, 0xbe, 0x0f], rfl⟩

/-- The header of the input `[7]`, when it is the only one. -/
def sampleHeader : Header := ⟨1#64, .sha256, ⟨pad 48 sampleDigest.1, rfl⟩, lastDigest⟩

def sampleHostData : ByteArr 32 :=
  ⟨[0xf7, 0x30, 0x30, 0x28, 0xd5, 0x94, 0xe4, 0x8f, 0x72, 0xd0, 0x77, 0xb5, 0x21, 0xda, 0x95, 0xbd,
    0x5a, 0x55, 0xbd, 0xee, 0xef, 0x88, 0x5b, 0x8d, 0xd3, 0xc9, 0xd4, 0x03, 0xec, 0x9c, 0xc3, 0xab], rfl⟩

def sampleSha : Sha where
  sha256 x :=
    if x = [7] then sampleDigest
    else if x = last.bytes then lastDigest
    else if x = sampleHeader.bytes then sampleHostData
    else zeros 32
  sha384 _ := zeros 48

/-- The region; byte 200, in the header's page behind the header, is `t`. -/
def sampleHost (t : UInt8) (a : Nat) : UInt8 :=
  if a < 96 then sampleHeader.bytes.getD a 0
  else if a = 200 then t
  else if a = 4096 then 7
  else if 8192 ≤ a then last.bytes.getD (a - 8192) 0
  else 0

lemma sampleHost_header (t : UInt8) : headerAt (sampleHost t) (4096 * 0) = some sampleHeader := by
  have hb : readMem (sampleHost t) (4096 * 0) 96 = sampleHeader.bytes := by
    rw [← sampleHeader.bytes_length]
    apply readMem_eq
    intro i hi
    rw [sampleHeader.bytes_length] at hi
    simp [sampleHost, hi]
  rw [← sampleHeader.read_bytes sampleHeader.bytes_length]
  unfold headerAt
  congr 2

lemma sampleHost_data (t : UInt8) (hi : i < 4096) : sampleHost t (4096 * 1 + i) = [7].getD i 0 := by
  cases i with
  | zero => rfl
  | succ i =>
    simp only [sampleHost]
    rw [if_neg (by omega), if_neg (by omega), if_neg (by omega), if_neg (by omega)]
    rfl

lemma sampleHost_input (t : UInt8) : hashInput (sampleHost t) 1 1 = some ([7], 2) := by
  have hc : stepByCount [(7 : UInt8)].length = 1 := by rw [stepByCount_eq]; rfl
  have h : hashInput (sampleHost t) 1 [(7 : UInt8)].length = some ([7], 1 + stepByCount [(7 : UInt8)].length) := by
    apply hashInput_ok
    · rw [hc]
      unfold inputPages
      omega
    · rw [hc]
      exact readMem_page (h := by decide) fun i hi => sampleHost_data t hi
  rwa [hc] at h

lemma sampleHost_last (t : UInt8) : headerAt (sampleHost t) (4096 * 2) = some last := by
  have hb : readMem (sampleHost t) (4096 * 2) 96 = last.bytes := by
    rw [← last.bytes_length]
    apply readMem_eq
    intro i hi
    simp only [sampleHost]
    rw [if_neg (by omega), if_neg (by omega), if_neg (by omega), if_pos (by omega),
      show 4096 * 2 + i - 8192 = i by omega]
  rw [← last.read_bytes last.bytes_length]
  unfold headerAt
  congr 2

lemma sampleHost_accepted (t : UInt8) : verifyAndLoad sampleSha (sampleHost t) (.snp sampleHostData) =
      some (3, [(.sha256, sampleHeader.bytes), (.sha256, [7]), (.sha256, last.bytes)]) := by
  have hdigest : sampleHostData = sampleHeader.digest sampleSha := by decide
  have hlast : sampleHeader.nextHash = last.digest sampleSha := by decide
  have hloop := verifyLoop_input (S := sampleSha) (by decide) (sampleHost_header t) (by decide)
    (sampleHost_input t) (by decide)
  rw [hlast, verifyLoop_last (by decide) (sampleHost_last t)] at hloop
  rw [hdigest]
  exact hloop

lemma sample_payloads : payloads sampleSha [⟨[7], .sha256⟩] = [sampleHeader.page, page [7] (by decide), last.page] := by
  have hheader : (headers sampleSha [⟨[7], .sha256⟩]).2 = sampleHeader := by decide
  rw [payloads_cons, hheader]
  rfl

lemma sampleHost_loaded : Loaded (sampleHost 0) (loadInput sampleSha [⟨[7], .sha256⟩]).1 := by
  apply Loaded.of_pages
  rw [sample_payloads]
  intro i p hp
  have hcases : (i = 0 ∧ p = sampleHeader.page) ∨ (i = 1 ∧ p = page [7] (by decide)) ∨ (i = 2 ∧ p = last.page) := by
    match i, hp with
    | 0, hp => exact .inl ⟨rfl, (Option.some.inj hp).symm⟩
    | 1, hp => exact .inr (.inl ⟨rfl, (Option.some.inj hp).symm⟩)
    | 2, hp => exact .inr (.inr ⟨rfl, (Option.some.inj hp).symm⟩)
  have hheader : ∀ j, 96 ≤ j → sampleHeader.bytes.getD j 0 = 0 := fun j hj =>
    getD_eq_default _ _ (by rw [bytes_length]; exact hj)
  rcases hcases with ⟨rfl, rfl⟩ | ⟨rfl, rfl⟩ | ⟨rfl, rfl⟩
  · apply readMem_page
    intro j hj
    simp only [sampleHost, Nat.mul_zero, Nat.zero_add]
    by_cases hlt : j < 96
    · rw [if_pos hlt]
    rw [if_neg hlt, hheader j (by omega), if_neg (show ¬ j = 4096 by omega),
      if_neg (show ¬ 8192 ≤ j by omega), ite_self]
  · apply readMem_page
    intro j hj
    exact sampleHost_data 0 hj
  · apply readMem_page
    intro j hj
    simp only [sampleHost]
    rw [if_neg (by omega), if_neg (by omega), if_neg (by omega), if_pos (by omega),
      show 4096 * 2 + j - 8192 = j by omega]

/-- The input `[7]`, from the loader to the file. -/
theorem input_round_trip_one_byte :
    ∃ b' h', copyTo (bufferFile bump) ⟨3, sampleHost 0⟩ (Buffer.new, Heap.fresh) = some (.ok (), b', h') ∧
      b'.len = 1 ∧ b'.byte h' 0 = 7 := by
  have hlen : (payloads sampleSha [⟨[7], .sha256⟩]).length = 3 := by rw [sample_payloads]; rfl
  have hfit : (payloads sampleSha [⟨[7], .sha256⟩]).length ≤ inputPages := by
    rw [hlen]
    unfold inputPages
    omega
  obtain ⟨-, ⟨b', h', hcopy, hb, hbyte⟩, -⟩ :=
    input_round_trip hfit sampleHost_loaded own_fresh bump_supplies
  rw [hlen] at hcopy
  exact ⟨b', h', hcopy, hb, hbyte 0⟩

lemma sample_collisionless : let log := [(HashType.sha256, sampleHeader.bytes), (.sha256, [7]), (.sha256, last.bytes)]
    Collisionless sampleSha (log ++ log) := by
  intro log
  refine ⟨fun x y hx hy he => ?_, fun x y hx => by simp [log] at hx⟩
  simp only [log, cons_append, nil_append, mem_cons, Prod.mk.injEq, true_and, not_mem_nil, or_false] at hx hy
  have hx : x = sampleHeader.bytes ∨ x = [7] ∨ x = last.bytes := by tauto
  have hy : y = sampleHeader.bytes ∨ y = [7] ∨ y = last.bytes := by tauto
  rcases hx with rfl | rfl | rfl <;> rcases hy with rfl | rfl | rfl <;>
    first | rfl | exact absurd he (by decide)

/-- Two regions that differ in a byte nothing hashes. -/
theorem input_integrity_unhashed_byte : sampleHost 0 200 ≠ sampleHost 1 200 ∧
    ∃ input : Bytes, ∀ (A : Allocator) (g : Heap) (R : List KernelPage), Own g R → Supplies A g →
      (∃ b₁ g₁, copyTo (bufferFile A) ⟨3, sampleHost 0⟩ (Buffer.new, g) = some (.ok (), b₁, g₁) ∧
        b₁.len = input.length ∧ ∀ i, b₁.byte g₁ i = input.getD i 0) ∧
      ∃ b₂ g₂, copyTo (bufferFile A) ⟨3, sampleHost 1⟩ (Buffer.new, g) = some (.ok (), b₂, g₂) ∧
        b₂.len = input.length ∧ ∀ i, b₂.byte g₂ i = input.getD i 0 :=
  ⟨by decide, input_integrity (sampleHost_accepted 0) (sampleHost_accepted 1) sample_collisionless⟩

end Mushroom.L3
