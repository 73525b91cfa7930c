import Mushroom.Core.Bytes

/-!
# Paths

`kernel/fs/path.rs`. A path is a byte string that is cut at its slashes; a leading
slash is the segment `Root`, every other empty piece an `Empty` one. File names
are the pieces left: never empty, `.` or `..`, and without a slash.

`Directory::path` relies on `segments_absolute` and `joinSegment_absolute`:
joining names gives the path whose segments are these names.
-/
namespace Mushroom.L1
open List

/-- kernel/error.rs:71-103 -/
inductive ErrorKind where
  | acces | again | badF | busy | child | exist | fault | intr | inval | isDir | loop | mfile | nameTooLong
  | noDev | noEnt | noExec | noMem | noSys | noTty | notDir | notEmpty | opNotSupp | perm | pipe | range
  | restartNoIntr | sPipe | srch | timedOut | xDev | xIo
  deriving DecidableEq

def slash : UInt8 := 0x2f

def dot : UInt8 := 0x2e

/-- path.rs:103-112 -/
structure FileName where
  bytes : Bytes
  ne_nil : bytes ≠ []
  ne_dot : bytes ≠ [dot]
  ne_dotDot : bytes ≠ [dot, dot]
  plain : slash ∉ bytes
  deriving DecidableEq

/-- path.rs:91-101 -/
inductive PathSegment where
  | root | empty | dot | dotDot | fileName (name : FileName)
  deriving DecidableEq

/-- path.rs:8 -/
def pathMax : Nat := 0x1000

/-- path.rs:10-13 -/
structure Path where
  bytes : Bytes
  ne_nil : bytes ≠ []
  length_lt : bytes.length < pathMax
  deriving DecidableEq

/-- path.rs:16-20 -/
def Path.new (path : Bytes) : Except ErrorKind Path :=
  if h : path = [] then .error .noEnt
  else if h' : path.length < pathMax then .ok ⟨path, h, h'⟩ else .error .nameTooLong

abbrev Plain := { b : Bytes // slash ∉ b }

def Plain.nil : Plain := ⟨[], not_mem_nil⟩

def Plain.push (b : Plain) (c : UInt8) (h : c ≠ slash) : Plain :=
  ⟨b.1 ++ [c], fun hm => (mem_append.1 hm).elim b.2 fun hc => h (mem_singleton.1 hc).symm⟩

/-- path.rs:51-56 -/
def PathSegment.ofBytes (b : Plain) : PathSegment :=
  if h : b.1 = [] then .empty
  else if h' : b.1 = [L1.dot] then .dot
  else if h'' : b.1 = [L1.dot, L1.dot] then .dotDot
  else .fileName ⟨b.1, h, h', h'', b.2⟩

/-- What is left of a path, with `acc` read since the last slash; `first` until the first segment is out. -/
def segmentsFrom (first : Bool) (acc : Plain) : Bytes → List PathSegment
  | [] => [.ofBytes acc]
  | c :: cs =>
    if h : c = slash then
      (if first ∧ acc.1 = [] then .root else .ofBytes acc) :: segmentsFrom false .nil cs
    else segmentsFrom first (acc.push c h) cs

/-- path.rs:22-58 -/
def Path.segments (p : Path) : List PathSegment := segmentsFrom true .nil p.bytes

/-- path.rs:68-70 -/
def Path.hasTrailingSlash (p : Path) : Bool := p.bytes.getLast? = some slash

/-- path.rs:73-77 -/
def Path.joined (p : Path) (name : FileName) : Bytes :=
  (if p.hasTrailingSlash then p.bytes else p.bytes ++ [slash]) ++ name.bytes

/-- path.rs:72-82 -/
def Path.joinSegment (p : Path) (name : FileName) : Except ErrorKind Path :=
  if h : (p.joined name).length < pathMax then
    .ok ⟨p.joined name, fun hn => name.ne_nil (append_eq_nil_iff.1 hn).2, h⟩
  else .error .nameTooLong

def nameA : FileName := ⟨[0x61], by decide, by decide, by decide, by decide⟩

def nameB : FileName := ⟨[0x62], by decide, by decide, by decide, by decide⟩

/-! ## Segments -/

/-- Bytes without a slash join what was read before. -/
lemma segmentsFrom_plain (first : Bool) (acc : Plain) {b : Bytes} (hb : slash ∉ b) (rest : Bytes) :
    segmentsFrom first acc (b ++ rest) = segmentsFrom first ⟨acc.1 ++ b,
      fun hm => (mem_append.1 hm).elim acc.2 hb⟩ rest := by
  induction b generalizing acc with
  | nil => simp
  | cons c cs ih =>
    have hc : c ≠ slash := fun he => hb (he ▸ mem_cons_self ..)
    rw [cons_append, segmentsFrom, dif_neg hc, ih _ fun h => hb (mem_cons_of_mem _ h)]
    simp [Plain.push]

lemma ofBytes_fileName (n : FileName) : PathSegment.ofBytes ⟨n.bytes, n.plain⟩ = .fileName n := by
  simp only [PathSegment.ofBytes, dif_neg n.ne_nil, dif_neg n.ne_dot, dif_neg n.ne_dotDot]

/-! ## Splitting at the slashes -/

def PathSegment.bytes : PathSegment → Bytes
  | .root | .empty => []
  | .dot => [L1.dot]
  | .dotDot => [L1.dot, L1.dot]
  | .fileName n => n.bytes

lemma not_mem_takeWhile (b : Bytes) : slash ∉ b.takeWhile (· ≠ slash) := fun h => by
  simpa using mem_takeWhile_imp h

/-- The closure of `segments` on the bytes left (path.rs:29-57). -/
def nextSegment (first : Bool) (bytes : Bytes) : PathSegment × Option Bytes :=
  if bytes.head? = some slash then (if first then .root else .empty, some bytes.tail)
  else (.ofBytes ⟨_, not_mem_takeWhile bytes⟩, (bytes.dropWhile (· ≠ slash)).tail?)

/-- The closure yields the head of the segments and leaves the bytes of the others. -/
lemma segmentsFrom_next (first : Bool) (b : Bytes) : segmentsFrom first .nil b =
    (nextSegment first b).1 :: (nextSegment first b).2.elim [] (segmentsFrom false .nil) := by
  rw [nextSegment]
  split
  · obtain ⟨cs, rfl⟩ : ∃ cs, b = slash :: cs := by cases b <;> simp_all
    cases first <;> simp [segmentsFrom, Plain.nil, PathSegment.ofBytes]
  rename_i hb
  have hd := takeWhile_append_dropWhile (p := (· ≠ slash)) (l := b)
  conv_lhs => rw [← hd, segmentsFrom_plain _ _ (not_mem_takeWhile b)]
  cases hr : b.dropWhile (· ≠ slash) with
  | nil => rfl
  | cons c cs =>
    have hc := head?_dropWhile_not (· ≠ slash) b
    rw [hr] at hc
    simp only [head?_cons, decide_not, Bool.not_eq_false', decide_eq_true_eq] at hc
    have hne : b.takeWhile (· ≠ slash) ≠ [] := fun h0 => hb (by rw [← hd, h0, hr, hc]; rfl)
    simp only [segmentsFrom, hc, Plain.nil, nil_append, hne, and_false, ite_false, dite_true, tail?_cons]
    rfl

@[simp] lemma bytes_ofBytes (b : Plain) : (PathSegment.ofBytes b).bytes = b.1 := by
  unfold PathSegment.ofBytes
  split_ifs <;> simp_all [PathSegment.bytes]

lemma map_bytes_segmentsFrom (first : Bool) (acc : Plain) (b : Bytes) :
    (segmentsFrom first acc b).map (·.bytes) = splitOnPPrepend (· == slash) b acc.1.reverse := by
  induction b generalizing first acc with
  | nil => simp [segmentsFrom, splitOnPPrepend]
  | cons c cs ih =>
    rw [segmentsFrom, splitOnPPrepend]
    by_cases hc : c = slash
    · have hi := ih false .nil
      split_ifs <;> simp_all [Plain.nil, PathSegment.bytes.eq_1]
    · simp [hc, ih, Plain.push]

lemma root_ne_ofBytes (b : Plain) : .root ≠ PathSegment.ofBytes b := by
  unfold PathSegment.ofBytes
  split_ifs <;> simp

lemma ofBytes_eq_empty {b : Plain} : PathSegment.ofBytes b = .empty ↔ b.1 = [] := by
  unfold PathSegment.ofBytes
  split_ifs <;> simp_all

/-- `Root` comes first only, and there in the place of `Empty`. -/
lemma segmentsFrom_root (first : Bool) (acc : Plain) (b : Bytes) :
    .root ∉ (segmentsFrom first acc b).tail ∧ (first = false → .root ∉ segmentsFrom first acc b) ∧
      (first → acc.1 ++ b ≠ [] → (segmentsFrom first acc b).head? ≠ some .empty) := by
  induction b generalizing first acc with
  | nil => simp [segmentsFrom, root_ne_ofBytes, ofBytes_eq_empty]
  | cons c cs ih =>
    rw [segmentsFrom]
    split
    · have hr := (ih false .nil).2.1 rfl
      split_ifs <;> simp_all [root_ne_ofBytes, ofBytes_eq_empty]
    · obtain ⟨ht, hr, he⟩ := ih first (acc.push c ‹_›)
      exact ⟨ht, hr, fun hf _ => he hf (by simp [Plain.push])⟩

theorem segments_eq_splitOn (p : Path) :
    (∀ first b, segmentsFrom first .nil b = (nextSegment first b).1 ::
      (nextSegment first b).2.elim [] (segmentsFrom false .nil)) ∧
      p.segments.map (·.bytes) = p.bytes.splitOn slash ∧ p.segments.head? ≠ some .empty ∧
      .root ∉ p.segments.tail ∧ [slash].intercalate (p.segments.map (·.bytes)) = p.bytes := by
  have hs : p.segments.map (·.bytes) = p.bytes.splitOn slash := map_bytes_segmentsFrom true .nil p.bytes
  obtain ⟨ht, -, he⟩ := segmentsFrom_root true .nil p.bytes
  exact ⟨segmentsFrom_next, hs, he rfl p.ne_nil, ht, by rw [hs, intercalate_splitOn]⟩

/-! ## Absolute paths of file names -/

/-- The bytes of `/n₁/n₂/…`. -/
def absolute (names : List FileName) : Bytes := names.flatMap fun n => slash :: n.bytes

@[simp] lemma absolute_nil : absolute [] = [] := rfl

lemma absolute_cons (n : FileName) (ns : List FileName) : absolute (n :: ns) = slash :: (n.bytes ++ absolute ns) := rfl

lemma absolute_concat (ns : List FileName) (n : FileName) : absolute (ns ++ [n]) = absolute ns ++ slash :: n.bytes := by
  simp [absolute]

/-- A name is read up to the slash of the next one or to the end. -/
lemma segmentsFrom_absolute (n : FileName) (ns : List FileName) :
    segmentsFrom false .nil (n.bytes ++ absolute ns) = (n :: ns).map .fileName := by
  induction ns generalizing n with
  | nil =>
    rw [segmentsFrom_plain _ _ n.plain]
    simp [Plain.nil, segmentsFrom, ofBytes_fileName]
  | cons m ms ih =>
    rw [segmentsFrom_plain _ _ n.plain, absolute_cons, segmentsFrom, dif_pos rfl, ih m]
    simp [Plain.nil, ofBytes_fileName]

/-- The path of the root is `Root` and `Empty`, every longer one `Root` and its names. -/
lemma segments_absolute (n : FileName) (ns : List FileName) (p : Path)
    (h : p.bytes = absolute (n :: ns)) : p.segments = .root :: (n :: ns).map .fileName := by
  rw [Path.segments, h, absolute_cons, segmentsFrom, dif_pos rfl, segmentsFrom_absolute]
  rfl

lemma getLast?_absolute (ns : List FileName) : (absolute ns).getLast? ≠ some slash := by
  rcases eq_nil_or_concat' ns with rfl | ⟨ms, n, rfl⟩
  · simp
  rw [absolute_concat, List.getLast?_append_cons, List.getLast?_cons_of_ne_nil n.ne_nil]
  exact fun hl => n.plain (mem_of_getLast? hl)

/-- What `join_segment` computes from the root's path and from any other. -/
lemma joinSegment_absolute {p q : Path} {n : FileName} (h : p.joinSegment n = .ok q)
    {ns : List FileName} (hp : p.bytes = [slash] ∧ ns = [] ∨ p.bytes = absolute ns) :
    q.bytes = absolute (ns ++ [n]) := by
  simp only [Path.joinSegment] at h
  split at h
  · cases h
    rw [absolute_concat]
    rcases hp with ⟨hp, rfl⟩ | hp
    · simp [Path.joined, Path.hasTrailingSlash, hp]
    · simp [Path.joined, Path.hasTrailingSlash, hp, getLast?_absolute ns]
  · cases h

end Mushroom.L1
