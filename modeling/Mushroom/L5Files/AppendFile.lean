import Mushroom.L2Memory.FileString
import Mushroom.L5Files.Lookup

/-!
# Appending

`kernel/fs/fd/file.rs:101-120, 370-503`. How a description writes is settled when
the file is opened: `open_file` chooses one of four kinds by the flags. The file
is the byte string of `StringStep`; it has a lock that every call takes, so writes
through several descriptions, truncations and all else come one after the other.
-/
namespace Mushroom.L5.Append

open List L1 L2

/-- The kinds of file descriptions. -/
inductive Kind where
  | readonly | writeonly | append | readWrite
  deriving DecidableEq

/-- file.rs:108-118 -/
def kindOf (flags : OpenFlags) : Kind :=
  if flags.wronly then if flags.append then .append else .writeonly
  else if flags.rdwr then .readWrite else .readonly

structure Description where
  flags : OpenFlags
  kind : Kind
  cursor : Nat

/-- What is written: a slice, or the memory of a process. -/
inductive Source where
  | slice (buf : Bytes)
  | user (u : UserCopy) (len : Nat)

def Source.bytes : Source → Bytes
  | slice buf => buf
  | user u len => u.bytes len

def Source.op (offset : Nat) : Source → FileOp
  | slice buf => .write offset buf
  | user u len => .writeFromUser offset u len

/-- Where a write goes: to the end of the file, or to the cursor.
file.rs:379-399,486-503, kernel/fs/node/tmpfs.rs:884-926 -/
def Description.offset (d : Description) (file : Bytes) : Nat := if d.kind = .append then file.length else d.cursor

variable {ι : Type} [DecidableEq ι]

/-- A file and the descriptions that are open. -/
structure State (ι : Type) where
  file : Bytes
  open? : ι → Option Description

inductive Act (ι : Type) where
  | openFile (i : ι) (flags : OpenFlags)
  | write (i : ι) (source : Source) (r : Except Errno Nat)
  | seek (i : ι) (cursor : Nat)
  | other (l : FileOp × FileResult)

/-- `other` is a truncation, a `pwrite` or a read, by anyone; `seek` is any move of a cursor. A directory is not opened
here, and a read-only description does not write. -/
inductive Step : State ι → Act ι → State ι → Prop where
  | openFile {s : State ι} {i : ι} {flags : OpenFlags} : flags.directory = false →
      Step s (.openFile i flags) ⟨if flags.trunc then truncated s.file 0 else s.file,
        Function.update s.open? i (some ⟨flags, kindOf flags, 0⟩)⟩
  | write {s : State ι} {i : ι} {d : Description} {source : Source} {r : Except Errno Nat} {file : Bytes} :
      s.open? i = some d → d.kind ≠ .readonly → StringStep s.file (source.op (d.offset s.file), .count r) file →
      Step s (.write i source r) ⟨file, Function.update s.open? i (some { d with cursor := match r with
        | .ok n => d.cursor + n
        | .error _ => d.cursor })⟩
  | seek {s : State ι} {i : ι} {d : Description} {cursor : Nat} : s.open? i = some d →
      Step s (.seek i cursor) { s with open? := Function.update s.open? i (some { d with cursor }) }
  | other {s : State ι} {l : FileOp × FileResult} {file : Bytes} : StringStep s.file l file →
      Step s (.other l) { s with file }

def system (ι : Type) [DecidableEq ι] : LTS (State ι) (Act ι) where
  init s := s = ⟨[], fun _ => none⟩
  step := Step

/-- The bytes are behind those that were there; a failed write leaves the file as it is. -/
def AtEnd (file : Bytes) (source : Source) (r : Except Errno Nat) (file' : Bytes) : Prop :=
  match r with
  | .ok n => n = source.bytes.length ∧ file' = file ++ source.bytes
  | .error _ => file' = file

lemma written_end (f buf : Bytes) : written f f.length buf = f ++ buf := by
  unfold written
  split
  · simp_all
  · simp [truncated, pad]

lemma cutShort_end (f buf : Bytes) : cutShort f f.length buf = f := by rw [cutShort, written_end, take_left]

lemma atEnd_of_step {file file' : Bytes} {source : Source} {r : Except Errno Nat}
    (h : StringStep file (source.op file.length, .count r) file') : AtEnd file source r file' := by
  cases source <;> cases r <;> simp only [Source.op, StringStep] at h
  · obtain ⟨m, rfl⟩ := h
    exact cutShort_end ..
  · rwa [written_end] at h
  · obtain ⟨m, -, rfl⟩ := h
    exact cutShort_end ..
  · rw [written_end] at h
    simpa [AtEnd, Source.bytes, UserCopy.bytes_length] using h

/-- The kind of a description is that of its flags. -/
lemma kind_eq : (system ι).Inductive fun s => ∀ i d, s.open? i = some d → d.kind = kindOf d.flags where
  init s hs i d h := by
    cases hs
    cases h
  step s l s' hi hst := by
    intro i d h
    cases hst with
    | other => exact hi i d h
    | openFile | write hd | seek hd =>
      simp only [Function.update_apply] at h
      split at h
      · cases h
        first
        | rfl
        | have hkind := hi _ _ hd
          exact hkind
      · exact hi i d h

/-- A description for reading and writing has its cursor at the front when another write has made the file longer. -/
lemma overwrites (i : ι) {flags : OpenFlags} (hd : flags.directory = false) (hw : flags.wronly = false)
    (hr : flags.rdwr) : ∃ s s', (system ι).Reachable s ∧ (∃ d, s.open? i = some d ∧ d.flags = flags) ∧
      (system ι).step s (.write i (.slice [2]) (.ok 1)) s' ∧ s.file = [1] ∧ s'.file = [2] := by
  have hkind : kindOf flags = .readWrite := by simp [kindOf, hw, hr]
  obtain ⟨fds, hfds⟩ : ∃ fds : ι → Option Description,
      fds = Function.update (fun _ => none) i (some ⟨flags, .readWrite, 0⟩) :=
    ⟨_, rfl⟩
  have hself : fds i = some ⟨flags, .readWrite, 0⟩ := by rw [hfds, Function.update_self]
  have hopen : (system ι).step ⟨[], fun _ => none⟩ (.openFile i flags) ⟨[], fds⟩ := by
    have hstep := @Step.openFile ι _ ⟨[], fun _ => none⟩ i flags hd
    rw [hkind, ← hfds] at hstep
    convert hstep using 2
    cases flags.trunc <;> rfl
  have hother : (system ι).step ⟨[], fds⟩ (.other (.write 0 [1], .count (.ok 1))) ⟨[1], fds⟩ := .other ⟨rfl, rfl⟩
  exact ⟨⟨[1], fds⟩, _, ⟨_, _, rfl, .cons hopen (.cons hother (.nil _))⟩, ⟨_, hself, rfl⟩,
    .write hself nofun ⟨rfl, rfl⟩, rfl, rfl⟩

/-- **`O_APPEND`.** Every write through a description with `O_APPEND` goes to the end of the file exactly if the file
is opened for writing only. -/
theorem append_at_end_iff (i : ι) {flags : OpenFlags} (ha : flags.append = true) (hd : flags.directory = false)
    (hw : flags.wronly = true ∨ flags.rdwr = true) :
    (∀ s source r s' d, (system ι).Reachable s → s.open? i = some d → d.flags = flags →
      (system ι).step s (.write i source r) s' → AtEnd s.file source r s'.file) ↔ flags.wronly = true := by
  refine ⟨fun h => ?_, fun hwr s source r s' d hs hopen hflags hst => ?_⟩
  · by_contra hno
    obtain ⟨s, s', hs, ⟨d, hopen, hflags⟩, hst, hf, hf'⟩ :=
      overwrites i hd (Bool.eq_false_iff.2 hno) (hw.resolve_left hno)
    have hend := (h s _ _ s' d hs hopen hflags hst).2
    rw [hf, hf'] at hend
    cases hend
  have hkind : d.kind = .append := by
    rw [kind_eq.reachable s hs i d hopen, hflags]
    simp [kindOf, hwr, ha]
  cases hst with
  | write hd' _ hstep =>
    cases hopen.symm.trans hd'
    rw [Description.offset, if_pos hkind] at hstep
    exact atEnd_of_step hstep

/-- With `O_RDWR` and `O_APPEND` the byte that is there is overwritten. -/
theorem append_overwrites : ∃ s s' : State Unit, (system Unit).Reachable s ∧
    (∃ d, s.open? () = some d ∧ d.flags = ⟨false, true, false, false, false, true, false, false, false⟩) ∧
    (system Unit).step s (.write () (.slice [2]) (.ok 1)) s' ∧ s.file = [1] ∧ s'.file = [2] := overwrites () rfl rfl rfl

/-- With `O_WRONLY` and `O_APPEND` nothing is. -/
theorem append_at_end_wronly : OpenFlags.append ⟨true, false, false, false, false, true, false, false, false⟩ = true ∧
    ∀ s source r s' d, (system Unit).Reachable s → s.open? () = some d →
      d.flags = ⟨true, false, false, false, false, true, false, false, false⟩ →
      (system Unit).step s (.write () source r) s' → AtEnd s.file source r s'.file :=
  ⟨rfl, (append_at_end_iff () rfl rfl (.inl rfl)).2 rfl⟩

end Mushroom.L5.Append
