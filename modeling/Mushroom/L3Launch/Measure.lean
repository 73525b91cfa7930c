import Mushroom.L1Encoding.Input

/-!
# The launch measurement

The host issues its launch calls for groups of contiguous pages, and the verifier
computes from the same load commands what the firmware must have measured. On
SEV-SNP every page is a `PAGE_INFO` record in a chain of digests; on TDX the
records of one call, `MEM.PAGE.ADD` for its pages and then `MR.EXTEND` for each
256 bytes, follow each other, so the grouping is part of the measurement.

The firmware measures the pages of a call in address order. The input of the
workload is loaded into shared pages, which nothing measures.
-/
namespace Mushroom.L3
open List L1

/-! ## Load commands -/

/-- snp-types/lib.rs:63-71 -/
inductive PageType where
  | normal | vmsa | zero | unmeasured | secrets | cpuid
  deriving DecidableEq

def PageType.bits : PageType → Nat
  | normal => 1
  | vmsa => 2
  | zero => 3
  | unmeasured => 4
  | secrets => 5
  | cpuid => 6

/-- loader/lib.rs:35-43 -/
def pageType : LoadCommandPayload → Option PageType
  | .normal _ => some .normal
  | .zero => some .zero
  | .secrets => some .secrets
  | .cpuid _ => some .cpuid
  | .shared _ => none

/-- loader/lib.rs:45-53 -/
def payloadBytes : LoadCommandPayload → Page
  | .normal bytes => bytes
  | .zero => zeros 4096
  | .secrets => zeros 4096
  | .cpuid page => page
  | .shared bytes => bytes

/-- The payload is measured, and in private memory. -/
def isPrivate (c : LoadCommand) : Bool := (pageType c.payload).isSome

/-- The commands `next_if` takes while they go on where the group ends, and the rest.
mushroom/snp.rs:152-165 -/
def coalesce (gpa : Nat) (same : LoadCommand → Bool) : Nat → List LoadCommand → List LoadCommand × List LoadCommand
  | _, [] => ([], [])
  | i, c :: cs =>
    if gpa < c.physicalAddress ∧ (c.physicalAddress - gpa) / 4096 = i ∧ same c = true then
      (c :: (coalesce gpa same (i + 1) cs).1, (coalesce gpa same (i + 1) cs).2)
    else ([], c :: cs)

lemma coalesce_append (gpa : Nat) (same : LoadCommand → Bool) (i : Nat) (cs : List LoadCommand) :
    (coalesce gpa same i cs).1 ++ (coalesce gpa same i cs).2 = cs := by
  induction cs generalizing i with
  | nil => rfl
  | cons c cs ih =>
    rw [coalesce]
    split
    · rw [cons_append, ih]
    · rfl

lemma coalesce_length (gpa : Nat) (same : LoadCommand → Bool) (i : Nat) (cs : List LoadCommand) :
    (coalesce gpa same i cs).2.length ≤ cs.length := by
  have h := congrArg List.length (coalesce_append gpa same i cs)
  rw [length_append] at h
  omega

variable {c : LoadCommand} {same : LoadCommand → Bool} {cs : List LoadCommand}

/-- The commands of a group go on page by page. -/
lemma coalesce_mem {gpa : Nat} {i : Nat} {k : Nat} (h : (c, k) ∈ (coalesce gpa same i cs).1.zipIdx i) :
    gpa < c.physicalAddress ∧ (c.physicalAddress - gpa) / 4096 = k ∧ same c ∧ c ∈ cs := by
  induction cs generalizing i with
  | nil => cases h
  | cons d cs ih =>
    rw [coalesce] at h
    split at h
    · rename_i hd
      rw [zipIdx_cons, mem_cons] at h
      rcases h with h | h
      · cases h
        exact ⟨hd.1, hd.2.1, hd.2.2, mem_cons_self⟩
      · obtain ⟨hlt, hk, hs, hm⟩ := ih h
        exact ⟨hlt, hk, hs, mem_cons_of_mem d hm⟩
    · cases h

lemma coalesce_same {gpa : Nat} {i : Nat} (h : c ∈ (coalesce gpa same i cs).1) : same c := by
  rw [← zipIdx_map_fst i (coalesce gpa same i cs).1] at h
  obtain ⟨x, hx, rfl⟩ := mem_map.1 h
  exact (coalesce_mem hx).2.2.1

structure Group where
  first : LoadCommand
  following : List LoadCommand

def Group.commands (g : Group) : List LoadCommand := g.first :: g.following

def Group.pages (g : Group) : List Page := g.commands.map fun c => payloadBytes c.payload

/-- The loop of the host; `same` says which commands belong together.
mushroom/snp.rs:142-202 and mushroom/tdx.rs:194-245 -/
def groups (same : LoadCommand → LoadCommand → Bool) : List LoadCommand → List Group
  | [] => []
  | first :: rest =>
    ⟨first, (coalesce first.physicalAddress (same first) 1 rest).1⟩ ::
      groups same (coalesce first.physicalAddress (same first) 1 rest).2
termination_by cs => cs.length
decreasing_by
  have := coalesce_length first.physicalAddress (same first) 1 rest
  simp only [length_cons]
  omega

/-! ## SEV-SNP -/

/-- mushroom/snp.rs:154-160 -/
def sameSnp (first c : LoadCommand) : Bool :=
  pageType c.payload == pageType first.payload && c.vmpl1Perms == first.vmpl1Perms

/-- The arguments of `sev_snp_launch_update`, with the pages of the slot. -/
structure LaunchUpdate where
  gpa : Nat
  pages : List Page
  pageType : PageType
  vmpl1Perms : BitVec 8

/-- mushroom/snp.rs:133-202 -/
def prepareVmSnp (commands : List LoadCommand) : List LaunchUpdate :=
  (groups sameSnp commands).filterMap fun g =>
    (pageType g.first.payload).map fun t => ⟨g.first.physicalAddress, g.pages, t, g.first.vmpl1Perms⟩

structure MeasuredPage where
  contents : Page
  pageType : PageType
  vmpl1Perms : BitVec 8
  gpa : Nat

/-- The pages of one call in address order. -/
def LaunchUpdate.measured (u : LaunchUpdate) : List MeasuredPage :=
  u.pages.zipIdx.map fun x => ⟨x.1, u.pageType, u.vmpl1Perms, u.gpa + 4096 * x.2⟩

/-- mushroom-verify/snp.rs:144-168 -/
structure PageInfo where
  (digestCur contents : ByteArr 48)
  (length pageType : Nat)
  imiPage : Bool
  zero : Nat
  (vmpl1Perms vmpl2Perms vmpl3Perms : BitVec 8)
  gpa : Nat

def PageInfo.bytes (p : PageInfo) : Bytes :=
  p.digestCur.1 ++ p.contents.1 ++ leBytes 2 p.length ++ leBytes 1 p.pageType ++ leBytes 1 p.imiPage.toNat ++
    leBytes 1 p.zero ++ leBytes 1 p.vmpl1Perms.toNat ++ leBytes 1 p.vmpl2Perms.toNat ++
    leBytes 1 p.vmpl3Perms.toNat ++ leBytes 8 p.gpa

/-- What the firmware hashes for a page: the contents count for normal pages only. -/
def MeasuredPage.info (S : Sha) (digest : ByteArr 48) (p : MeasuredPage) : PageInfo :=
  ⟨digest, if p.pageType = .normal then S.sha384 p.contents.1 else zeros 48, 112, p.pageType.bits, false, 0,
    p.vmpl1Perms, 0, 0, p.gpa⟩

/-- The launch digest after the pages. -/
def extend (S : Sha) (digest : ByteArr 48) (pages : List MeasuredPage) : ByteArr 48 :=
  pages.foldl (fun d p => S.sha384 (p.info S d).bytes) digest

/-- mushroom-verify/snp.rs:171-178 -/
def PageInfo.contentsOf (S : Sha) : LoadCommandPayload → Option (ByteArr 48)
  | .normal page => some (S.sha384 page.1)
  | .zero | .secrets | .cpuid _ => some (zeros 48)
  | .shared _ => none

/-- mushroom-verify/snp.rs:171-193; the page type is unwrapped -/
def PageInfo.new (S : Sha) (digestCur : ByteArr 48) (command : LoadCommand) : Option PageInfo :=
  match PageInfo.contentsOf S command.payload, L3.pageType command.payload with
  | some contents, some t =>
    some ⟨digestCur, contents, 112, t.bits, false, 0, command.vmpl1Perms, 0, 0, command.physicalAddress⟩
  | _, _ => none

def vmsaContent : ByteArr 48 :=
  ⟨[0x8d, 0xed, 0x26, 0x62, 0x7a, 0xe8, 0x93, 0x79, 0x3a, 0x1e, 0x8c, 0x03, 0x50, 0x17, 0xaa, 0x0a, 0x9c, 0x45, 0x73,
    0xeb, 0xbc, 0x25, 0xe3, 0xe6, 0x29, 0xb4, 0x90, 0xc6, 0xad, 0xd9, 0x8c, 0xdb, 0x20, 0xf4, 0xba, 0xd7, 0xc4, 0x2e,
    0x55, 0x27, 0x71, 0x4e, 0x2b, 0x63, 0xfb, 0xb1, 0xea, 0xd1], rfl⟩

/-- mushroom-verify/snp.rs:195-215 -/
def PageInfo.linuxVmsa (digestCur : ByteArr 48) : PageInfo :=
  ⟨digestCur, vmsaContent, 112, PageType.vmsa.bits, false, 0, 0, 0, 0, 0xfffffffff000⟩

/-- The loop of the verifier. mushroom-verify/snp.rs:38-45 -/
def commandsDigest (S : Sha) (commands : List LoadCommand) : ByteArr 48 :=
  commands.foldl (fun d c =>
    match PageInfo.new S d c with
    | none => d
    | some info => S.sha384 info.bytes) (zeros 48)

/-- mushroom-verify/snp.rs:26-54 -/
def launchDigest (S : Sha) (commands : List LoadCommand) : ByteArr 48 :=
  S.sha384 (PageInfo.linuxVmsa (commandsDigest S commands)).bytes

def MeasuredPage.ofCommand (c : LoadCommand) : Option MeasuredPage :=
  (L3.pageType c.payload).map fun t => ⟨payloadBytes c.payload, t, c.vmpl1Perms, c.physicalAddress⟩

lemma ofCommand_shared (h : isPrivate c = false) : MeasuredPage.ofCommand c = none := by
  cases hp : pageType c.payload with
  | none =>
    rw [MeasuredPage.ofCommand, hp]
    rfl
  | some t =>
    rw [isPrivate, hp] at h
    cases h

lemma PageInfo.new_eq (S : Sha) (d : ByteArr 48) (c : LoadCommand) :
    PageInfo.new S d c = (MeasuredPage.ofCommand c).map (MeasuredPage.info S d) := by
  rcases c with ⟨addr, perms, payload⟩
  cases payload <;> rfl

/-- The verifier's chain is the firmware's over the pages of the commands. -/
lemma commandsDigest_eq (S : Sha) (commands : List LoadCommand) :
    commandsDigest S commands = extend S (zeros 48) (commands.filterMap MeasuredPage.ofCommand) := by
  rw [commandsDigest, extend]
  generalize zeros 48 = d
  induction commands generalizing d with
  | nil => rfl
  | cons c commands ih =>
    rw [foldl_cons, PageInfo.new_eq]
    cases h : MeasuredPage.ofCommand c with
    | none =>
      rw [filterMap_cons_none h]
      exact ih d
    | some p =>
      rw [filterMap_cons_some h, foldl_cons]
      exact ih _

def Aligned (commands : List LoadCommand) : Prop := ∀ c ∈ commands, 4096 ∣ c.physicalAddress

variable {commands rest shared : List LoadCommand} {first : LoadCommand}

lemma Aligned.tail (h : Aligned (c :: commands)) : Aligned commands := fun d hd => h d (mem_cons_of_mem c hd)

lemma coalesce_address {k : Nat}
    (ha : Aligned (first :: rest)) (h : (c, k) ∈ (coalesce first.physicalAddress same 1 rest).1.zipIdx 1) :
    c.physicalAddress = first.physicalAddress + 4096 * k := by
  obtain ⟨hlt, hk, -, hm⟩ := coalesce_mem h
  obtain ⟨a, ha1⟩ := ha first mem_cons_self
  obtain ⟨b, hb⟩ := ha.tail c hm
  omega

/-- A call measures the pages of the commands that went into it. -/
lemma group_measured (ha : Aligned (first :: rest)) {t : PageType}
    (ht : pageType first.payload = some t) : LaunchUpdate.measured ⟨first.physicalAddress,
        Group.pages ⟨first, (coalesce first.physicalAddress (sameSnp first) 1 rest).1⟩, t, first.vmpl1Perms⟩ =
      (first :: (coalesce first.physicalAddress (sameSnp first) 1 rest).1).filterMap MeasuredPage.ofCommand := by
  have hfirst : MeasuredPage.ofCommand first =
      some ⟨payloadBytes first.payload, t, first.vmpl1Perms, first.physicalAddress⟩ := by
    rw [MeasuredPage.ofCommand, ht]
    rfl
  have hnext : ∀ (l : List LoadCommand) (i : Nat),
      (∀ c k, (c, k) ∈ l.zipIdx i → c.physicalAddress = first.physicalAddress + 4096 * k ∧ sameSnp first c) →
      ((l.map fun c => payloadBytes c.payload).zipIdx i).map (fun x =>
        (⟨x.1, t, first.vmpl1Perms, first.physicalAddress + 4096 * x.2⟩ : MeasuredPage)) =
      l.filterMap MeasuredPage.ofCommand := by
    intro l
    induction l with
    | nil => intro i _; rfl
    | cons c l ih =>
      intro i h
      obtain ⟨haddr, hsame⟩ := h c i (by rw [zipIdx_cons]; exact mem_cons_self)
      obtain ⟨htype, hperms⟩ := Bool.and_eq_true_iff.1 hsame
      have hc : MeasuredPage.ofCommand c =
          some ⟨payloadBytes c.payload, t, first.vmpl1Perms, first.physicalAddress + 4096 * i⟩ := by
        rw [MeasuredPage.ofCommand, eq_of_beq htype, ht, eq_of_beq hperms, haddr]
        rfl
      rw [map_cons, zipIdx_cons, map_cons, filterMap_cons_some hc,
        ih (i + 1) fun d k hd => h d k (by rw [zipIdx_cons]; exact mem_cons_of_mem _ hd)]
  simp only [LaunchUpdate.measured, Group.pages, Group.commands, map_cons, zipIdx_cons]
  rw [filterMap_cons_some hfirst, hnext _ 1 fun c k hm => ⟨coalesce_address ha hm, (coalesce_mem hm).2.2.1⟩]
  rfl

/-- The host's calls measure what the commands stand for, one by one. -/
lemma prepareVmSnp_measured (ha : Aligned commands) :
    (prepareVmSnp commands).flatMap LaunchUpdate.measured = commands.filterMap MeasuredPage.ofCommand := by
  rw [prepareVmSnp]
  induction commands using groups.induct sameSnp with
  | case1 => simp [groups]
  | case2 first rest ih =>
    have hsplit := coalesce_append first.physicalAddress (sameSnp first) 1 rest
    set g := coalesce first.physicalAddress (sameSnp first) 1 rest
    have hrest : Aligned g.2 := fun c hc =>
      ha c (mem_cons_of_mem first (hsplit ▸ mem_append_right _ hc))
    have hlist : (first :: rest).filterMap MeasuredPage.ofCommand =
        (first :: g.1).filterMap MeasuredPage.ofCommand ++ g.2.filterMap MeasuredPage.ofCommand := by
      rw [← filterMap_append, cons_append, hsplit]
    rw [hlist, ← ih hrest, groups]
    cases ht : pageType first.payload with
    | some t => rw [filterMap_cons_some (by rw [ht]; rfl), flatMap_cons, group_measured ha ht]
    | none =>
      -- a shared group: nothing in it is measured
      rw [filterMap_cons_none (by rw [ht]; rfl)]
      have hnone : (first :: g.1).filterMap MeasuredPage.ofCommand = [] := by
        refine filterMap_eq_nil_iff.2 fun c hc => ?_
        have hc' : pageType c.payload = none := by
          rcases mem_cons.1 hc with rfl | hc
          · exact ht
          · exact (eq_of_beq (Bool.and_eq_true_iff.1 (coalesce_same hc)).1).trans ht
        exact ofCommand_shared (by rw [isPrivate, hc']; rfl)
      rw [hnone, nil_append]

/-! ## TDX -/

/-- mushroom/tdx.rs:205-209 -/
def sameTdx (first c : LoadCommand) : Bool := isPrivate c == isPrivate first

inductive TdxCall where
  | memoryMapping (gpa : Nat) (pages : List Page)
  | extendMemory (gpa len : Nat)

/-- mushroom/tdx.rs:191-245 -/
def prepareVmTdx (commands : List LoadCommand) : List TdxCall :=
  (groups sameTdx commands).flatMap fun g =>
    if isPrivate g.first then
      [.memoryMapping g.first.physicalAddress g.pages, .extendMemory g.first.physicalAddress g.pages.length]
    else []

/-- What `MRTD` is extended with. -/
inductive TdxRecord where
  | memPageAdd (gpa : Nat)
  | mrExtend (gpa : Nat) (chunk : Bytes)
  deriving DecidableEq

/-- mushroom-verify/tdx.rs:178-191 -/
def TdxRecord.bytes : TdxRecord → Bytes
  | memPageAdd gpa => "MEM.PAGE.ADD".toUTF8.toList ++ List.replicate 4 0 ++ leBytes 8 gpa ++ List.replicate 104 0
  | mrExtend gpa chunk =>
    "MR.EXTEND".toUTF8.toList ++ List.replicate 7 0 ++ leBytes 8 gpa ++ List.replicate 104 0 ++ chunk

/-- The verifier's loop over the chunks of a page.
mushroom-verify/tdx.rs:54-59 -/
def extendPage (gpa : Nat) (page : Page) : List TdxRecord :=
  (chunks 256 page.1).zipIdx.map fun x => .mrExtend (gpa + x.2 * x.1.length) x.1

/-- The TDX module has a `TDH.MR.EXTEND` for 256 bytes: 16 make up a page. -/
def moduleExtend (gpa : Nat) (page : Page) : List TdxRecord :=
  (List.range 16).map fun j => .mrExtend (gpa + 256 * j) ((page.1.drop (256 * j)).take 256)

lemma moduleExtend_eq (gpa : Nat) (page : Page) : moduleExtend gpa page = extendPage gpa page := by
  have hlen := page.2
  unfold moduleExtend extendPage
  refine ext_getElem ?_ fun j hj hj' => ?_
  · simp [hlen]
  have hlt : j < 16 := by simpa using hj
  -- a chunk of the verifier is never the short one at the end
  have hchunk : ((page.1.drop (256 * j)).take 256).length = 256 := by
    rw [length_take, length_drop, hlen]
    omega
  simp only [getElem_map, getElem_range, getElem_zipIdx, chunks, hchunk, Nat.zero_add, Nat.mul_comm j]

/-- The TDX module: private memory, and the records that a call adds. -/
def TdxCall.run (mem : Nat → Page) : TdxCall → (Nat → Page) × List TdxRecord
  | memoryMapping gpa pages =>
    (fun a => if gpa ≤ a ∧ (a - gpa) % 4096 = 0 then pages[(a - gpa) / 4096]?.getD (mem a) else mem a,
      (List.range pages.length).map fun k => .memPageAdd (gpa + 4096 * k))
  | extendMemory gpa len => (mem, (List.range len).flatMap fun k =>
      moduleExtend (gpa + 4096 * k) (mem (gpa + 4096 * k)))

def runCalls (mem : Nat → Page) : List TdxCall → List TdxRecord
  | [] => []
  | call :: calls => (call.run mem).2 ++ runCalls (call.run mem).1 calls

/-- Shared commands are skipped; a private one and the private ones behind it make a group.
mushroom-verify/tdx.rs:27-47 -/
def verifierGroups : List LoadCommand → List Group
  | [] => []
  | first :: rest =>
    if isPrivate first then
      ⟨first, (coalesce first.physicalAddress isPrivate 1 rest).1⟩ ::
        verifierGroups (coalesce first.physicalAddress isPrivate 1 rest).2
    else verifierGroups rest
termination_by cs => cs.length
decreasing_by
  · have := coalesce_length first.physicalAddress isPrivate 1 rest
    simp only [length_cons]
    omega
  · simp

/-- mushroom-verify/tdx.rs:49-60 -/
def Group.records (g : Group) : List TdxRecord :=
  ((List.range g.pages.length).map fun i => .memPageAdd (g.first.physicalAddress + 4096 * i)) ++
    g.pages.zipIdx.flatMap fun x => extendPage (g.first.physicalAddress + 4096 * x.2) x.1

def verifierRecords (commands : List LoadCommand) : List TdxRecord := (verifierGroups commands).flatMap Group.records

/-- `hasher.finalize()` after the updates. mushroom-verify/tdx.rs:19-67 -/
def mrTd (S : Sha) (records : List TdxRecord) : ByteArr 48 := S.sha384 (records.flatMap TdxRecord.bytes)

lemma verifierGroups_shared (h : ∀ c ∈ shared, isPrivate c = false) :
    verifierGroups (shared ++ rest) = verifierGroups rest := by
  induction shared with
  | nil => rfl
  | cons c shared ih =>
    rw [cons_append, verifierGroups, if_neg (by rw [h c mem_cons_self]; decide)]
    exact ih fun d hd => h d (mem_cons_of_mem c hd)

/-- The private groups of the host are the groups of the verifier. -/
lemma groups_filter_private (commands : List LoadCommand) :
    (groups sameTdx commands).filter (fun g => isPrivate g.first) = verifierGroups commands := by
  induction commands using groups.induct sameTdx with
  | case1 => simp [groups, verifierGroups]
  | case2 first rest ih =>
    rw [groups, filter_cons, ih]
    by_cases hp : isPrivate first
    · -- the two conditions are the same
      have hsame : sameTdx first = isPrivate := by
        funext c
        rw [sameTdx, hp]
        cases isPrivate c <;> rfl
      rw [if_pos hp, hsame, verifierGroups, if_pos hp]
    have hall : ∀ c ∈ first :: (coalesce first.physicalAddress (sameTdx first) 1 rest).1, isPrivate c = false := by
      rw [Bool.not_eq_true] at hp
      intro c hc
      rcases mem_cons.1 hc with rfl | hc
      · exact hp
      have hsame : sameTdx first c := coalesce_same hc
      exact (eq_of_beq hsame).trans hp
    have hskip : verifierGroups (first :: rest) =
        verifierGroups (coalesce first.physicalAddress (sameTdx first) 1 rest).2 := by
      refine Eq.trans ?_ (verifierGroups_shared hall)
      rw [cons_append, coalesce_append]
    rw [if_neg hp, hskip]

/-- The module adds and extends what the verifier computes. -/
lemma runCalls_group (mem : Nat → Page) (g : Group) (calls : List TdxCall) :
    ∃ mem', runCalls mem (.memoryMapping g.first.physicalAddress g.pages ::
      .extendMemory g.first.physicalAddress g.pages.length :: calls) = g.records ++ runCalls mem' calls := by
  refine ⟨((TdxCall.memoryMapping g.first.physicalAddress g.pages).run mem).1, ?_⟩
  rw [runCalls, runCalls, ← append_assoc]
  congr 1
  simp only [TdxCall.run, Group.records]
  congr 1
  rw [flatMap_def, flatMap_def]
  congr 1
  refine ext_getElem (by simp) fun k hk hk' => ?_
  have hlt : k < g.pages.length := by simpa using hk
  simp [hlt, moduleExtend_eq]

lemma runCalls_records (mem : Nat → Page) (gs : List Group) : runCalls mem (gs.flatMap fun g =>
      if isPrivate g.first then
        [.memoryMapping g.first.physicalAddress g.pages, .extendMemory g.first.physicalAddress g.pages.length]
      else []) = (gs.filter fun g => isPrivate g.first).flatMap Group.records := by
  induction gs generalizing mem with
  | nil => rfl
  | cons g gs ih =>
    rw [flatMap_cons, filter_cons]
    by_cases hp : isPrivate g.first
    · obtain ⟨mem', hrun⟩ := runCalls_group mem g _
      rw [if_pos hp, if_pos hp, flatMap_cons, cons_append, cons_append, nil_append, hrun, ih]
    · rw [if_neg hp, if_neg hp, nil_append, ih]

lemma prepareVmTdx_records (mem : Nat → Page) (commands : List LoadCommand) :
    runCalls mem (prepareVmTdx commands) = verifierRecords commands := by
  rw [prepareVmTdx, runCalls_records, groups_filter_private, verifierRecords]

lemma verifierGroups_append_shared (commands : List LoadCommand)
    (h : ∀ c ∈ shared, isPrivate c = false) : verifierGroups (commands ++ shared) = verifierGroups commands := by
  have hcoalesce : ∀ (gpa i : Nat) (cs : List LoadCommand), coalesce gpa isPrivate i (cs ++ shared) =
      ((coalesce gpa isPrivate i cs).1, (coalesce gpa isPrivate i cs).2 ++ shared) := by
    intro gpa i cs
    induction cs generalizing i with
    | nil =>
      cases shared with
      | nil => rfl
      | cons c shared =>
        have hstop : ¬(gpa < c.physicalAddress ∧ (c.physicalAddress - gpa) / 4096 = i ∧ isPrivate c) := by
          rw [h c mem_cons_self]
          simp
        exact if_neg hstop
    | cons c cs ih =>
      rw [cons_append, coalesce, coalesce]
      split
      · rw [ih]
      · rfl
  induction commands using verifierGroups.induct with
  | case1 =>
    have hnil : verifierGroups (shared ++ []) = verifierGroups [] := verifierGroups_shared h
    rwa [append_nil] at hnil
  | case2 first rest hp ih => rw [cons_append, verifierGroups, if_pos hp, hcoalesce, ih, verifierGroups, if_pos hp]
  | case3 first rest hp ih => rw [cons_append, verifierGroups, if_neg hp, ih, verifierGroups, if_neg hp]

/-! ## Agreement -/

lemma loadInput_shared {S : Sha} {inputs : List Input} (h : c ∈ (loadInput S inputs).1) :
    isPrivate c = false ∧ 4096 ∣ c.physicalAddress := by
  simp only [loadInput, mem_map] at h
  obtain ⟨x, -, rfl⟩ := h
  have hstart : 4096 ∣ inputFileStart := by norm_num [inputFileStart]
  exact ⟨rfl, Nat.dvd_add hstart (Nat.dvd_mul_right ..)⟩

/-- For all load commands at page addresses and all inputs, what the firmware measures of the host's calls is what
the verifier hashes for the base commands: on SEV-SNP page by page, so the launch digests agree, and on TDX
record by record, so the `MRTD`s agree. -/
theorem measurement_agreement (S : Sha) (commands : List LoadCommand) (inputs : List Input) (mem : Nat → Page)
    (ha : Aligned commands) : (prepareVmSnp (commands ++ (loadInput S inputs).1)).flatMap LaunchUpdate.measured =
      commands.filterMap MeasuredPage.ofCommand ∧ S.sha384 (PageInfo.linuxVmsa (extend S (zeros 48)
      ((prepareVmSnp (commands ++ (loadInput S inputs).1)).flatMap LaunchUpdate.measured))).bytes =
      launchDigest S commands ∧
    runCalls mem (prepareVmTdx (commands ++ (loadInput S inputs).1)) = verifierRecords commands ∧
    mrTd S (runCalls mem (prepareVmTdx (commands ++ (loadInput S inputs).1))) = mrTd S (verifierRecords commands) := by
  have hall : Aligned (commands ++ (loadInput S inputs).1) := by
    intro c hc
    rcases mem_append.1 hc with hc | hc
    · exact ha c hc
    · exact (loadInput_shared hc).2
  have hsnp : (prepareVmSnp (commands ++ (loadInput S inputs).1)).flatMap LaunchUpdate.measured =
      commands.filterMap MeasuredPage.ofCommand := by
    have hnone : (loadInput S inputs).1.filterMap MeasuredPage.ofCommand = [] :=
      filterMap_eq_nil_iff.2 fun c hc => ofCommand_shared (loadInput_shared hc).1
    rw [prepareVmSnp_measured hall, filterMap_append, hnone, append_nil]
  have htdx : runCalls mem (prepareVmTdx (commands ++ (loadInput S inputs).1)) = verifierRecords commands := by
    rw [prepareVmTdx_records, verifierRecords, verifierGroups_append_shared _ fun c hc => (loadInput_shared hc).1]
    rfl
  refine ⟨hsnp, ?_, htdx, congrArg (mrTd S) htdx⟩
  rw [hsnp, launchDigest, commandsDigest_eq]

/-- Two private pages around a shared one: two groups on either side. -/
def splitPages : List LoadCommand :=
  [⟨0x1000, 0, .normal (zeros 4096)⟩, ⟨0x2000, 0, .shared (zeros 4096)⟩, ⟨0x3000, 0, .zero⟩]

theorem measurement_agreement_split_pages : (verifierGroups splitPages).length = 2 ∧
    runCalls (fun _ => zeros 4096)
      (prepareVmTdx (splitPages ++ (loadInput ⟨fun _ => zeros 32, fun _ => zeros 48⟩ []).1)) =
      verifierRecords splitPages := by
  refine ⟨?_, (measurement_agreement ⟨fun _ => zeros 32, fun _ => zeros 48⟩ splitPages []
    (fun _ => zeros 4096) ?_).2.2.1⟩
  · simp [splitPages, verifierGroups, coalesce, isPrivate, pageType]
  intro c hc
  simp only [splitPages, mem_cons, not_mem_nil, or_false] at hc
  rcases hc with rfl | rfl | rfl
  · exact Nat.dvd_refl 0x1000
  · exact ⟨2, rfl⟩
  · exact ⟨3, rfl⟩

end Mushroom.L3
