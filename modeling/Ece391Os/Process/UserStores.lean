import Ece391Os.FileSystem.Descriptors
import Ece391Os.Kernel.Paging
import Ece391Os.Process.Arguments
import Ece391Os.Terminal.Echo

/-!
# Stores through user pointers

The system calls that store into the memory of their caller: `read` on a terminal, a file or a
directory, `getargs` and `vidmap`. Only `vidmap` looks at the pointer before it stores.

* `callStore` is what a call stores and returns, `outcome` what becomes of the stores under the page
  directory in CR3: a store to an address that is not mapped is a page fault, whose handler loops.
* `StaysInPage` says when the bytes fit the program page, in terms of the arguments and of the state
  before the call: each call has its own length.
* `userStep` is the step of the system with these calls. Stores outside of the page end in a page
  fault, or reach a video page or the kernel, where the linker has placed its data: they leave any
  state.
* `onlyUserPage_iff`: in every state of every run whose earlier calls keep to the page
  (`StoresFit`), a call does exactly then.
* `not_onlyUserPage_getargs`: `getargs` overwrites the kernel.
-/

namespace Ece391

open Transition

/-! ## What the calls store -/

/-- What a call stores from its user pointer on, and the value it returns. -/
structure UserStore where
  ret : Word
  data : Buffer
  size : ℕ

/-- A call that stores nothing. -/
def UserStore.nothing (ret : Word) : UserStore := { ret, data := fun _ => 0#8, size := 0 }

/-- The end of `terminal_read`, when the wait for the line is over: the bytes of the line and a
NUL. -/
def terminalReadStore (term : Term) (cnt : Word) : UserStore :=
  let n := if term.terminalCnt ≤ cnt.toInt ∨ term.terminalCnt < 128
    then BitVec.ofInt 32 term.terminalCnt else cnt
  { ret := n
    data := Buffer.overwrite (fun _ => 0#8) (fun j => term.terminalBuf j) n.toNat
    size := n.toNat + 1 }

/-- `read_data` as a store to the caller's buffer. -/
def readDataStore (img : FsImage) (inode offset length : Word) : UserStore :=
  if offset > img.fileLength inode then .nothing 0#32
  else if img.BadBlock inode offset then .nothing (-1#32)
  else
    let n := min length.toNat ((img.fileLength inode).toNat - offset.toNat)
    { ret := BitVec.ofNat 32 n, data := fun j => img.fileByte inode (offset.toNat + j), size := n }

/-- `filesystem_read` as a store. -/
def filesystemReadStore (img : FsImage) (desc : FilesysDesc) (cnt : Word) : Option UserStore :=
  if desc.inodePtr ≠ -1#32 then some (readDataStore img desc.inodePtr desc.filePos cnt)
  else if desc.filePos.toNat < img.numOfEntries.toNat then
    (strlen (img.entryName desc.filePos.toNat)).map fun fnLen =>
      { ret := BitVec.ofNat 32 fnLen, data := img.entryName desc.filePos.toNat, size := fnLen }
  else some (.nothing 0#32)

/-- The descriptors of the running process. -/
def Kernel.descs (k : Kernel) : DescTable := (k.procs.pcbs k.procs.currPid).filesysDescArray

/-- A system call that may store through the pointer it is given. -/
inductive StoringCall
  | read (fd buf nbytes : Word)
  | getargs (buf nbytes : Word)
  | vidmap (screenStart : Word)

/-- The pointer. -/
def StoringCall.ptr : StoringCall → Word
  | read _ buf _ => buf
  | getargs buf _ => buf
  | vidmap screenStart => screenStart

/-- What `read` stores. A read of a terminal stores when its wait for the line is over; one of the
real-time clock waits and stores nothing. -/
def readStore (env : Env) (k : Kernel) (fd nbytes : Word) : Option UserStore :=
  match fdIndex fd with
  | none => some (.nothing (-1#32))
  | some i =>
    if i = 1 then some (.nothing (-1#32))
    else if (k.descs i).flags = 0#32 then some (.nothing (-1#32))
    else
      match (k.descs i).fileOpsTablePtr with
      | none => none
      | some .terminal => some (terminalReadStore (k.con.terms k.procs.currTerm) nbytes)
      | some .rtc => some (.nothing 0#32)
      | some .fileSystem => filesystemReadStore env.img (k.descs i) nbytes

/-- What `getargs` stores. -/
def getargsStore (k : Kernel) (nbytes : Word) : Option UserStore := do
  let args := (k.procs.pcbs k.procs.currPid).args
  let len ← strlen args
  if nbytes < BitVec.ofNat 32 len + 1#32 then some (.nothing (-1#32))
  else some { ret := 0#32, data := args, size := nbytes.toNat }

/-- What `vidmap` stores: the address of the page of `curr_term` behind 0x084B8000. -/
def vidmapStore (k : Kernel) (screenStart : Word) : UserStore :=
  if screenStart < 0x08000000#32 ∨ screenStart ≥ 0x08400000#32 then .nothing (-1#32)
  else
    let screen : Word := 0x084B8000#32 + 0x2000#32 * BitVec.ofNat 32 k.procs.currTerm.val
    { ret := 0#32, data := fun j => screen.extractLsb' (8 * j) 8, size := 4 }

/-- What a call stores; `none` when it never gets there. -/
def callStore (env : Env) (k : Kernel) : StoringCall → Option UserStore
  | .read fd _ nbytes => readStore env k fd nbytes
  | .getargs _ nbytes => getargsStore k nbytes
  | .vidmap screenStart => some (vidmapStore k screenStart)

section Buffers

variable {img : FsImage} {buf : Buffer}

/-- The store of `read_data` is what it does to any buffer. -/
theorem readData_eq_store (inode offset length : Word) :
    img.readData inode offset buf length =
      ((readDataStore img inode offset length).ret,
        buf.overwrite (readDataStore img inode offset length).data
          (readDataStore img inode offset length).size) := by
  unfold readDataStore
  split_ifs with hpast hbad
  · -- behind the end of the file, or at a block that is refused, nothing is stored
    rw [FsImage.readData_past_end hpast, UserStore.nothing, Buffer.overwrite_zero]
  · rw [FsImage.readData_badBlock hpast hbad, UserStore.nothing, Buffer.overwrite_zero]
  · rw [FsImage.readData_eq hpast hbad]

/-- The store of `getargs` is what it does to any buffer. -/
theorem getargs_eq_store (k : Kernel) (nbytes : Word) :
    getargs k buf nbytes =
      (getargsStore k nbytes).map fun s => (s.ret, buf.overwrite s.data s.size) := by
  unfold getargs getargsStore
  dsimp only
  cases strlen (k.procs.pcbs k.procs.currPid).args with
  | none => rfl
  | some len =>
    show (if nbytes < BitVec.ofNat 32 len + 1#32 then _ else _) =
      Option.map _ (if nbytes < BitVec.ofNat 32 len + 1#32 then _ else _)
    split_ifs
    · rw [Option.map_some, UserStore.nothing, Buffer.overwrite_zero]
    · rfl

/-- The store of a read that returns a value itself is what it does to any buffer. -/
theorem readCall_eq_store (env : Env) (k : Kernel) (fd nbytes : Word) {ret : Word} {buf' : Buffer}
    {descs : DescTable}
    (h : readCall env.img fd buf nbytes k.descs = some (.value ret buf', descs)) :
    ∃ s, readStore env k fd nbytes = some s ∧ s.ret = ret ∧ buf' = buf.overwrite s.data s.size := by
  unfold readCall at h
  unfold readStore
  -- a call that returns without a store
  have hnothing : ∀ {ret' : Word} {descs' : DescTable},
      some (ReadResult.value ret' buf, descs') = some (.value ret buf', descs) →
        ∃ s, some (UserStore.nothing ret') = some s ∧ s.ret = ret ∧
          buf' = buf.overwrite s.data s.size := by
    intro ret' descs' heq
    cases heq
    exact ⟨_, rfl, rfl, (Buffer.overwrite_zero _ _).symm⟩
  cases hi : fdIndex fd with
  | none =>
    rw [hi] at h
    exact hnothing h
  | some i =>
    rw [hi] at h
    dsimp only at h ⊢
    split_ifs at h ⊢ with hone hflags
    · exact hnothing h
    · exact hnothing h
    · cases hops : (k.descs i).fileOpsTablePtr with
      | none => simp [hops] at h
      | some ops =>
        rw [hops] at h
        cases ops with
        | terminal => simp at h
        | rtc => simp at h
        | fileSystem =>
          dsimp only at h ⊢
          unfold filesystemRead at h
          unfold filesystemReadStore
          dsimp only at h ⊢
          -- a regular file, or the directory
          by_cases hfile : (k.descs i).inodePtr ≠ -1#32
          · rw [if_pos hfile, readData_eq_store] at h
            rw [if_pos hfile]
            cases h
            exact ⟨_, rfl, rfl, rfl⟩
          rw [if_neg hfile] at h ⊢
          by_cases hpos : (k.descs i).filePos.toNat < env.img.numOfEntries.toNat
          · rw [if_pos hpos] at h ⊢
            obtain ⟨fnLen, hlen, h⟩ := Option.bind_eq_some_iff.mp h
            cases h
            rw [hlen]
            exact ⟨_, rfl, rfl, rfl⟩
          · rw [if_neg hpos] at h ⊢
            exact hnothing h

end Buffers

/-! ## What becomes of the stores -/

/-- The kernel can store to the address. -/
def Kernel.Mapped (k : Kernel) (va : Word) : Prop :=
  (k.procs.translate { user := false, write := true } va).isSome = true

instance (k : Kernel) (va : Word) : Decidable (k.Mapped va) := inferInstanceAs (Decidable (_ = _))

/-- How many of the `n` bytes from `va` on are stored: up to the first that is not mapped. -/
def Kernel.reach (k : Kernel) (va : Word) : ℕ → ℕ
  | 0 => 0
  | n + 1 => if k.reach va n = n ∧ k.Mapped (va + BitVec.ofNat 32 n) then n + 1 else k.reach va n

/-- What has become of a call: how many bytes from its pointer on have been stored, and the value it
has returned, `none` after a page fault. -/
structure Outcome where
  ptr : Word
  count : ℕ
  ret : Option Word

/-- The address has been stored to. -/
def Outcome.Stored (o : Outcome) (a : Word) : Prop := ∃ j < o.count, a = o.ptr + BitVec.ofNat 32 j

/-- What becomes of a call. The bytes are stored one after the other; `vidmap` has one instruction
that stores a word, and does not store part of it. -/
def outcome (env : Env) (k : Kernel) (call : StoringCall) : Option Outcome :=
  (callStore env k call).map fun s =>
    let reached := k.reach call.ptr s.size
    let count := match call with
      | .vidmap _ => if reached = s.size then reached else 0
      | _ => reached
    { ptr := call.ptr, count, ret := if reached = s.size then some s.ret else none }

/-- The address is in the program page of the running process. -/
def InOwnPage (k : Kernel) (a : Word) : Prop :=
  ProgramAddr a ∧ ∀ access, ∃ pa, k.procs.translate access a = some pa ∧
    ProgramFrame k.procs.currPid pa

/-- The call has stored what it returns for in the caller's page, or returns -1 and has stored
nothing. -/
def OnlyUserPage (k : Kernel) (o : Outcome) : Prop :=
  o.ret = some (-1#32) ∧ o.count = 0 ∨ o.ret.isSome = true ∧ ∀ a, o.Stored a → InOwnPage k a

/-! ## When the bytes fit -/

/-- The `n` bytes from `ptr` on are in the program page. -/
def Fits (ptr : Word) (n : ℕ) : Prop := 0x08000000 ≤ ptr.toNat ∧ ptr.toNat + n ≤ 0x08400000

instance (ptr : Word) (n : ℕ) : Decidable (Fits ptr n) := inferInstanceAs (Decidable (_ ∧ _))

/-- The bytes a read of a file or directory stores fit, or there are none. -/
def FileReadFits (img : FsImage) (desc : FilesysDesc) (buf nbytes : Word) : Prop :=
  if desc.inodePtr ≠ -1#32 then
    -- the bytes asked for, up to the end of the file
    let left := (img.fileLength desc.inodePtr).toNat - desc.filePos.toNat
    min nbytes.toNat left = 0 ∨ img.BadBlock desc.inodePtr desc.filePos ∨
      Fits buf (min nbytes.toNat left)
  else
    -- the name of the next entry, whatever has been asked for
    desc.filePos.toNat < img.numOfEntries.toNat →
      ∀ n, strlen (img.entryName desc.filePos.toNat) = some n → n = 0 ∨ Fits buf n

/-- How many bytes of the line a read of a terminal stores: a full line is cut to the bytes asked
for. -/
def lineBytes (term : Term) (nbytes : Word) : ℕ :=
  if term.terminalCnt.toNat < 128 ∨ 128 ≤ nbytes.toInt then term.terminalCnt.toNat else nbytes.toNat

/-- The call stores no byte, or its bytes fit. -/
def StaysInPage (env : Env) (k : Kernel) : StoringCall → Prop
  | .read fd buf nbytes => ∀ i, fdIndex fd = some i → i ≠ 1 → (k.descs i).flags ≠ 0#32 →
    ((k.descs i).fileOpsTablePtr = some .terminal →
      Fits buf (lineBytes (k.con.terms k.procs.currTerm) nbytes + 1)) ∧
    ((k.descs i).fileOpsTablePtr = some .fileSystem →
      FileReadFits env.img (k.descs i) buf nbytes)
  | .getargs buf nbytes => ∀ n, strlen (k.procs.pcbs k.procs.currPid).args = some n →
    nbytes < BitVec.ofNat 32 n + 1#32 ∨ nbytes = 0#32 ∨ Fits buf nbytes.toNat
  | .vidmap screenStart => ProgramAddr screenStart → Fits screenStart 4

section Reach

variable {k : Kernel} {va : Word} {j n : ℕ}

theorem Kernel.reach_le : k.reach va n ≤ n := by
  induction n with
  | zero => exact le_rfl
  | succ n ih =>
    unfold reach
    split_ifs
    · exact le_rfl
    · exact Nat.le_succ_of_le ih

/-- What is reached is mapped. -/
theorem Kernel.mapped_of_lt_reach (h : j < k.reach va n) : k.Mapped (va + BitVec.ofNat 32 j) := by
  induction n with
  | zero => exact absurd h (Nat.not_lt_zero j)
  | succ n ih =>
    unfold reach at h
    split_ifs at h with hn
    · rcases Nat.lt_succ_iff_lt_or_eq.mp h with hlt | rfl
      · exact ih (hn.1.symm ▸ hlt)
      · exact hn.2
    · exact ih h

/-- The stores go on over mapped addresses. -/
theorem Kernel.lt_reach (hj : j < n) (h : ∀ i ≤ j, k.Mapped (va + BitVec.ofNat 32 i)) :
    j < k.reach va n := by
  induction n generalizing j with
  | zero => exact absurd hj (Nat.not_lt_zero j)
  | succ n ih =>
    unfold reach
    split_ifs with hn
    · exact hj
    · refine ih (lt_of_le_of_ne (Nat.le_of_lt_succ hj) ?_) h
      rintro rfl
      -- otherwise all the bytes before this one have been stored, and it is mapped
      refine hn ⟨le_antisymm reach_le ?_, h j le_rfl⟩
      cases j with
      | zero => exact Nat.zero_le _
      | succ j => exact ih j.lt_succ_self fun i hi => h i (Nat.le_succ_of_le hi)

theorem Kernel.reach_eq (h : ∀ i < n, k.Mapped (va + BitVec.ofNat 32 i)) : k.reach va n = n := by
  apply le_antisymm reach_le
  cases n with
  | zero => exact Nat.zero_le _
  | succ n => exact lt_reach n.lt_succ_self fun i hi => h i (Nat.lt_succ_of_le hi)

/-- The program page is mapped, and nothing directly behind it. -/
theorem mapped_program (h : ProgramAddr va) : k.Mapped va := by
  unfold Kernel.Mapped
  rw [translate_program h]
  rfl

theorem not_mapped_limit : ¬ k.Mapped 0x08400000#32 := by
  unfold Kernel.Mapped Procs.translate
  rw [Option.isSome_iff_exists]
  rintro ⟨pa, hpa⟩
  obtain ⟨-, hpage, -⟩ := (I386.translate_table (t := .videoTable k.procs.cr3) rfl).mp hpa
  have hempty : ¬ ∃ t : TermId, (0x08400000#32 : Word).toNat / 0x1000 % 0x400 = videoPage t := by
    decide
  unfold Procs.tableEntry at hpage
  dsimp only at hpage
  rw [if_neg hempty] at hpage
  exact absurd hpage (I386.AccessBits.not_permits_none _)

/-- An address of a range that starts in the program page and does not wrap. -/
theorem toNat_offset (hptr : va.toNat < 0x08400000) (hj : j ≤ 0x400000) :
    (va + BitVec.ofNat 32 j).toNat = va.toNat + j := by
  rw [BitVec.toNat_add, BitVec.toNat_ofNat]
  omega

theorem programAddr_of_fits (h : Fits va n) (hj : j < n) :
    ProgramAddr (va + BitVec.ofNat 32 j) := by
  unfold Fits at h
  unfold ProgramAddr
  rw [toNat_offset (by omega) (by omega)]
  omega

/-- A range whose addresses are all in the program page fits. -/
theorem fits_of_programAddr (hn : 0 < n) (h : ∀ j < n, ProgramAddr (va + BitVec.ofNat 32 j)) :
    Fits va n := by
  have hstart := h 0 hn
  rw [BitVec.add_zero] at hstart
  unfold ProgramAddr at hstart
  refine ⟨hstart.1, not_lt.mp fun hend => ?_⟩
  -- otherwise the limit itself is an address of the range
  have hlimit := h (0x08400000 - va.toNat) (by omega)
  unfold ProgramAddr at hlimit
  rw [toNat_offset hstart.2 (by omega)] at hlimit
  omega

/-- The bytes that reach memory are in the program page, unless the first one goes elsewhere. -/
theorem reach_programAddr_iff :
    (∀ j < k.reach va n, ProgramAddr (va + BitVec.ofNat 32 j)) ↔
      n = 0 ∨ ProgramAddr va ∨ ¬ k.Mapped va := by
  have hzero : va + BitVec.ofNat 32 0 = va := BitVec.add_zero va
  constructor
  · intro h
    by_contra! hno
    obtain ⟨hn, hva, hmapped⟩ := hno
    -- the first byte is stored, and is not in the page
    have hfirst : 0 < k.reach va n := Kernel.lt_reach (by omega) fun i hi => by
      rwa [Nat.le_zero.mp hi, hzero]
    exact hva (hzero ▸ h 0 hfirst)
  · intro h j hj
    have hjn : j < n := lt_of_lt_of_le hj Kernel.reach_le
    rcases h with rfl | hva | hmapped
    · exact absurd hjn (Nat.not_lt_zero j)
    · unfold ProgramAddr at hva
      by_cases hin : va.toNat + j < 0x08400000
      · unfold ProgramAddr
        rw [toNat_offset hva.2 (by omega)]
        omega
      · -- the page fault at the end of the page comes first
        have hlast : 0x08400000 - va.toNat < k.reach va n := by omega
        have hlimit := Kernel.mapped_of_lt_reach hlast
        have heq : va + BitVec.ofNat 32 (0x08400000 - va.toNat) = 0x08400000#32 := by
          apply BitVec.eq_of_toNat_eq
          rw [toNat_offset hva.2 (by omega)]
          show _ = 0x08400000
          omega
        rw [heq] at hlimit
        exact absurd hlimit not_mapped_limit
    · -- nothing is stored, because the first byte is not mapped
      have hfirst := Kernel.mapped_of_lt_reach (lt_of_le_of_lt (Nat.zero_le j) hj)
      rw [hzero] at hfirst
      exact absurd hfirst hmapped

end Reach

/-! ## One call -/

section Call

variable {env : Env} {k : Kernel} {call : StoringCall} {o : Outcome} {s : UserStore}

theorem terminalReadStore_size {term : Term} (hline : term.lineBuffer.InRange) (cnt : Word) :
    (terminalReadStore term cnt).size = lineBytes term cnt + 1 := by
  have hlow : 0 ≤ term.terminalCnt := hline.1
  have hhigh : term.terminalCnt ≤ 128 := hline.2
  have hofInt : (BitVec.ofInt 32 term.terminalCnt).toNat = term.terminalCnt.toNat := by
    rw [BitVec.toNat_ofInt]
    omega
  unfold terminalReadStore lineBytes
  dsimp only
  -- the test of `terminal_read`, where the counter is never more than 128
  by_cases hcut : term.terminalCnt.toNat < 128 ∨ 128 ≤ cnt.toInt
  · rw [if_pos hcut, if_pos (by omega), hofInt]
  · rw [if_neg hcut, if_neg (by omega)]

theorem fileReadFits_iff {img : FsImage} {desc : FilesysDesc} {buf nbytes : Word}
    (hs : filesystemReadStore img desc nbytes = some s) :
    FileReadFits img desc buf nbytes ↔ s.size = 0 ∨ Fits buf s.size := by
  unfold filesystemReadStore at hs
  unfold FileReadFits
  by_cases hfile : desc.inodePtr ≠ -1#32
  · rw [if_pos hfile] at hs ⊢
    cases hs
    unfold readDataStore
    split_ifs with hpast hbad
    · -- behind the end there are no bytes left
      rw [gt_iff_lt, BitVec.lt_def] at hpast
      exact iff_of_true (Or.inl (by omega)) (Or.inl rfl)
    · exact iff_of_true (Or.inr (Or.inl hbad)) (Or.inl rfl)
    · exact or_congr Iff.rfl (or_iff_right hbad)
  rw [if_neg hfile] at hs ⊢
  by_cases hpos : desc.filePos.toNat < img.numOfEntries.toNat
  · rw [if_pos hpos] at hs
    obtain ⟨n, hn, rfl⟩ := Option.map_eq_some_iff.mp hs
    rw [hn]
    exact ⟨fun h => h hpos n rfl, fun h _ m hm => Option.some.inj hm ▸ h⟩
  · rw [if_neg hpos] at hs
    cases hs
    exact iff_of_true (fun h => absurd h hpos) (Or.inl rfl)

/-- The bytes a call stores fit, or it stores none. -/
theorem staysInPage_iff (hline : (k.con.lines k.procs.currTerm).InRange)
    (hs : callStore env k call = some s) :
    StaysInPage env k call ↔ s.size = 0 ∨ Fits call.ptr s.size := by
  cases call with
  | read fd buf nbytes =>
    have hs' : readStore env k fd nbytes = some s := hs
    unfold readStore at hs'
    unfold StaysInPage
    show _ ↔ s.size = 0 ∨ Fits buf s.size
    -- the calls that are refused store nothing
    cases hi : fdIndex fd with
    | none =>
      rw [hi] at hs'
      cases hs'
      exact iff_of_true (fun i h => by simp [hi] at h) (Or.inl rfl)
    | some i =>
      rw [hi] at hs'
      simp only [hi, Option.some.injEq, forall_eq']
      dsimp only at hs'
      split_ifs at hs' with hone hflags
      · cases hs'
        exact iff_of_true (fun h => absurd hone h) (Or.inl rfl)
      · cases hs'
        exact iff_of_true (fun _ h => absurd hflags h) (Or.inl rfl)
      · cases hops : (k.descs i).fileOpsTablePtr with
        | none => simp [hops] at hs'
        | some ops =>
          rw [hops] at hs'
          cases ops with
          -- a read of the clock stores nothing
          | rtc =>
            cases hs'
            exact iff_of_true (fun _ _ => ⟨fun h => by simp at h, fun h => by simp at h⟩)
              (Or.inl rfl)
          | terminal =>
            cases hs'
            rw [terminalReadStore_size hline]
            constructor
            · exact fun h => Or.inr ((h hone hflags).1 rfl)
            · exact fun h _ _ =>
                ⟨fun _ => h.resolve_left (Nat.succ_ne_zero _), fun h => by simp at h⟩
          | fileSystem =>
            rw [← fileReadFits_iff hs']
            exact ⟨fun h => (h hone hflags).2 rfl, fun h _ _ => ⟨fun h => by simp at h, fun _ => h⟩⟩
  | getargs buf nbytes =>
    have hs' : getargsStore k nbytes = some s := hs
    obtain ⟨n, hn, hs'⟩ := Option.bind_eq_some_iff.mp hs'
    unfold StaysInPage
    show _ ↔ s.size = 0 ∨ Fits buf s.size
    -- `memcpy` stores as many bytes as were asked for, not as many as the text has
    have hzero : nbytes = 0#32 ↔ nbytes.toNat = 0 :=
      ⟨fun h => by rw [h]; rfl, fun h => BitVec.eq_of_toNat_eq h⟩
    simp only [hn, Option.some.injEq, forall_eq']
    split_ifs at hs' with hlt <;> cases hs'
    · simp [UserStore.nothing, hlt]
    · simp [hlt, hzero]
  | vidmap screenStart =>
    cases hs
    unfold StaysInPage vidmapStore
    -- the test of `vidmap` is for the first byte only
    have haddr : ProgramAddr screenStart ↔
        ¬ (screenStart < 0x08000000#32 ∨ screenStart ≥ 0x08400000#32) := by
      unfold ProgramAddr
      rw [ge_iff_le, BitVec.lt_def, BitVec.le_def]
      show _ ↔ ¬ (screenStart.toNat < 0x08000000 ∨ 0x08400000 ≤ screenStart.toNat)
      omega
    split_ifs with hout
    · simp [haddr, hout, UserStore.nothing]
    · have hin := haddr.mpr hout
      simp only [hin, forall_const]
      exact (or_iff_right (by decide)).symm

theorem inOwnPage_iff (hcr3 : k.procs.cr3 = k.procs.currPid) {a : Word} :
    InOwnPage k a ↔ ProgramAddr a := by
  refine ⟨And.left, fun h => ⟨h, fun access => ⟨_, translate_program h, ?_⟩⟩⟩
  rw [hcr3]
  unfold ProgramAddr at h
  unfold ProgramFrame
  omega

/-- A call stores all its bytes and returns, or a page fault ends it. -/
theorem outcome_cases (h : outcome env k call = some o) :
    ∃ s, callStore env k call = some s ∧
      (k.reach call.ptr s.size = s.size ∧ o = ⟨call.ptr, s.size, some s.ret⟩ ∨
        k.reach call.ptr s.size ≠ s.size ∧ o.ret = none ∧ o.ptr = call.ptr ∧
          (o.count = k.reach call.ptr s.size ∨
            o.count = 0 ∧ (s.size ≠ 0 → ProgramAddr call.ptr))) := by
  obtain ⟨s, hs, rfl⟩ := Option.map_eq_some_iff.mp h
  refine ⟨s, hs, ?_⟩
  by_cases hreach : k.reach call.ptr s.size = s.size
  · left
    refine ⟨hreach, ?_⟩
    cases call <;> simp [hreach]
  · right
    refine ⟨hreach, if_neg hreach, rfl, ?_⟩
    cases call with
    | read fd buf nbytes => exact Or.inl rfl
    | getargs buf nbytes => exact Or.inl rfl
    | vidmap screenStart =>
      refine Or.inr ⟨if_neg hreach, fun hsize => ?_⟩
      -- `vidmap` has checked its pointer before it stores
      cases hs
      unfold vidmapStore at hsize
      split_ifs at hsize with hout
      · exact absurd rfl hsize
      · rw [ge_iff_le, BitVec.lt_def, BitVec.le_def] at hout
        have hout' : ¬ (screenStart.toNat < 0x08000000 ∨ 0x08400000 ≤ screenStart.toNat) := hout
        show 0x08000000 ≤ screenStart.toNat ∧ screenStart.toNat < 0x08400000
        omega

/-- A call keeps to the caller's page exactly when its bytes fit there. -/
theorem onlyUserPage_outcome_iff (hcr3 : k.procs.cr3 = k.procs.currPid)
    (hline : (k.con.lines k.procs.currTerm).InRange) (ho : outcome env k call = some o) :
    OnlyUserPage k o ↔ StaysInPage env k call := by
  obtain ⟨s, hs, ⟨hreach, rfl⟩ | ⟨hreach, hret, -, -⟩⟩ := outcome_cases ho
  · rw [staysInPage_iff hline hs]
    unfold OnlyUserPage Outcome.Stored
    simp only [inOwnPage_iff hcr3, Option.isSome_some, true_and]
    -- the call has stored all its bytes
    constructor
    · rintro (⟨-, hzero⟩ | hall)
      · exact Or.inl hzero
      · rcases Nat.eq_zero_or_pos s.size with hzero | hpos
        · exact Or.inl hzero
        · exact Or.inr (fits_of_programAddr hpos fun j hj => hall _ ⟨j, hj, rfl⟩)
    · rintro h
      right
      rintro a ⟨j, hj, rfl⟩
      rcases h with hzero | hfits
      · rw [hzero] at hj
        exact absurd hj (Nat.not_lt_zero j)
      · exact programAddr_of_fits hfits hj
  · -- after a page fault the call has not returned
    rw [staysInPage_iff hline hs]
    unfold OnlyUserPage
    simp only [hret, reduceCtorEq, false_and, Option.isSome_none, Bool.false_eq_true, or_self,
      false_iff]
    rintro (hzero | hfits)
    · rw [hzero] at hreach
      exact hreach rfl
    · exact hreach (Kernel.reach_eq fun i hi => mapped_program (programAddr_of_fits hfits hi))

/-- Counting only the bytes that reach memory, it also does so when a page fault stops it in time:
at the end of the page, or at a pointer that is not mapped. -/
theorem stored_programAddr_iff (hline : (k.con.lines k.procs.currTerm).InRange)
    (ho : outcome env k call = some o) :
    (∀ a, o.Stored a → ProgramAddr a) ↔
      StaysInPage env k call ∨ ProgramAddr call.ptr ∨ ¬ k.Mapped call.ptr := by
  have hfits : ∀ {ptr : Word} {n : ℕ}, Fits ptr n → n = 0 ∨ ProgramAddr ptr := by
    intro ptr n h
    unfold Fits at h
    unfold ProgramAddr
    omega
  obtain ⟨s, hs, hcase⟩ := outcome_cases ho
  rw [staysInPage_iff hline hs]
  have hiff : (∀ j < k.reach call.ptr s.size, ProgramAddr (call.ptr + BitVec.ofNat 32 j)) ↔
      (s.size = 0 ∨ Fits call.ptr s.size) ∨ ProgramAddr call.ptr ∨ ¬ k.Mapped call.ptr := by
    rw [reach_programAddr_iff]
    constructor
    · rintro (h | h)
      · exact Or.inl (Or.inl h)
      · exact Or.inr h
    · rintro ((h | h) | h)
      · exact Or.inl h
      · exact (hfits h).imp_right Or.inl
      · exact Or.inr h
  unfold Outcome.Stored
  rcases hcase with ⟨hreach, rfl⟩ | ⟨hreach, -, hptr, hcount | ⟨hcount, haddr⟩⟩
  · -- all the bytes have been stored
    rw [← hiff, hreach]
    exact ⟨fun h j hj => h _ ⟨j, hj, rfl⟩, fun h a ⟨j, hj, ha⟩ => ha ▸ h j hj⟩
  · -- those before a page fault have
    rw [← hiff, hptr, hcount]
    exact ⟨fun h j hj => h _ ⟨j, hj, rfl⟩, fun h a ⟨j, hj, ha⟩ => ha ▸ h j hj⟩
  · rw [hcount]
    -- the word of `vidmap` is not stored at all
    refine iff_of_true (fun a ⟨j, hj, _⟩ => absurd hj (Nat.not_lt_zero j)) ?_
    by_cases hzero : s.size = 0
    · exact Or.inl (Or.inl hzero)
    · exact Or.inr (Or.inl (haddr hzero))

end Call

/-! ## Runs -/

/-- Assign the descriptors of the running process. -/
def Kernel.setDescs (k : Kernel) (descs : DescTable) : Kernel :=
  { k with
    procs := k.procs.setPcb k.procs.currPid fun pcb => { pcb with filesysDescArray := descs } }

/-- The descriptors after a call: a read of a file moves its position. -/
def descsAfter (env : Env) (k : Kernel) : StoringCall → DescTable
  | .read fd _ nbytes =>
    (readCall env.img fd (fun _ => 0#8) nbytes k.descs).elim k.descs fun result => result.2
  | _ => k.descs

/-- What can happen. A call that stores outside of the page of its caller leaves the kernel in the
state `after`. -/
inductive UserEvent
  | system (e : SystemEvent)
  | openCall (filename : Buffer)
  | closeCall (fd : Word)
  | store (call : StoringCall) (after : Kernel)

/-- One step. -/
def userStep (env : Env) (k : Kernel) : UserEvent → Option Kernel
  | .system e => systemStep env k e
  | .openCall filename => (openCall env.img filename k.descs).map fun result => k.setDescs result.2
  | .closeCall fd => some (k.setDescs (closeCall fd k.descs).2)
  | .store call after =>
    (callStore env k call).bind fun s =>
      if s.size = 0 ∨ Fits call.ptr s.size then
        (k.storeBytes call.ptr s.data s.size).map fun k' => k'.setDescs (descsAfter env k call)
      -- the handler of a page fault has been entered, or other memory has been overwritten
      else some after

/-- If the event is a call that stores, its bytes fit the page, or there are none. -/
def UserEvent.StoresFit (env : Env) (k : Kernel) : UserEvent → Prop
  | .store call _ => ∀ s ∈ callStore env k call, s.size = 0 ∨ Fits call.ptr s.size
  | _ => True

instance (env : Env) (k : Kernel) (e : UserEvent) : Decidable (e.StoresFit env k) :=
  match e with
  | .store call _ => inferInstanceAs (Decidable (∀ s ∈ callStore env k call, _))
  | .system _ | .openCall _ | .closeCall _ => inferInstanceAs (Decidable True)

section Runs

variable {env : Env} {k k' : Kernel} {S : Forest}

/-- The descriptors are not part of the process table. -/
theorem Represents.setDescs (h : Represents k.procs S) (descs : DescTable) :
    Represents (k.setDescs descs).procs S := by
  have hpcb : ∀ p, ((k.setDescs descs).procs.pcbs p).parentPcb = (k.procs.pcbs p).parentPcb ∧
      ((k.setDescs descs).procs.pcbs p).thePid = (k.procs.pcbs p).thePid := by
    intro p
    unfold Kernel.setDescs Procs.setPcb
    by_cases hp : p = k.procs.currPid
    · subst hp
      simp
    · simp [hp]
  exact ⟨h.toLayout.congr (fun _ p _ => (hpcb p).1) (fun _ => rfl) h.busy
    (fun t p hp => (hpcb p).2.trans (h.thePid t p hp)) h.mapped h.currPid h.cr3 h.activeRootShell
    h.term, h.activeProcNum⟩

/-- A store that stays in the page changes nothing but the page. -/
theorem storeBytes_of_fits {ptr : Word} {data : Buffer} {n : ℕ} (h : n = 0 ∨ Fits ptr n)
    (hstore : k.storeBytes ptr data n = some k') :
    ∃ pages, k' = { k with procs := { k.procs with progPage := pages } } := by
  rcases h with rfl | hfits
  · cases hstore
    exact ⟨k.procs.progPage, rfl⟩
  · obtain ⟨hlow, hhigh⟩ := hfits
    rw [Kernel.storeBytes_program (ptr.toNat - 0x08000000) (by omega) (by omega)] at hstore
    cases hstore
    exact ⟨_, rfl⟩

/-- What a step preserves if its stores fit: the table lays the processes out, and the lines are in
range. -/
theorem invariant_userStep {e : UserEvent} (hshell : ValidShell env.img)
    (h : (∃ S, Represents k.procs S) ∧ ∀ t, (k.con.lines t).InRange) (hfit : e.StoresFit env k)
    (hstep : userStep env k e = some k') :
    (∃ S, Represents k'.procs S) ∧ ∀ t, (k'.con.lines t).InRange := by
  obtain ⟨⟨S, hS⟩, hlines⟩ := h
  cases e with
  | system e => exact ⟨hS.systemStep hshell hstep, inRange_systemStep hlines hstep⟩
  | openCall filename =>
    obtain ⟨result, -, rfl⟩ := Option.map_eq_some_iff.mp hstep
    exact ⟨⟨S, hS.setDescs _⟩, hlines⟩
  | closeCall fd =>
    cases hstep
    exact ⟨⟨S, hS.setDescs _⟩, hlines⟩
  | store call after =>
    obtain ⟨s, hs, hstep⟩ := Option.bind_eq_some_iff.mp hstep
    rw [if_pos (hfit s hs)] at hstep
    obtain ⟨k₁, hstore, rfl⟩ := Option.map_eq_some_iff.mp hstep
    obtain ⟨pages, rfl⟩ := storeBytes_of_fits (hfit s hs) hstore
    -- the bytes are in the page of the caller, and the position is in its PCB
    have hpages :
        Represents ({ k with procs := { k.procs with progPage := pages } } : Kernel).procs S :=
      hS.setPages pages
    exact ⟨⟨S, hpages.setDescs _⟩, hlines⟩

end Runs

/-- In every state of every run from boot whose earlier stores fit, a call that stores through a
user pointer keeps to the program page of its caller, or is refused, exactly when its bytes fit
there. Counting only the bytes that reach memory, it also keeps to the page when a page fault stops
it first. -/
theorem onlyUserPage_iff {env : Env} {ram : BootRam} {r : ExecResult} {k₀ k : Kernel}
    {es : List UserEvent} (hshell : ValidShell env.img) (hentry : entry env ram = some (r, k₀))
    (hrun : exec (userStep env) k₀ es = some k)
    (hfit : Along (userStep env) (fun k e => e.StoresFit env k) k₀ es) (call : StoringCall)
    {o : Outcome} (ho : outcome env k call = some o) :
    (OnlyUserPage k o ↔ StaysInPage env k call) ∧
      ((∀ a, o.Stored a → ProgramAddr a) ↔
        StaysInPage env k call ∨ ProgramAddr call.ptr ∨ ¬ k.Mapped call.ptr) := by
  have hspec := entry_spec hshell hentry
  have hboot : (∃ S, Represents k₀.procs S) ∧ ∀ t, (k₀.con.lines t).InRange :=
    ⟨⟨bootForest, hspec.exact.toRepresents⟩, hspec.inRange⟩
  obtain ⟨⟨S, hS⟩, hlines⟩ := exec_invariant
    (I := fun k => (∃ S, Represents k.procs S) ∧ ∀ t, (k.con.lines t).InRange)
    (fun k e k' h hfit hstep => invariant_userStep hshell h hfit hstep) hboot hfit hrun
  exact ⟨onlyUserPage_outcome_iff hS.cr3 (hlines _) ho, stored_programAddr_iff (hlines _) ho⟩

/-- The root shell of terminal 0 asks for its arguments, and then for the video page in the last
word of its page. -/
theorem onlyUserPage_sample :
    ∃ r k₀ k o, entry sampleEnv zeroRam = some (r, k₀) ∧
      exec (userStep sampleEnv) k₀ [.store (.getargs 0x08100000#32 1#32) k₀] = some k ∧
      outcome sampleEnv k (.vidmap 0x083FFFFC#32) = some o ∧ o.ret = some 0#32 ∧
      OnlyUserPage k o := by
  have hrun : (entry sampleEnv zeroRam).any fun x =>
      (exec (userStep sampleEnv) x.2 [.store (.getargs 0x08100000#32 1#32) x.2]).any fun k =>
        (outcome sampleEnv k (.vidmap 0x083FFFFC#32)).any fun o => decide (o.ret = some 0#32 ∧
          Along (userStep sampleEnv) (fun k e => e.StoresFit sampleEnv k) x.2
            [.store (.getargs 0x08100000#32 1#32) x.2]) := by
    decide +kernel
  simp only [Option.any_eq_true, decide_eq_true_eq] at hrun
  obtain ⟨⟨r, k₀⟩, hentry, k, hexec, o, ho, hret, hfit⟩ := hrun
  have hiff := (onlyUserPage_iff validShell_sampleImage hentry hexec hfit _ ho).1
  exact ⟨r, k₀, k, o, hentry, hexec, ho, hret, hiff.mpr fun _ => by decide⟩

/-- `getargs` with a pointer to the kernel overwrites it and succeeds; `vidmap` accepts a pointer
whose word crosses the end of the page, and hangs. -/
theorem not_onlyUserPage_getargs :
    ∃ r k₀ o o', entry sampleEnv zeroRam = some (r, k₀) ∧
      outcome sampleEnv k₀ (.getargs 0x00400000#32 1#32) = some o ∧ o.ret = some 0#32 ∧
      o.Stored 0x00400000#32 ∧ ¬ OnlyUserPage k₀ o ∧
      outcome sampleEnv k₀ (.vidmap 0x083FFFFE#32) = some o' ∧ o'.ret = none := by
  have hrun : (entry sampleEnv zeroRam).any fun x =>
      (outcome sampleEnv x.2 (.getargs 0x00400000#32 1#32)).any fun o =>
        (outcome sampleEnv x.2 (.vidmap 0x083FFFFE#32)).any fun o' =>
          decide (o.ptr = 0x00400000#32 ∧ o.count = 1 ∧ o.ret = some 0#32 ∧ o'.ret = none) := by
    decide +kernel
  simp only [Option.any_eq_true, decide_eq_true_eq] at hrun
  obtain ⟨⟨r, k₀⟩, hentry, o, ho, o', ho', hptr, hcount, hret, hret'⟩ := hrun
  have hstored : o.Stored 0x00400000#32 := ⟨0, by rw [hcount]; decide, by rw [hptr]; rfl⟩
  refine ⟨r, k₀, o, o', hentry, ho, hret, hstored, ?_, ho', hret'⟩
  rintro (⟨hneg, -⟩ | ⟨-, hall⟩)
  · rw [hret] at hneg
    exact absurd hneg (by decide)
  · exact absurd (hall _ hstored).1 (by decide)

end Ece391
