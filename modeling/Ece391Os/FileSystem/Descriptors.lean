import Ece391Os.Lib.Transition
import Ece391Os.Process.Boot

/-!
# File descriptors

`open`, `close` and `read` of `syscall.c` with `filesystem_read`, over the descriptor table of a
PCB.

* `openCall`, `closeCall`, `readCall` are the calls on one table; `fileStep` lets the processes make
  them in any order, and records for every descriptor what its reads have returned since it was
  opened.
* `InOrder` is the invariant: a descriptor of a regular file has returned exactly the bytes of the
  file before its position.
* `streams`: it holds in every run, and a read that returns 0 is at the end of the file and stays
  there.
-/

namespace Ece391

open Transition

/-- `filesys_desc_array` -/
abbrev DescTable := Fin 8 → FilesysDesc

/-- What a read ends with: a value and the caller's buffer, or the call of a device's read function,
which touches no descriptor. -/
inductive ReadResult
  | value (ret : Word) (buf : Buffer)
  | device (ops : OpsTable)

/-- The fields `open` assigns in a free descriptor, by the type of the file. -/
def openedDesc (entry : Dentry) (desc : FilesysDesc) : FilesysDesc :=
  if entry.filetype = 0#32 then
    { fileOpsTablePtr := some .rtc, inodePtr := 0#32, filePos := 0#32, flags := 1#32 }
  else if entry.filetype = 1#32 then
    { fileOpsTablePtr := some .fileSystem, inodePtr := -1#32, filePos := 0#32, flags := 1#32 }
  else if entry.filetype = 2#32 then
    { fileOpsTablePtr := some .fileSystem, inodePtr := entry.inodeNum, filePos := 0#32,
      flags := 1#32 }
  else desc

/-- The loop of `open`: the first free descriptor from 2 on. -/
def freeDesc (descs : DescTable) : Option (Fin 8) :=
  ([2, 3, 4, 5, 6, 7] : List (Fin 8)).find? fun fd => (descs fd).flags == 0#32

/-- `open`: the descriptor it returns, `none` for -1, and the table. The descriptor's own `open`
function is called last, through a pointer that a file of an unknown type has not set. -/
def openCall (img : FsImage) (filename : Buffer) (descs : DescTable) :
    Option (Option (Fin 8) × DescTable) :=
  match img.readDentryByName filename with
  | none => some (none, descs)
  | some entry =>
    match freeDesc descs with
    | none => some (none, descs)
    | some fd =>
      let descs := Function.update descs fd (openedDesc entry (descs fd))
      (descs fd).fileOpsTablePtr.map fun _ => (some fd, descs)

/-- A descriptor number as an index of the table. -/
def fdIndex (fd : Word) : Option (Fin 8) := if h : fd.toNat < 8 then some ⟨fd.toNat, h⟩ else none

/-- `close` -/
def closeCall (fd : Word) (descs : DescTable) : Word × DescTable :=
  match fdIndex fd with
  | none => (-1#32, descs)
  | some i =>
    if i.val < 2 then (-1#32, descs)
    else if (descs i).flags = 0#32 then (-1#32, descs)
    else (0#32, Function.update descs i { descs i with flags := 0#32 })

/-- `filesystem_read` of descriptor `fd`. -/
def filesystemRead (img : FsImage) (fd : Fin 8) (buf : Buffer) (cnt : Word) (descs : DescTable) :
    Option (ReadResult × DescTable) :=
  let desc := descs fd
  if desc.inodePtr ≠ -1#32 then
    let (ret, buf) := img.readData desc.inodePtr desc.filePos buf cnt
    let descs :=
      if ret ≠ -1#32 then
        Function.update descs fd { desc with filePos := desc.filePos + ret }
      else descs
    some (.value ret buf, descs)
  else if desc.filePos.toNat < img.numOfEntries.toNat then do
    let fnLen ← strlen (img.entryName desc.filePos.toNat)
    some (.value (BitVec.ofNat 32 fnLen)
        (buf.overwrite (img.entryName desc.filePos.toNat) fnLen),
      Function.update descs fd { desc with filePos := desc.filePos + 1#32 })
  else some (.value 0#32 buf, Function.update descs fd { desc with filePos := 0#32 })

/-- `read` -/
def readCall (img : FsImage) (fd : Word) (buf : Buffer) (nbytes : Word) (descs : DescTable) :
    Option (ReadResult × DescTable) :=
  match fdIndex fd with
  | none => some (.value (-1#32) buf, descs)
  | some i =>
    if i = 1 then some (.value (-1#32) buf, descs)
    else if (descs i).flags = 0#32 then some (.value (-1#32) buf, descs)
    else
      match (descs i).fileOpsTablePtr with
      | none => none
      | some .fileSystem => filesystemRead img i buf nbytes descs
      | some ops => some (.device ops, descs)

/-! ## Runs of the three calls -/

/-- The descriptor tables of all processes, and what has been seen of every descriptor since it was
last opened: the bytes its reads have returned, and whether a read of at least one byte has
returned 0. -/
structure FileState where
  descs : Pid → DescTable
  returned : Pid → Fin 8 → List Byte
  ended : Pid → Fin 8 → Bool

/-- A call by a process. -/
inductive FileEvent
  | openCall (p : Pid) (filename : Buffer)
  | closeCall (p : Pid) (fd : Word)
  | readCall (p : Pid) (fd : Word) (buf : Buffer) (nbytes : Word)

namespace FileState

/-- Assign the entry of one descriptor. -/
def set {α : Type} (f : Pid → Fin 8 → α) (p : Pid) (i : Fin 8) (a : α) : Pid → Fin 8 → α :=
  Function.update f p (Function.update (f p) i a)

variable {α : Type} (f : Pid → Fin 8 → α) (p : Pid) (i : Fin 8) (a : α)

@[simp]
theorem set_self : set f p i a p i = a := by simp [set]

@[simp]
theorem set_of_ne {j : Fin 8} (h : j ≠ i) : set f p i a p j = f p j := by simp [set, h]

@[simp]
theorem set_other {q : Pid} (h : q ≠ p) : set f p i a q = f q := by simp [set, h]

/-- Store the table a read has left, and record what the read has returned. -/
def record (s : FileState) (p : Pid) (fd nbytes : Word) (result : ReadResult) (descs : DescTable) :
    FileState :=
  match fdIndex fd, result with
  | some i, .value ret buf =>
    { descs := Function.update s.descs p descs
      returned := set s.returned p i
        (s.returned p i ++ if ret = -1#32 then [] else buf.bytesOf 0 ret.toNat)
      ended := set s.ended p i (s.ended p i || decide (nbytes ≠ 0#32 ∧ ret = 0#32)) }
  | _, _ => { s with descs := Function.update s.descs p descs }

variable (s : FileState) (fd nbytes : Word) (result : ReadResult) (descs : DescTable)

@[simp]
theorem record_descs :
    (s.record p fd nbytes result descs).descs = Function.update s.descs p descs := by
  unfold record
  split <;> rfl

theorem record_other {q : Pid} (hq : q ≠ p) :
    (s.record p fd nbytes result descs).returned q = s.returned q ∧
      (s.record p fd nbytes result descs).ended q = s.ended q := by
  unfold record
  split <;> simp [hq]

theorem record_of_ne {j : Fin 8} (hj : fdIndex fd ≠ some j) :
    (s.record p fd nbytes result descs).returned p j = s.returned p j ∧
      (s.record p fd nbytes result descs).ended p j = s.ended p j := by
  unfold record
  split
  · rename_i i ret buf hi
    have hne : j ≠ i := by
      rintro rfl
      exact hj hi
    simp [hne]
  · exact ⟨rfl, rfl⟩

theorem record_value {ret : Word} {buf : Buffer} (hi : fdIndex fd = some i) :
    (s.record p fd nbytes (.value ret buf) descs).returned p i =
        s.returned p i ++ (if ret = -1#32 then [] else buf.bytesOf 0 ret.toNat) ∧
      (s.record p fd nbytes (.value ret buf) descs).ended p i =
        (s.ended p i || decide (nbytes ≠ 0#32 ∧ ret = 0#32)) := by
  simp [record, hi]

end FileState

/-- One call. -/
def fileStep (img : FsImage) (s : FileState) : FileEvent → Option FileState
  | .openCall p filename =>
    (openCall img filename (s.descs p)).map fun (opened, descs) =>
      { descs := Function.update s.descs p descs
        returned := opened.elim s.returned fun i => FileState.set s.returned p i []
        ended := opened.elim s.ended fun i => FileState.set s.ended p i false }
  | .closeCall p fd =>
    some { s with descs := Function.update s.descs p (closeCall fd (s.descs p)).2 }
  | .readCall p fd buf nbytes =>
    (readCall img fd buf nbytes (s.descs p)).map fun (result, descs) =>
      s.record p fd nbytes result descs

/-! ## Descriptors of regular files -/

/-- Every inode of the image has a length that fits its slots, and slots inside the image. -/
def ValidInodes (img : FsImage) : Prop :=
  ∀ inode : Word, (inode.toNat : ℤ) < img.numOfInodes.toInt →
    (img.fileLength inode).toNat < 1023 * 4096 ∧
    ∀ n < 1023, 0 ≤ (img.blockSlot inode (BitVec.ofNat 32 n)).toInt ∧
      (img.blockSlot inode (BitVec.ofNat 32 n)).toInt < img.numOfBlocks.toInt

/-- The descriptor is that of a regular file of the image. -/
def Regular (img : FsImage) (desc : FilesysDesc) : Prop :=
  desc.flags ≠ 0#32 ∧ desc.fileOpsTablePtr = some .fileSystem ∧
    (desc.inodePtr.toNat : ℤ) < img.numOfInodes.toInt

/-- The first bytes of a file. -/
def firstBytes (img : FsImage) (inode : Word) (n : ℕ) : List Byte :=
  Buffer.bytesOf (img.fileByte inode) 0 n

/-- A descriptor of a regular file has returned the bytes before its position, which is inside the
file, and at its end once a read has returned 0. -/
structure InOrderAt (img : FsImage) (desc : FilesysDesc) (returned : List Byte) (ended : Bool) :
    Prop where
  returned : returned = firstBytes img desc.inodePtr desc.filePos.toNat
  filePos_le : desc.filePos.toNat ≤ (img.fileLength desc.inodePtr).toNat
  ended : ended = true → desc.filePos.toNat = (img.fileLength desc.inodePtr).toNat

/-- Every descriptor of a regular file is an in-order stream. -/
def InOrder (img : FsImage) (s : FileState) : Prop :=
  ∀ p i, Regular img (s.descs p i) → InOrderAt img (s.descs p i) (s.returned p i) (s.ended p i)

/-- A read of a regular file returns a number of bytes; it returns 0 for a nonempty request only at
the end of the file, and always once it has done so. -/
def ReadsToEnd (img : FsImage) (s : FileState) : FileEvent → Prop
  | .readCall p fd buf nbytes => ∀ i, fdIndex fd = some i → Regular img (s.descs p i) →
      ∃ ret buf' descs, readCall img fd buf nbytes (s.descs p) = some (.value ret buf', descs) ∧
        (nbytes ≠ 0#32 → ret = 0#32 →
          (s.descs p i).filePos.toNat = (img.fileLength (s.descs p i).inodePtr).toNat) ∧
        (s.ended p i = true → ret = 0#32)
  | _ => True

section

variable {img : FsImage} {desc : FilesysDesc} {returned : List Byte} {ended : Bool}
  {buf : Buffer} {nbytes : Word}

theorem Regular.inodePtr_ne (h : Regular img desc) : desc.inodePtr ≠ -1#32 := by
  intro hinode
  have hlt := h.2.2
  rw [hinode] at hlt
  have hint := img.numOfInodes.toInt_lt
  have hneg : (-1#32 : Word).toNat = 4294967295 := rfl
  omega

/-- The block behind a position of a valid file is accepted, also at its end. -/
theorem Regular.not_badBlock (himg : ValidInodes img) (h : Regular img desc)
    (hpos : desc.filePos.toNat ≤ (img.fileLength desc.inodePtr).toNat) :
    ¬ img.BadBlock desc.inodePtr desc.filePos := by
  obtain ⟨hlen, hslots⟩ := himg desc.inodePtr h.2.2
  obtain ⟨-, hlt⟩ := hslots (desc.filePos.toNat / 4096) (by omega)
  rw [FsImage.BadBlock, FsImage.div_block]
  omega

/-- `read_data` at the position of a valid file: the next bytes, as many as are asked for and
left. -/
theorem Regular.readData_eq (himg : ValidInodes img) (h : Regular img desc)
    (hpos : desc.filePos.toNat ≤ (img.fileLength desc.inodePtr).toNat) :
    img.readData desc.inodePtr desc.filePos buf nbytes =
      (BitVec.ofNat 32 (min nbytes.toNat
          ((img.fileLength desc.inodePtr).toNat - desc.filePos.toNat)),
        buf.overwrite (fun j => img.fileByte desc.inodePtr (desc.filePos.toNat + j))
          (min nbytes.toNat ((img.fileLength desc.inodePtr).toNat - desc.filePos.toNat))) := by
  refine FsImage.readData_eq ?_ (h.not_badBlock himg hpos)
  rw [gt_iff_lt, BitVec.lt_def]
  omega

/-- A read of a regular file moves the position by the number of bytes it returns. -/
theorem Regular.readCall_eq {descs : DescTable} {fd : Word} {i : Fin 8} (himg : ValidInodes img)
    (h : Regular img (descs i)) (hfd : fdIndex fd = some i) (hi : i ≠ 1) (buf : Buffer)
    (nbytes : Word) (hpos : (descs i).filePos.toNat ≤ (img.fileLength (descs i).inodePtr).toNat) :
    readCall img fd buf nbytes descs =
      some (.value (BitVec.ofNat 32 (min nbytes.toNat
          ((img.fileLength (descs i).inodePtr).toNat - (descs i).filePos.toNat)))
        (buf.overwrite
          (fun j => img.fileByte (descs i).inodePtr ((descs i).filePos.toNat + j))
          (min nbytes.toNat
            ((img.fileLength (descs i).inodePtr).toNat - (descs i).filePos.toNat))),
        Function.update descs i { descs i with
          filePos := BitVec.ofNat 32 ((descs i).filePos.toNat + min nbytes.toNat
            ((img.fileLength (descs i).inodePtr).toNat - (descs i).filePos.toNat)) }) := by
  have hlen := (himg _ h.2.2).1
  set m := min nbytes.toNat ((img.fileLength (descs i).inodePtr).toNat -
    (descs i).filePos.toNat) with hm
  have hret : BitVec.ofNat 32 m ≠ -1#32 := FsImage.ofNat_ne_neg_one (by omega)
  have hadd : (descs i).filePos + BitVec.ofNat 32 m =
      BitVec.ofNat 32 ((descs i).filePos.toNat + m) := by
    rw [BitVec.ofNat_add, BitVec.ofNat_toNat, BitVec.setWidth_eq]
  simp only [readCall, hfd, if_neg hi, if_neg h.1, h.2.1, filesystemRead,
    if_pos h.inodePtr_ne, h.readData_eq himg hpos, ← hm, if_pos hret, hadd]

/-- `filesystem_read` changes nothing but the position of its descriptor. -/
theorem filesystemRead_table {descs descs' : DescTable} {i : Fin 8} {result : ReadResult}
    (h : filesystemRead img i buf nbytes descs = some (result, descs')) :
    ∃ pos, descs' = Function.update descs i { descs i with filePos := pos } := by
  rw [filesystemRead] at h
  by_cases hinode : (descs i).inodePtr ≠ -1#32
  · rw [if_pos hinode] at h
    generalize img.readData (descs i).inodePtr (descs i).filePos buf nbytes = r at h
    by_cases hret : r.1 ≠ -1#32
    · simp only [if_pos hret] at h
      cases h
      exact ⟨_, rfl⟩
    · simp only [if_neg hret] at h
      cases h
      exact ⟨(descs i).filePos, (Function.update_eq_self i descs).symm⟩
  · rw [if_neg hinode] at h
    split_ifs at h
    · obtain ⟨fnLen, -, h⟩ := Option.bind_eq_some_iff.mp h
      cases h
      exact ⟨_, rfl⟩
    · cases h
      exact ⟨_, rfl⟩

/-- A read changes nothing but the position of its descriptor. -/
theorem readCall_table {descs descs' : DescTable} {fd : Word} {result : ReadResult}
    (h : readCall img fd buf nbytes descs = some (result, descs')) :
    descs' = descs ∨ ∃ i pos, fdIndex fd = some i ∧
      descs' = Function.update descs i { descs i with filePos := pos } := by
  rw [readCall] at h
  split at h
  · cases h
    exact Or.inl rfl
  · rename_i i hfd
    split_ifs at h
    · cases h
      exact Or.inl rfl
    · cases h
      exact Or.inl rfl
    · split at h
      · cases h
      · obtain ⟨pos, hpos⟩ := filesystemRead_table h
        exact Or.inr ⟨i, pos, hfd, hpos⟩
      · cases h
        exact Or.inl rfl

/-- A newly opened descriptor of a regular file is at the start of the file. -/
theorem openedDesc_regular {entry : Dentry} (hfree : desc.flags = 0#32)
    (h : Regular img (openedDesc entry desc)) : (openedDesc entry desc).filePos = 0#32 := by
  rw [openedDesc] at h ⊢
  split_ifs with h0 h1 h2 <;> try rfl
  rw [if_neg h0, if_neg h1, if_neg h2] at h
  exact absurd hfree h.1

/-- What `open` does to the table. -/
theorem openCall_cases {filename : Buffer} {descs descs' : DescTable} {opened : Option (Fin 8)}
    (h : openCall img filename descs = some (opened, descs')) :
    (opened = none ∧ descs' = descs) ∨
    ∃ fd entry, opened = some fd ∧ 2 ≤ fd.val ∧ (descs fd).flags = 0#32 ∧
      descs' = Function.update descs fd (openedDesc entry (descs fd)) := by
  rw [openCall] at h
  split at h
  · cases h
    exact Or.inl ⟨rfl, rfl⟩
  · rename_i entry hentry
    split at h
    · cases h
      exact Or.inl ⟨rfl, rfl⟩
    · rename_i fd hfd
      obtain ⟨ops, -, h⟩ := Option.map_eq_some_iff.mp h
      cases h
      have hmem : ∀ j ∈ ([2, 3, 4, 5, 6, 7] : List (Fin 8)), 2 ≤ j.val := by decide
      have hflags := List.find?_some hfd
      exact Or.inr ⟨fd, entry, rfl, hmem fd (List.mem_of_find?_eq_some hfd),
        by simpa using hflags, rfl⟩

/-- What `close` does to the table. -/
theorem closeCall_cases (fd : Word) (descs : DescTable) :
    (closeCall fd descs = (-1#32, descs) ∧
      ∀ i, fdIndex fd = some i → i.val < 2 ∨ (descs i).flags = 0#32) ∨
    ∃ i, fdIndex fd = some i ∧ 2 ≤ i.val ∧ (descs i).flags ≠ 0#32 ∧
      closeCall fd descs = (0#32, Function.update descs i { descs i with flags := 0#32 }) := by
  rw [closeCall]
  cases fdIndex fd with
  | none => exact Or.inl ⟨rfl, fun _ h => by cases h⟩
  | some i =>
    by_cases hlow : i.val < 2
    · refine Or.inl ⟨if_pos hlow, ?_⟩
      rintro _ ⟨⟩
      exact Or.inl hlow
    · by_cases hfree : (descs i).flags = 0#32
      · refine Or.inl ⟨(if_neg hlow).trans (if_pos hfree), ?_⟩
        rintro _ ⟨⟩
        exact Or.inr hfree
      · exact Or.inr ⟨i, rfl, not_lt.mp hlow, hfree, (if_neg hlow).trans (if_neg hfree)⟩

/-- A read keeps everything of every descriptor but its position. -/
theorem readCall_kept {descs descs' : DescTable} {fd : Word} {result : ReadResult}
    (h : readCall img fd buf nbytes descs = some (result, descs')) (j : Fin 8) :
    ∃ pos, descs' j = { descs j with filePos := pos } := by
  rcases readCall_table h with rfl | ⟨i, pos, -, rfl⟩
  · exact ⟨(descs' j).filePos, rfl⟩
  · by_cases hj : j = i
    · subst hj
      exact ⟨pos, Function.update_self _ _ _⟩
    · exact ⟨(descs j).filePos, Function.update_of_ne hj _ _⟩

end

/-- A read returns the bytes from the position on, and moves the position behind them. -/
theorem InOrderAt.read {img : FsImage} {desc : FilesysDesc} {returned : List Byte} {ended : Bool}
    (h : InOrderAt img desc returned ended)
    (hlen : (img.fileLength desc.inodePtr).toNat < 1023 * 4096) (buf : Buffer) (nbytes : Word) :
    let pos := desc.filePos.toNat
    let m := min nbytes.toNat ((img.fileLength desc.inodePtr).toNat - pos)
    InOrderAt img { desc with filePos := BitVec.ofNat 32 (pos + m) }
      (returned ++
        (buf.overwrite (fun j => img.fileByte desc.inodePtr (pos + j)) m).bytesOf 0 m)
      (ended || decide (nbytes ≠ 0#32 ∧ BitVec.ofNat 32 m = 0#32)) := by
  intro pos m
  have hle := h.filePos_le
  have hpos : (BitVec.ofNat 32 (pos + m)).toNat = pos + m := FsImage.toNat_ofNat_of_lt (by omega)
  refine ⟨?_, ?_, fun hend => ?_⟩
  · show _ = firstBytes img desc.inodePtr (BitVec.ofNat 32 (pos + m)).toNat
    rw [hpos, h.returned, firstBytes, firstBytes, Buffer.bytesOf_add, Nat.zero_add]
    congr 1
    refine Buffer.bytesOf_congr _ _ _ fun i hi => ?_
    rw [Nat.zero_add, Buffer.overwrite_of_lt _ _ _ hi]
  · show (BitVec.ofNat 32 (pos + m)).toNat ≤ (img.fileLength desc.inodePtr).toNat
    omega
  · show (BitVec.ofNat 32 (pos + m)).toNat = (img.fileLength desc.inodePtr).toNat
    rcases Bool.or_eq_true_iff.mp hend with hend | hend
    · have hat := h.ended hend
      omega
    · -- nothing was left of a nonempty request
      obtain ⟨hne, hzero⟩ := of_decide_eq_true hend
      have hval := congrArg BitVec.toNat hzero
      rw [FsImage.toNat_ofNat_of_lt (by omega)] at hval
      have hne' : nbytes.toNat ≠ 0 := fun h => hne (BitVec.eq_of_toNat_eq h)
      have h0 : (0#32 : Word).toNat = 0 := rfl
      omega

/-- The invariant of the runs: every regular descriptor is in order, and standard output is none. -/
structure Streams (img : FsImage) (s : FileState) : Prop where
  inOrder : InOrder img s
  stdout : ∀ p, ¬ Regular img (s.descs p 1)

namespace Streams

variable {img : FsImage} {s s' : FileState} {p : Pid} {filename buf : Buffer} {fd nbytes : Word}

/-- A call of one process leaves the descriptors of the others alone. -/
theorem change (h : Streams img s)
    (hother : ∀ q, q ≠ p → s'.descs q = s.descs q ∧ s'.returned q = s.returned q ∧
      s'.ended q = s.ended q)
    (hself : ∀ j, Regular img (s'.descs p j) →
      InOrderAt img (s'.descs p j) (s'.returned p j) (s'.ended p j))
    (hstdout : ¬ Regular img (s'.descs p 1)) : Streams img s' where
  inOrder q j hreg := by
    by_cases hq : q = p
    · subst hq
      exact hself j hreg
    · obtain ⟨hdescs, hreturned, hended⟩ := hother q hq
      rw [hdescs] at hreg ⊢
      rw [hreturned, hended]
      exact h.inOrder q j hreg
  stdout q := by
    by_cases hq : q = p
    · subst hq
      exact hstdout
    · rw [(hother q hq).1]
      exact h.stdout q

theorem afterOpen (h : Streams img s)
    (hstep : fileStep img s (.openCall p filename) = some s') :
    Streams img s' := by
  obtain ⟨⟨opened, descs⟩, hcall, rfl⟩ := Option.map_eq_some_iff.mp hstep
  rcases openCall_cases hcall with ⟨rfl, rfl⟩ | ⟨i, entry, rfl, hi, hfree, rfl⟩
  · have hsame : Function.update s.descs p (s.descs p) = s.descs := Function.update_eq_self p _
    simpa only [hsame, Option.elim_none] using h
  · refine h.change (p := p) (fun q hq => ?_) (fun j hreg => ?_) ?_
    · simp [hq]
    · by_cases hj : j = i
      · -- the new descriptor is at the start of its file and has returned nothing
        subst hj
        simp only [Function.update_self] at hreg
        have hpos := openedDesc_regular hfree hreg
        simp only [Function.update_self, Option.elim_some, FileState.set_self]
        refine ⟨?_, ?_, fun hend => absurd hend Bool.false_ne_true⟩
        · rw [hpos]
          rfl
        · rw [hpos]
          exact Nat.zero_le _
      · simp only [Function.update_self, Function.update_of_ne hj] at hreg
        simpa [hj] using h.inOrder p j hreg
    · have hne : (1 : Fin 8) ≠ i := by
        rintro rfl
        exact absurd hi (by decide)
      simpa [hne] using h.stdout p

theorem afterClose (h : Streams img s) (hstep : fileStep img s (.closeCall p fd) = some s') :
    Streams img s' := by
  cases hstep
  -- a descriptor is kept or marked free, and a free one is not regular
  have hregular : ∀ j, Regular img ((closeCall fd (s.descs p)).2 j) →
      (closeCall fd (s.descs p)).2 j = s.descs p j := by
    intro j hreg
    rcases closeCall_cases fd (s.descs p) with ⟨hcall, -⟩ | ⟨i, -, -, -, hcall⟩
    · rw [hcall]
    · rw [hcall] at hreg ⊢
      refine Function.update_of_ne ?_ _ _
      rintro rfl
      apply hreg.1
      dsimp only
      rw [Function.update_self]
  refine h.change (p := p) (fun q hq => by simp [hq]) (fun j hreg => ?_) fun hreg => ?_
  · simp only [Function.update_self] at hreg ⊢
    have hsame := hregular j hreg
    rw [hsame] at hreg ⊢
    exact h.inOrder p j hreg
  · simp only [Function.update_self] at hreg
    have hsame := hregular 1 hreg
    rw [hsame] at hreg
    exact h.stdout p hreg

theorem afterRead (himg : ValidInodes img) (h : Streams img s)
    (hstep : fileStep img s (.readCall p fd buf nbytes) = some s') : Streams img s' := by
  obtain ⟨⟨result, descs⟩, hcall, hs'⟩ := Option.map_eq_some_iff.mp hstep
  -- flags, operations and inode stay, so a descriptor is regular afterwards only if it was before
  have hregular : ∀ j, Regular img (descs j) → Regular img (s.descs p j) := by
    intro j hreg
    obtain ⟨pos, hpos⟩ := readCall_kept hcall j
    rw [hpos] at hreg
    exact hreg
  subst hs'
  refine h.change (p := p) (fun q hq => ?_) (fun j hreg => ?_) fun hreg => ?_
  · rw [FileState.record_descs, Function.update_of_ne hq]
    exact ⟨rfl, FileState.record_other _ _ _ _ _ _ hq⟩
  · rw [FileState.record_descs, Function.update_self] at hreg ⊢
    have hold := h.inOrder p j (hregular j hreg)
    by_cases hj : fdIndex fd = some j
    · -- the descriptor that is read
      have hj1 : j ≠ 1 := by
        rintro rfl
        exact h.stdout p (hregular 1 hreg)
      have hlen := (himg _ (hregular j hreg).2.2).1
      rw [(hregular j hreg).readCall_eq himg hj hj1 buf nbytes hold.filePos_le] at hcall
      cases hcall
      obtain ⟨hreturned, hended⟩ := FileState.record_value p j s fd nbytes _ hj
      rw [hreturned, hended, Function.update_self, if_neg (FsImage.ofNat_ne_neg_one (by omega)),
        FsImage.toNat_ofNat_of_lt (by omega)]
      exact hold.read hlen buf nbytes
    · -- another descriptor of the same process
      obtain ⟨hreturned, hended⟩ := FileState.record_of_ne p s fd nbytes result descs hj
      have hsame : descs j = s.descs p j := by
        rcases readCall_table hcall with rfl | ⟨i, pos, hi, rfl⟩
        · rfl
        · refine Function.update_of_ne ?_ _ _
          rintro rfl
          exact hj hi
      rw [hreturned, hended, hsame]
      exact hold
  · rw [FileState.record_descs, Function.update_self] at hreg
    exact h.stdout p (hregular 1 hreg)

/-- The invariant of a run. -/
theorem fileStep {e : FileEvent} (himg : ValidInodes img) (h : Streams img s)
    (hstep : fileStep img s e = some s') : Streams img s' := by
  cases e with
  | openCall p filename => exact h.afterOpen hstep
  | closeCall p fd => exact h.afterClose hstep
  | readCall p fd buf nbytes => exact h.afterRead himg hstep

/-- What the invariant says about the next read. -/
theorem readsToEnd (himg : ValidInodes img) (h : Streams img s) (e : FileEvent) :
    ReadsToEnd img s e := by
  cases e with
  | openCall p filename => trivial
  | closeCall p fd => trivial
  | readCall p fd buf nbytes =>
    intro i hi hreg
    have hold := h.inOrder p i hreg
    have hi1 : i ≠ 1 := by
      rintro rfl
      exact h.stdout p hreg
    have hlen := (himg _ hreg.2.2).1
    refine ⟨_, _, _, hreg.readCall_eq himg hi hi1 buf nbytes hold.filePos_le, ?_, fun hend => ?_⟩
    · intro hne hzero
      have hval := congrArg BitVec.toNat hzero
      rw [FsImage.toNat_ofNat_of_lt (by omega)] at hval
      have hne' : nbytes.toNat ≠ 0 := fun h => hne (BitVec.eq_of_toNat_eq h)
      have h0 : (0#32 : Word).toNat = 0 := rfl
      have hle := hold.filePos_le
      omega
    · rw [hold.ended hend, Nat.sub_self, Nat.min_zero]

end Streams

/-- The descriptors of newly launched processes, none of which has been read. -/
def launchedFiles (old : Pid → DescTable) : FileState where
  descs p := initDescs (old p)
  returned _ _ := []
  ended _ _ := false

theorem streams_launchedFiles (img : FsImage) (old : Pid → DescTable) :
    Streams img (launchedFiles old) := by
  have hregular : ∀ p i, ¬ Regular img ((launchedFiles old).descs p i) := by
    intro p i hreg
    rw [launchedFiles] at hreg
    simp only [initDescs] at hreg
    split_ifs at hreg
    · cases hreg.2.1
    · exact hreg.1 rfl
  exact ⟨fun p i hreg => absurd hreg (hregular p i), fun p => hregular p 1⟩

/-- In every run of opens, closes and reads by all processes, the reads of a descriptor of a regular
file have returned the bytes before its position, in order; and a read of at least one byte that
returns 0 is at the end of the file, where every later read returns 0. -/
theorem inOrder_and_readsToEnd {img : FsImage} (himg : ValidInodes img) (old : Pid → DescTable)
    (es : List FileEvent) :
    Always (fileStep img) (InOrder img) (launchedFiles old) es ∧
      Along (fileStep img) (ReadsToEnd img) (launchedFiles old) es := by
  have hall : Along (fileStep img) (fun _ _ => True) (launchedFiles old) es :=
    along_of_forall (P := fun _ => True) (fun _ _ => trivial) _
  have hstep : ∀ s e s', Streams img s → True → fileStep img s e = some s' → Streams img s' :=
    fun s e s' hs _ => hs.fileStep himg
  constructor
  · intro fs hfs s hs
    have halways := always_of_invariant hstep (streams_launchedFiles img old) hall
    exact (halways fs hfs s hs).inOrder
  · exact along_of_invariant hstep (fun s e hs _ => hs.readsToEnd himg e)
      (streams_launchedFiles img old) hall

/-- Only the first slots of the sample image are used. -/
theorem sampleImage_blockSlot {i n : ℕ} (hi : i < 3) (hn : 0 < n) (hn' : n < 1023) :
    sampleImage.blockSlot (BitVec.ofNat 32 i) (BitVec.ofNat 32 n) = 0#32 := by
  have hzero : ∀ a : Word, 4096 * (i + 1) + 8 ≤ a.toNat → a.toNat < 4096 * (i + 2) →
      sampleImage.mem a = 0#8 := by
    intro a hlow hhigh
    apply memoryOf_eq_zero
    have hlens : (ascii "shell").length = 5 ∧ (ascii "empty").length = 5 ∧
      (ascii "note").length = 4 ∧ (ascii "hello").length = 5 := by decide +kernel
    simp only [List.forall_mem_cons, List.length_cons, List.length_nil, List.length_append,
      List.length_replicate, hlens, elfMagic]
    refine ⟨?_, ?_, ?_, ?_, ?_, ?_, ?_, ?_, ?_, ?_, ?_, fun seg h => (List.not_mem_nil h).elim⟩ <;>
      omega
  have haddr : (sampleImage.inodePtr (BitVec.ofNat 32 i) +
      (BitVec.ofNat 32 n + 1#32) * 4#32).toNat = 4096 * (i + 1) + 4 * (n + 1) := by
    have hbase : sampleImage.inodePtrBase = 4096#32 := rfl
    rw [FsImage.inodePtr, hbase]
    simp only [BitVec.toNat_add, BitVec.toNat_mul, BitVec.toNat_ofNat]
    omega
  rw [FsImage.blockSlot, leWord]
  rw [hzero, hzero, hzero, hzero]
  · rfl
  all_goals (simp only [BitVec.toNat_add, haddr, BitVec.toNat_ofNat]; omega)

theorem validInodes_sampleImage : ValidInodes sampleImage := by
  have hfirst : ∀ i < 3, (sampleImage.fileLength (BitVec.ofNat 32 i)).toNat < 1023 * 4096 ∧
      0 ≤ (sampleImage.blockSlot (BitVec.ofNat 32 i) 0#32).toInt ∧
      (sampleImage.blockSlot (BitVec.ofNat 32 i) 0#32).toInt < 2 := by
    decide +kernel
  have hinodes : sampleImage.numOfInodes.toInt = 3 := by decide +kernel
  have hblocks : sampleImage.numOfBlocks.toInt = 2 := by decide +kernel
  intro inode hinode
  rw [hinodes] at hinode
  obtain ⟨hlen, hslot⟩ := hfirst inode.toNat (by omega)
  rw [BitVec.ofNat_toNat, BitVec.setWidth_eq] at hlen hslot
  refine ⟨hlen, fun n hn => ?_⟩
  rw [hblocks]
  rcases Nat.eq_zero_or_pos n with rfl | hpos
  · exact hslot
  · have hzero := sampleImage_blockSlot (i := inode.toNat) (by omega) hpos hn
    rw [BitVec.ofNat_toNat, BitVec.setWidth_eq] at hzero
    rw [hzero]
    decide

/-- Two processes read the same file, one of them to its end and then from a new descriptor. -/
theorem inOrder_and_readsToEnd_sample :
    Always (fileStep sampleImage) (InOrder sampleImage)
        (launchedFiles fun _ _ => ⟨none, 0#32, 0#32, 0#32⟩)
        [.openCall 3 (commandLine "note"), .openCall 4 (commandLine "note"),
          .readCall 3 2#32 (fun _ => 0#8) 3#32, .readCall 4 2#32 (fun _ => 0#8) 100#32,
          .readCall 4 2#32 (fun _ => 0#8) 1#32, .closeCall 4 2#32,
          .openCall 4 (commandLine "note"), .readCall 4 2#32 (fun _ => 0#8) 2#32] ∧
      Along (fileStep sampleImage) (ReadsToEnd sampleImage)
        (launchedFiles fun _ _ => ⟨none, 0#32, 0#32, 0#32⟩)
        [.openCall 3 (commandLine "note"), .openCall 4 (commandLine "note"),
          .readCall 3 2#32 (fun _ => 0#8) 3#32, .readCall 4 2#32 (fun _ => 0#8) 100#32,
          .readCall 4 2#32 (fun _ => 0#8) 1#32, .closeCall 4 2#32,
          .openCall 4 (commandLine "note"), .readCall 4 2#32 (fun _ => 0#8) 2#32] :=
  inOrder_and_readsToEnd validInodes_sampleImage _ _

end Ece391
