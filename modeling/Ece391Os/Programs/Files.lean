import Ece391Os.FileSystem.DescriptorTable
import Ece391Os.FileSystem.Directory
import Ece391Os.FileSystem.ReadData
import Ece391Os.Grep.Support

/-!
# Files as programs see them

The file calls of the C library of the programs, over the descriptors of the process.

* `ece391Open`, `ece391Read`, `ece391Write` and `ece391Close` return what the system calls leave in
  `eax`. What is written to the terminal is listed.
* `Unread`: a descriptor of a regular file, and what has not been read of it; the clock has nothing
  to read. A file that has been opened is unread (`unread_open`), and a read takes the next bytes
  (`Unread.read`).
* `Listing`: a descriptor of the directory, and the number of its next entry. `Listing.read` is for
  names that a program can get whole (`NameFits`), and `Listing.read_end` is behind the last one.
-/

namespace Ece391

/-- A descriptor number as a program has it. -/
def fdWord (i : Fin 8) : Word := BitVec.ofNat 32 i.val

/-- `ece391_open` -/
def ece391Open (img : FsImage) (filename : Buffer) (descs : DescTable) :
    Option (Word × DescTable) :=
  (openCall img filename descs).map fun (opened, descs) => (opened.elim (-1#32) fdWord, descs)

/-- `ece391_read` of a file or of the clock, whose read function returns 0 at the next tick. -/
def ece391Read (img : FsImage) (fd : Word) (buf : Buffer) (nbytes : Word) (descs : DescTable) :
    Option (Word × Buffer × DescTable) :=
  match readCall img fd buf nbytes descs with
  | some (.value ret buf, descs) => some (ret, buf, descs)
  | some (.device .rtc, descs) => some (0#32, buf, descs)
  | _ => none

/-- `ece391_write` to a file or to the terminal: the value, and what the terminal gets. -/
def ece391Write (fd : Word) (buf : Buffer) (cnt : Word) (descs : DescTable) :
    Option (Word × List Byte) :=
  match writeCall fd descs with
  | some (.value ret, _) => some (ret, [])
  | some (.device .terminal, _) => some (0#32, buf.bytesOf 0 cnt.toInt.toNat)
  | _ => none

/-- `ece391_close` -/
def ece391Close (fd : Word) (descs : DescTable) : Word × DescTable := closeCall fd descs

/-- `ece391_fdputs(1, ...)` of a string literal, whose length `ece391_strlen` finds: what the
terminal gets. The value of the write is dropped. -/
def putLiteral (text : String) (descs : DescTable) : List Byte :=
  ((ece391Write 1#32 (cString text fun _ => 0#8) (BitVec.ofNat 32 (ascii text).length)
    descs).map Prod.snd).getD []

variable {img : FsImage} {descs descs' : DescTable} {i j : Fin 8} {filename : Buffer}
  {entry : Dentry} {name rest : List Byte} {k : ℕ}

@[simp]
theorem fdIndex_fdWord (i : Fin 8) : fdIndex (fdWord i) = some i := by
  have hval : (fdWord i).toNat = i.val := FsImage.toNat_ofNat_of_lt (by omega)
  rw [fdIndex, dif_pos (hval.trans_lt i.isLt)]
  exact congrArg some (Fin.ext hval)

/-- No descriptor is the value of a call that fails. -/
theorem fdWord_ne (i : Fin 8) : fdWord i ≠ -1#32 := FsImage.ofNat_ne_neg_one (by omega)

/-- What is written to standard output goes to the terminal. -/
theorem ece391Write_stdout (h : descs 1 = terminalDesc) (buf : Buffer) (cnt : Word) :
    ece391Write 1#32 buf cnt descs = some (0#32, buf.bytesOf 0 cnt.toInt.toNat) := by
  have hfd : fdIndex 1#32 = some 1 := fdIndex_fdWord 1
  have hcall : writeCall 1#32 descs = some (.device .terminal, descs) := by
    simp [writeCall, hfd, h, terminalDesc]
  rw [ece391Write, hcall]

theorem putLiteral_eq (h : descs 1 = terminalDesc) {text : String}
    (hlen : (ascii text).length < 2147483648) : putLiteral text descs = ascii text := by
  rw [putLiteral, ece391Write_stdout h, FsImage.toInt_ofNat_of_lt hlen, Int.toNat_natCast,
    Option.map_some, Option.getD_some, cString, Buffer.ofList_append, Buffer.bytesOf_ofList]

/-! ## Opening and closing -/

/-- The lookup of the name of an entry finds the first entry of that name. -/
theorem readDentryByName_eq_some (hs : Spells filename name) (hfirst : img.FirstNamed name k) :
    img.readDentryByName filename = some (img.dentry k) := by
  have hlen : name.length ≤ 32 := by
    rw [← hfirst.named]
    exact (length_stringOf_spec _ 32).1
  have hstring : stringOf filename 32 = name := by
    rw [hs.stringOf_eq, List.take_of_length_le hlen]
  have hfind : img.findEntry filename img.entryCount 0 = k :=
    FsImage.findEntry_eq (hstring ▸ hfirst)
  rw [FsImage.readDentryByName, hfind]
  exact if_pos hfirst.lt

/-- The lookup of a name fails if no entry has its first 32 bytes for a name. -/
theorem readDentryByName_eq_none (hs : Spells filename name)
    (hmissing : ∀ i < img.entryCount, img.entryString i ≠ name.take 32) :
    img.readDentryByName filename = none := by
  rw [← hs.stringOf_eq] at hmissing
  rw [FsImage.readDentryByName, FsImage.findEntry_eq_entryCount hmissing]
  exact if_neg (lt_irrefl _)

/-- `open` of a file that exists, with a free descriptor. -/
theorem ece391Open_eq (hname : img.readDentryByName filename = some entry)
    (htype : entry.filetype = 0#32 ∨ entry.filetype = 1#32 ∨ entry.filetype = 2#32)
    (hfree : freeDesc descs = some i) :
    ece391Open img filename descs =
      some (fdWord i, Function.update descs i (openedDesc entry (descs i))) := by
  obtain ⟨-, -, hops⟩ := openedDesc_spec (descs i) htype
  simp [ece391Open, openCall, hname, hfree, hops]

/-- `open` of a file that does not exist. -/
theorem ece391Open_none (hname : img.readDentryByName filename = none) (descs : DescTable) :
    ece391Open img filename descs = some (-1#32, descs) := by
  simp [ece391Open, openCall, hname]

/-- The first descriptor that is given out is 2. -/
theorem freeDesc_initDescs (old : DescTable) : freeDesc (initDescs old) = some 2 := rfl

/-- `close` frees an open descriptor of a file. -/
theorem ece391Close_eq (hi : 2 ≤ i.val) (hopen : IsOpen descs i) :
    ece391Close (fdWord i) descs =
      (0#32, Function.update descs i { descs i with flags := 0#32 }) := by
  rw [ece391Close, closeCall, fdIndex_fdWord]
  exact (if_neg (not_lt.mpr hi)).trans (if_neg hopen)

/-! ## Regular files and the clock -/

/-- The descriptor is that of an open regular file with these bytes from its position to its end,
or that of the clock, which has none. -/
inductive Unread (img : FsImage) (descs : DescTable) (i : Fin 8) : List Byte → Prop
  | file (htwo : 2 ≤ i.val) (hregular : Regular img (descs i))
      (hpos : (descs i).filePos.toNat ≤ (img.fileLength (descs i).inodePtr).toNat) :
      Unread img descs i ((img.contents (descs i).inodePtr).drop (descs i).filePos.toNat)
  | clock (htwo : 2 ≤ i.val) (hopen : IsOpen descs i)
      (hops : (descs i).fileOpsTablePtr = some .rtc) : Unread img descs i []

theorem length_contents (img : FsImage) (inode : Word) :
    (img.contents inode).length = (img.fileLength inode).toNat := by
  rw [FsImage.contents_eq, Buffer.length_bytesOf]

/-- The bytes of a regular file, none for the clock. -/
def entryText (img : FsImage) (entry : Dentry) : List Byte :=
  if entry.filetype = 2#32 then img.contents entry.inodeNum else []

/-- The entry is that of the clock, or of a regular file. -/
def IsStream (img : FsImage) (entry : Dentry) : Prop :=
  entry.filetype = 0#32 ∨
    (entry.filetype = 2#32 ∧ (entry.inodeNum.toNat : ℤ) < img.numOfInodes.toInt)

instance (img : FsImage) (entry : Dentry) : Decidable (IsStream img entry) :=
  inferInstanceAs (Decidable (_ ∨ _))

/-- Nothing of a newly opened file has been read. -/
theorem unread_open (hname : img.readDentryByName filename = some entry)
    (hentry : IsStream img entry) (hfree : freeDesc descs = some i) :
    ∃ descs', ece391Open img filename descs = some (fdWord i, descs') ∧
      Unread img descs' i (entryText img entry) ∧ ∀ j, j ≠ i → descs' j = descs j := by
  have htwo := (freeDesc_eq_some hfree).1
  have hopened : (1#32 : Word) ≠ 0#32 := by decide
  rcases hentry with htype | ⟨htype, hinode⟩
  · refine ⟨_, ece391Open_eq hname (Or.inl htype) hfree, ?_,
      fun _ hj => Function.update_of_ne hj _ _⟩
    have hdesc : openedDesc entry (descs i) =
        { fileOpsTablePtr := some .rtc, inodePtr := 0#32, filePos := 0#32, flags := 1#32 } := by
      simp [openedDesc, htype]
    rw [entryText, if_neg (by rw [htype]; decide), hdesc]
    refine .clock htwo ?_ ?_
    · rw [IsOpen, Function.update_self]
      exact hopened
    · rw [Function.update_self]
  · refine ⟨_, ece391Open_eq hname (Or.inr (Or.inr htype)) hfree, ?_,
      fun _ hj => Function.update_of_ne hj _ _⟩
    have hdesc : openedDesc entry (descs i) =
        { fileOpsTablePtr := some .fileSystem, inodePtr := entry.inodeNum, filePos := 0#32,
          flags := 1#32 } := by
      simp [openedDesc, htype]
    rw [entryText, if_pos htype, hdesc]
    -- the whole file lies behind position 0
    have hfile := @Unread.file img (Function.update descs i
      { fileOpsTablePtr := some .fileSystem, inodePtr := entry.inodeNum, filePos := 0#32,
        flags := 1#32 }) i htwo
    rw [Function.update_self] at hfile
    exact hfile ⟨hopened, rfl, hinode⟩ (Nat.zero_le _)

/-- The clock is opened first. -/
theorem open_clock (hrtc : img.FirstNamed (ascii "rtc") k)
    (htype : (img.dentry k).filetype = 0#32) (old : DescTable) :
    ∃ descs, ece391Open img (cString "rtc" fun _ => 0#8) (initDescs old) =
        some (fdWord 2, descs) ∧
      Unread img descs 2 [] ∧ ∀ j, j ≠ 2 → descs j = initDescs old j := by
  have hspells : Spells (cString "rtc" fun _ => 0#8) (ascii "rtc") :=
    spells_cString "rtc" (by decide) (by decide) _
  have hopen := unread_open (readDentryByName_eq_some hspells hrtc) (Or.inl htype)
    (freeDesc_initDescs old)
  have htext : entryText img (img.dentry k) = [] := by
    rw [entryText, htype]
    exact if_neg (by decide)
  rwa [htext] at hopen

namespace Unread

theorem two_le (h : Unread img descs i rest) : 2 ≤ i.val := by
  cases h with
  | file htwo => exact htwo
  | clock htwo => exact htwo

theorem isOpen (h : Unread img descs i rest) : IsOpen descs i := by
  cases h with
  | file _ hregular => exact hregular.1
  | clock _ hopen => exact hopen

theorem ne_one (h : Unread img descs i rest) : i ≠ 1 := by
  rintro rfl
  exact absurd h.two_le (by decide)

/-- Other descriptors do not matter. -/
theorem congr (h : Unread img descs i rest) (hdesc : descs' i = descs i) :
    Unread img descs' i rest := by
  cases h with
  | file htwo hregular hpos =>
    rw [← hdesc] at hregular hpos ⊢
    exact .file htwo hregular hpos
  | clock htwo hopen hops =>
    rw [← hdesc] at hops
    rw [IsOpen, ← hdesc] at hopen
    exact .clock htwo hopen hops

/-- A read returns the next bytes, as many as are asked for and left. -/
theorem read (himg : ValidInodes img) (h : Unread img descs i rest) (buf : Buffer)
    (nbytes : Word) :
    ∃ descs', ece391Read img (fdWord i) buf nbytes descs =
        some (BitVec.ofNat 32 (min nbytes.toNat rest.length),
          buf.overwrite (Buffer.ofList rest fun _ => 0#8) (min nbytes.toNat rest.length),
          descs') ∧
      Unread img descs' i (rest.drop nbytes.toNat) ∧ ∀ j, j ≠ i → descs' j = descs j := by
  have hi := h.ne_one
  cases h with
  | clock htwo hopen hops =>
    refine ⟨descs, ?_, ?_, fun j _ => rfl⟩
    · have hopen' : (descs i).flags ≠ 0#32 := hopen
      simp [ece391Read, readCall, hi, hopen', hops]
    · rw [List.drop_nil]
      exact .clock htwo hopen hops
  | file htwo hregular hpos =>
    set left := (img.contents (descs i).inodePtr).drop (descs i).filePos.toNat with hleft
    have hlen := (himg _ hregular.2.2).1
    have hcount : left.length =
        (img.fileLength (descs i).inodePtr).toNat - (descs i).filePos.toNat := by
      rw [hleft, List.length_drop, length_contents]
    have hcall := hregular.readCall_eq himg (fdIndex_fdWord i) hi buf nbytes hpos
    rw [← hcount] at hcall
    -- the bytes that are stored are the first ones of the rest
    have hbytes : buf.overwrite
          (fun j => img.fileByte (descs i).inodePtr ((descs i).filePos.toNat + j))
          (min nbytes.toNat left.length) =
        buf.overwrite (Buffer.ofList left fun _ => 0#8) (min nbytes.toNat left.length) := by
      refine Buffer.overwrite_congr _ _ _ fun j hj => ?_
      have hj' : j < left.length := by omega
      rw [Buffer.ofList_of_lt _ _ hj']
      simp only [hleft, List.getElem_drop, FsImage.contents_eq, Buffer.bytesOf,
        List.getElem_map, List.getElem_range, Nat.zero_add]
    rw [hbytes] at hcall
    set pos := (descs i).filePos.toNat + min nbytes.toNat left.length with hpos'
    have hval : (BitVec.ofNat 32 pos).toNat = pos := FsImage.toNat_ofNat_of_lt (by omega)
    refine ⟨Function.update descs i { descs i with filePos := BitVec.ofNat 32 pos }, ?_, ?_,
      fun j hj => Function.update_of_ne hj _ _⟩
    · rw [ece391Read, hcall]
    · have hrest : left.drop nbytes.toNat =
          (img.contents (descs i).inodePtr).drop (BitVec.ofNat 32 pos).toNat := by
        rw [hval, hpos', ← List.drop_drop, ← hleft]
        -- a request for more than is left
        rcases Nat.le_total nbytes.toNat left.length with hle | hle
        · rw [Nat.min_eq_left hle]
        · rw [Nat.min_eq_right hle, List.drop_of_length_le hle, List.drop_length]
      have hfile := @Unread.file img (Function.update descs i
        { descs i with filePos := BitVec.ofNat 32 pos }) i htwo
      rw [Function.update_self] at hfile
      rw [hrest]
      refine hfile hregular ?_
      show (BitVec.ofNat 32 pos).toNat ≤ (img.fileLength (descs i).inodePtr).toNat
      omega

end Unread

/-! ## The directory -/

/-- The descriptor is that of the directory, at entry `k`. -/
structure Listing (img : FsImage) (descs : DescTable) (i : Fin 8) (k : ℕ) : Prop where
  atNext : DirState.AtNext img i { descs, reads := k }
  le_numOfEntries : k ≤ img.numOfEntries.toNat

/-- The name of an entry is not empty, and ends inside its field or with a NUL right behind it. -/
structure NameFits (img : FsImage) (k : ℕ) : Prop where
  pos : 0 < (img.entryString k).length
  ends : (img.entryString k).length < 32 ∨ img.entryName k 32 = 0#8

instance (img : FsImage) (k : ℕ) : Decidable (NameFits img k) :=
  decidable_of_iff (0 < (img.entryString k).length ∧
    ((img.entryString k).length < 32 ∨ img.entryName k 32 = 0#8))
    ⟨fun h => ⟨h.1, h.2⟩, fun h => ⟨h.pos, h.ends⟩⟩

/-- Such a name is the string at its field. -/
theorem NameFits.spells (h : NameFits img k) : Spells (img.entryName k) (img.entryString k) := by
  have hlen : strlen (img.entryName k) = some (img.entryString k).length :=
    (strlen_eq_length_stringOf_iff (by decide)).mpr h.ends
  exact ⟨hlen, (stringOf_of_strlen_le hlen (length_stringOf_spec _ 32).1).symm⟩

/-- `open` of the directory. -/
theorem listing_open (hname : img.readDentryByName filename = some entry)
    (htype : entry.filetype = 1#32) (hfree : freeDesc descs = some i) :
    ∃ descs', ece391Open img filename descs = some (fdWord i, descs') ∧
      Listing img descs' i 0 ∧ ∀ j, j ≠ i → descs' j = descs j := by
  obtain ⟨-, -, hops⟩ := openedDesc_spec (descs i) (Or.inr (Or.inl htype))
  have hcall : openCall img filename descs =
      some (some i, Function.update descs i (openedDesc entry (descs i))) := by
    simp [openCall, hname, hfree, hops]
  refine ⟨_, ?_, ⟨atNext_openCall hname htype hcall, Nat.zero_le _⟩,
    fun _ hj => Function.update_of_ne hj _ _⟩
  rw [ece391Open, hcall]
  rfl

namespace Listing

theorem ne_one (h : Listing img descs i k) : i ≠ 1 := by
  rintro rfl
  exact absurd h.atNext.two_le (by decide)

theorem isOpen (h : Listing img descs i k) : IsOpen descs i := h.atNext.flags

theorem next_eq (h : Listing img descs i k) :
    DirState.next img { descs, reads := k } = k :=
  Nat.mod_eq_of_lt (Nat.lt_succ_of_le h.le_numOfEntries)

/-- Other descriptors do not matter. -/
theorem congr (h : Listing img descs i k) (hdesc : descs' i = descs i) :
    Listing img descs' i k := by
  refine ⟨⟨h.atNext.two_le, ?_, ?_, ?_, ?_⟩, h.le_numOfEntries⟩ <;> simp only [hdesc]
  · exact h.atNext.flags
  · exact h.atNext.fileOpsTablePtr
  · exact h.atNext.inodePtr
  · exact h.atNext.filePos

/-- A read of an entry returns its name, and goes on to the next one. -/
theorem read (h : Listing img descs i k) (hk : k < img.numOfEntries.toNat)
    (hname : NameFits img k) (buf : Buffer) (nbytes : Word) :
    ∃ descs', ece391Read img (fdWord i) buf nbytes descs =
        some (BitVec.ofNat 32 (img.entryString k).length,
          buf.overwrite (img.entryName k) (img.entryString k).length, descs') ∧
      Listing img descs' i (k + 1) ∧ ∀ j, j ≠ i → descs' j = descs j := by
  have hcall := h.atNext.readCall_eq ⟨buf, nbytes⟩
  rw [h.next_eq, if_pos hk, hname.spells.1, Option.map_some] at hcall
  refine ⟨Function.update descs i { descs i with filePos := (descs i).filePos + 1#32 }, ?_,
    ⟨h.atNext.dirStep (e := ⟨buf, nbytes⟩) ?_, hk⟩, fun j hj => Function.update_of_ne hj _ _⟩
  · rw [ece391Read, fdWord, hcall]
  · rw [dirStep, hcall, Option.map_some]

/-- Behind the last entry a read returns 0. -/
theorem read_end (h : Listing img descs i img.numOfEntries.toNat) (buf : Buffer)
    (nbytes : Word) :
    ∃ descs', ece391Read img (fdWord i) buf nbytes descs = some (0#32, buf, descs') ∧
      ∀ j, j ≠ i → descs' j = descs j := by
  have hcall := h.atNext.readCall_eq ⟨buf, nbytes⟩
  rw [h.next_eq, if_neg (lt_irrefl _)] at hcall
  refine ⟨Function.update descs i { descs i with filePos := 0#32 }, ?_,
    fun j hj => Function.update_of_ne hj _ _⟩
  rw [ece391Read, fdWord, hcall]

end Listing

/-! ## A disk -/

/-- An image with the directory, a program, the clock, and two files of text. -/
def diskImage : FsImage where
  filesystemBase := 0#32
  mem := memoryOf
    [(0, [5#8, 0#8, 0#8, 0#8, 3#8, 0#8, 0#8, 0#8, 3#8]),
      (64, ascii "."), (96, [1#8]),
      (128, ascii "shell"), (160, [2#8]),
      (192, ascii "rtc"),
      (256, ascii "frame0.txt"), (288, [2#8, 0#8, 0#8, 0#8, 1#8]),
      (320, ascii "frame1.txt"), (352, [2#8, 0#8, 0#8, 0#8, 2#8]),
      (4096, [52#8]), (8192, [5#8, 0#8, 0#8, 0#8, 1#8]), (12288, [3#8, 0#8, 0#8, 0#8, 2#8]),
      (16384, elfMagic ++ List.replicate 20 0#8 ++ [0x00#8, 0x80#8, 0x04#8, 0x08#8]),
      (20480, ascii "ab\nc\n"), (24576, ascii "a\nd")]

/-- Only the first slots of the image are used. -/
theorem diskImage_blockSlot {i n : ℕ} (hi : i < 3) (hn : 0 < n) (hn' : n < 1023) :
    diskImage.blockSlot (BitVec.ofNat 32 i) (BitVec.ofNat 32 n) = 0#32 := by
  have hzero : ∀ a : Word, 4096 * (i + 1) + 8 ≤ a.toNat → a.toNat < 4096 * (i + 2) →
      diskImage.mem a = 0#8 := by
    intro a hlow hhigh
    apply memoryOf_eq_zero
    have hlens : (ascii ".").length = 1 ∧ (ascii "shell").length = 5 ∧
      (ascii "rtc").length = 3 ∧ (ascii "frame0.txt").length = 10 ∧
      (ascii "frame1.txt").length = 10 ∧ (ascii "ab\nc\n").length = 5 ∧
      (ascii "a\nd").length = 3 := by decide +kernel
    simp only [List.forall_mem_cons, List.length_cons, List.length_nil, List.length_append,
      List.length_replicate, hlens, elfMagic]
    refine ⟨?_, ?_, ?_, ?_, ?_, ?_, ?_, ?_, ?_, ?_, ?_, ?_, ?_, ?_, ?_, ?_,
      fun seg h => (List.not_mem_nil h).elim⟩ <;> omega
  have haddr : (diskImage.inodePtr (BitVec.ofNat 32 i) +
      (BitVec.ofNat 32 n + 1#32) * 4#32).toNat = 4096 * (i + 1) + 4 * (n + 1) := by
    have hbase : diskImage.inodePtrBase = 4096#32 := rfl
    rw [FsImage.inodePtr, hbase]
    simp only [BitVec.toNat_add, BitVec.toNat_mul, BitVec.toNat_ofNat]
    omega
  rw [FsImage.blockSlot, leWord, hzero, hzero, hzero, hzero]
  · rfl
  all_goals (simp only [BitVec.toNat_add, haddr, BitVec.toNat_ofNat]; omega)

theorem validInodes_diskImage : ValidInodes diskImage := by
  have hfirst : ∀ i < 3, (diskImage.fileLength (BitVec.ofNat 32 i)).toNat < 1023 * 4096 ∧
      0 ≤ (diskImage.blockSlot (BitVec.ofNat 32 i) 0#32).toInt ∧
      (diskImage.blockSlot (BitVec.ofNat 32 i) 0#32).toInt < 3 := by
    decide +kernel
  have hinodes : diskImage.numOfInodes.toInt = 3 := by decide +kernel
  have hblocks : diskImage.numOfBlocks.toInt = 3 := by decide +kernel
  intro inode hinode
  rw [hinodes] at hinode
  obtain ⟨hlen, hslot⟩ := hfirst inode.toNat (by omega)
  rw [BitVec.ofNat_toNat, BitVec.setWidth_eq] at hlen hslot
  refine ⟨hlen, fun n hn => ?_⟩
  rw [hblocks]
  rcases Nat.eq_zero_or_pos n with rfl | hpos
  · exact hslot
  · have hzero := diskImage_blockSlot (i := inode.toNat) (by omega) hpos hn
    rw [BitVec.ofNat_toNat, BitVec.setWidth_eq] at hzero
    rw [hzero]
    decide

/-- The image in a kernel linked with zeros behind its arrays and strings. -/
def diskEnv : Env := { sampleEnv with img := diskImage }

end Ece391
