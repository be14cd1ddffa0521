import Ece391Os.Process.Execute

/-!
# Which programs load

`findProgram` and `loadProgram` in terms of the file they read.

* `loadFails_iff`: a program that was found fails to load exactly when its file is empty. The
  header check then saw bytes of the stack, not of the file (`hasMagic_of_empty`).
* `ValidShell img`: the file `shell` of the image is a program. `findProgram_shell` says that
  `execute("shell")` then finds it, whatever the stack holds and whatever follows the string.
-/

namespace Ece391

/-- The memory of `filename` after a command that is one word. -/
def nameBuffer (s : String) : Buffer := Buffer.overwrite (fun _ => 0#8) (cString s fun _ => 0#8)
  (ascii s).length

/-- The image has a program `shell`. -/
structure ValidShell (img : FsImage) : Prop where
  /-- The directory entry, and a file that starts with the ELF magic and is long enough for the
  header `execute` reads. -/
  exists_file : ∃ entry, img.readDentryByName (nameBuffer "shell") = some entry ∧
    ¬ img.BadBlock entry.inodeNum 0#32 ∧ 50 ≤ (img.fileLength entry.inodeNum).toNat ∧
    HasMagic (img.fileByte entry.inodeNum)

/-- Every file of the image that starts with the ELF magic holds the header `execute` reads and has
its blocks inside the image. -/
def ElfFilesValid (img : FsImage) : Prop :=
  ∀ i < img.entryCount, 4 ≤ (img.fileLength (img.dentry i).inodeNum).toNat →
    HasMagic (img.fileByte (img.dentry i).inodeNum) →
    50 ≤ (img.fileLength (img.dentry i).inodeNum).toNat ∧
      ∀ b < (img.fileLength (img.dentry i).inodeNum).toNat / 4096 + 1,
        0 ≤ (img.blockSlot (img.dentry i).inodeNum (BitVec.ofNat 32 b)).toInt ∧
        (img.blockSlot (img.dentry i).inodeNum (BitVec.ofNat 32 b)).toInt < img.numOfBlocks.toInt

instance (img : FsImage) : Decidable (ElfFilesValid img) :=
  inferInstanceAs (Decidable (∀ i < img.entryCount, _))

section

variable {img : FsImage} {cmd : Command} {stack page : Buffer} {prog : Program} {inode : Word}

theorem not_zero_gt (w : Word) : ¬ 0#32 > w := by
  rw [gt_iff_lt, BitVec.lt_def]
  exact Nat.not_lt_zero _

/-- A read from the start of a file whose first block is accepted. -/
theorem readData_start (hbad : ¬ img.BadBlock inode 0#32) (buf : Buffer) (length : Word) :
    img.readData inode 0#32 buf length =
      (BitVec.ofNat 32 (min length.toNat (img.fileLength inode).toNat),
        buf.overwrite (img.fileByte inode) (min length.toNat (img.fileLength inode).toNat)) := by
  rw [FsImage.readData_eq (not_zero_gt _) hbad]
  simp

theorem readData_ne_neg_one_iff (buf : Buffer) {length : Word} (hlen : length ≠ -1#32) :
    (img.readData inode 0#32 buf length).1 ≠ -1#32 ↔ ¬ img.BadBlock inode 0#32 := by
  constructor
  · intro h hbad
    exact h (by rw [FsImage.readData_badBlock (not_zero_gt _) hbad])
  · intro hbad h
    rw [readData_start hbad] at h
    -- the number of bytes read is at most the length asked for, which is not -1
    have hval := congrArg BitVec.toNat h
    have hlen' : length.toNat ≠ (-1#32 : Word).toNat := fun h => hlen (BitVec.eq_of_toNat_eq h)
    have hneg : (-1#32 : Word).toNat = 4294967295 := rfl
    have := length.isLt
    simp only [BitVec.toNat_ofNat] at hval
    omega

/-- The header `execute` reads is the first 50 bytes of a file that has them. -/
theorem readData_header (hbad : ¬ img.BadBlock inode 0#32)
    (hlong : 50 ≤ (img.fileLength inode).toNat) (buf : Buffer) :
    img.readData inode 0#32 buf 50#32 =
      (BitVec.ofNat 32 50, buf.overwrite (img.fileByte inode) 50) := by
  have hmin : min (50#32 : Word).toNat (img.fileLength inode).toNat = 50 := by
    have h50 : (50#32 : Word).toNat = 50 := rfl
    omega
  rw [readData_start hbad, hmin]

/-- With the first block accepted, loading fails exactly on an empty file. -/
theorem loadFails_iff_of_block (hbad : ¬ img.BadBlock inode 0#32) :
    LoadFails img inode page ↔ img.fileLength inode = 0#32 := by
  have hret : (loadProgram img inode page).1 =
      BitVec.ofNat 32 (min 3899392 (img.fileLength inode).toNat) := by
    rw [loadProgram, readData_start hbad]
    rfl
  -- a load of at most 3899392 bytes never returns -1
  have hlt : min 3899392 (img.fileLength inode).toNat < 4294967296 := by omega
  have hzero : img.fileLength inode = 0#32 ↔ (img.fileLength inode).toNat = 0 :=
    ⟨fun h => by rw [h]; rfl, fun h => BitVec.eq_of_toNat_eq h⟩
  rw [LoadFails, hret, hzero]
  constructor
  · rintro (h | h)
    · have hval := congrArg BitVec.toNat h
      have hneg : (-1#32 : Word).toNat = 4294967295 := rfl
      rw [FsImage.toNat_ofNat_of_lt hlt, hneg] at hval
      omega
    · have hval := congrArg BitVec.toNat h
      rw [FsImage.toNat_ofNat_of_lt hlt] at hval
      have h0 : (0#32 : Word).toNat = 0 := rfl
      omega
  · intro h
    right
    rw [h]
    rfl

/-- The checks a found program has passed. -/
theorem findProgram_eq_ok (h : findProgram img cmd stack = .ok prog) :
    ¬ (cmd.cmdLeng > 32 ∨ cmd.cmdLeng = 0) ∧
      strncmp (cString "clear" fun _ => 0#8) cmd.filename 5 ≠ 0 ∧
      ∃ entry, img.readDentryByName cmd.filename = some entry ∧ entry.inodeNum = prog.inodeNum ∧
        ¬ img.BadBlock prog.inodeNum 0#32 ∧
        HasMagic (img.readData prog.inodeNum 0#32 stack 50#32).2 := by
  rw [findProgram] at h
  split_ifs at h with hlen hclear
  refine ⟨hlen, hclear, ?_⟩
  cases hentry : img.readDentryByName cmd.filename with
  | none => simp [hentry] at h
  | some entry =>
    simp only [hentry] at h
    split_ifs at h with hret hmagic
    cases h
    exact ⟨entry, rfl, rfl, (readData_ne_neg_one_iff stack (by decide)).mp hret,
      hmagic⟩

/-- The entry point of a file that is long enough for the header is the word at its byte 24. -/
theorem progEip_of_findProgram (h : findProgram img cmd stack = .ok prog)
    (hlong : 50 ≤ (img.fileLength prog.inodeNum).toNat) :
    prog.progEip = Buffer.leWord (img.fileByte prog.inodeNum) 24 := by
  obtain ⟨-, -, entry, hentry, hinode, hbad, -⟩ := findProgram_eq_ok h
  rw [findProgram] at h
  split_ifs at h with hlen hclear
  simp only [hentry, hinode, readData_header hbad hlong] at h
  split_ifs at h with hret hmagic
  rw [← Except.ok.inj h]
  exact Buffer.leWord_overwrite _ _ _ _ (by decide)

/-- What a load leaves in the page of a file whose first block is accepted. -/
theorem loadProgram_eq (hbad : ¬ img.BadBlock inode 0#32) :
    (loadProgram img inode page).2 = page.splice progImageOffset (img.fileByte inode)
      (min 3899392 (img.fileLength inode).toNat) := by
  rw [loadProgram, readData_start hbad]
  generalize progImageOffset = start
  generalize img.fileByte inode = file
  have hsize : (3899392#32 : Word).toNat = 3899392 := rfl
  rw [hsize]
  generalize min 3899392 (img.fileLength inode).toNat = n
  funext j
  show (if j < start then page j else
    Buffer.overwrite (fun j => page (start + j)) file n (j - start)) = page.splice start file n j
  unfold Buffer.splice Buffer.overwrite
  split_ifs with hlow hin hin hin
  · omega
  · rfl
  · rfl
  · omega
  · omega
  · exact congrArg page (Nat.add_sub_cancel' (Nat.not_lt.mp hlow))

/-- A program that was found fails to load exactly when its file is empty. -/
theorem loadFails_iff (h : findProgram img cmd stack = .ok prog) :
    LoadFails img prog.inodeNum page ↔ img.fileLength prog.inodeNum = 0#32 := by
  obtain ⟨-, -, entry, -, -, hbad, -⟩ := findProgram_eq_ok h
  exact loadFails_iff_of_block hbad

/-- `execute` accepts the command as the name of a program whose file has no bytes: the fifty
bytes of stack it takes for the header hold the ELF magic, which an earlier call has left there. -/
def NamesEmptyFile (img : FsImage) (cmd : Command) (stack : Buffer) : Prop :=
  cmd.cmdLeng ≠ 0 ∧ cmd.cmdLeng ≤ 32 ∧
    strncmp (cString "clear" fun _ => 0#8) cmd.filename 5 ≠ 0 ∧ HasMagic stack ∧
    ∃ entry, img.readDentryByName cmd.filename = some entry ∧
      img.fileLength entry.inodeNum = 0#32 ∧ ¬ img.BadBlock entry.inodeNum 0#32

/-- The failed loads of `execute` are those of empty files. -/
theorem namesEmptyFile_iff (page : Buffer) :
    NamesEmptyFile img cmd stack ↔
      ∃ prog, findProgram img cmd stack = .ok prog ∧ LoadFails img prog.inodeNum page := by
  constructor
  · rintro ⟨hpos, hle, hclear, hmagic, entry, hentry, hempty, hbad⟩
    -- nothing is read, and the header is what the stack held
    have hheader : (img.readData entry.inodeNum 0#32 stack 50#32).2 = stack := by
      rw [readData_start hbad, hempty]
      simp
    have hret := (readData_ne_neg_one_iff stack (by decide : 50#32 ≠ -1#32)).mpr hbad
    refine ⟨⟨entry.inodeNum, stack.leWord 24⟩, ?_, (loadFails_iff_of_block hbad).mpr hempty⟩
    rw [findProgram, if_neg (by omega), if_neg hclear]
    simp only [hentry, hret, hheader, hmagic, not_true_eq_false, if_false]
  · rintro ⟨prog, hfind, hload⟩
    have hempty := (loadFails_iff hfind).mp hload
    obtain ⟨hlen, hclear, entry, hentry, hinode, hbad, hmagic⟩ := findProgram_eq_ok hfind
    rw [readData_start hbad, hempty] at hmagic
    refine ⟨by omega, by omega, hclear, by simpa using hmagic, entry, hentry, ?_, ?_⟩
    · rw [hinode, hempty]
    · rwa [hinode]

end

/-! ## The shell -/

/-- A command that is one word: what follows its NUL does not change the name. -/
theorem parseCommand_word {s : String} {rest : Buffer} {cmd : Command}
    (hs : ∀ b ∈ ascii s, endsName b = false) (h : parseCommand (cString s rest) = some cmd) :
    cmd.cmdLeng = (ascii s).length ∧ cmd.filename = nameBuffer s := by
  obtain ⟨hn, -, hname, -⟩ := parseCommand_eq_some h
  obtain ⟨-, hend, hfirst⟩ := Buffer.scan_eq_some.mp hn
  have hbyte : ∀ rest j, (hj : j < (ascii s).length) → cString s rest j = (ascii s)[j] := by
    intro rest j hj
    rw [cString, Buffer.ofList, List.getD_eq_getElem?_getD, List.getElem?_append_left hj,
      List.getElem?_eq_getElem hj, Option.getD_some]
  have hnul : cString s rest (ascii s).length = 0#8 := by
    rw [cString, Buffer.ofList, List.getD_eq_getElem?_getD]
    simp
  -- the scan stops at the NUL, and at no byte of the word
  have hlen : cmd.cmdLeng = (ascii s).length := by
    rcases Nat.lt_trichotomy cmd.cmdLeng (ascii s).length with hlt | heq | hgt
    · rw [hbyte rest _ hlt, hs _ (List.getElem_mem hlt)] at hend
      exact absurd hend Bool.false_ne_true
    · exact heq
    · exact absurd (by rw [hnul]; rfl) (hfirst _ hgt)
  refine ⟨hlen, ?_⟩
  rw [hname, hlen, nameBuffer]
  funext j
  by_cases hj : j < (ascii s).length
  · rw [Buffer.overwrite_of_lt _ _ _ hj, Buffer.overwrite_of_lt _ _ _ hj, hbyte _ _ hj,
      hbyte _ _ hj]
  · rw [Buffer.overwrite_of_le _ _ _ (Nat.not_lt.mp hj),
      Buffer.overwrite_of_le _ _ _ (Nat.not_lt.mp hj)]

/-- `execute("shell")` finds the shell of a valid image, and it loads. -/
theorem findProgram_shell {img : FsImage} (hshell : ValidShell img) {rest : Buffer} {cmd : Command}
    (h : parseCommand (cString "shell" rest) = some cmd) (stack : Buffer) :
    ∃ prog, findProgram img cmd stack = .ok prog ∧
      ∀ page, ¬ LoadFails img prog.inodeNum page := by
  obtain ⟨hlen, hname⟩ := parseCommand_word (by decide +kernel) h
  have hfive : (ascii "shell").length = 5 := by decide +kernel
  have hclear : strncmp (cString "clear" fun _ => 0#8) (nameBuffer "shell") 5 ≠ 0 := by
    decide +kernel
  obtain ⟨entry, hentry, hbad, hlong, hmagic⟩ := hshell.exists_file
  have hret := (readData_ne_neg_one_iff stack (by decide : 50#32 ≠ -1#32)).mpr hbad
  -- the header lies inside the file, which starts with the magic
  have hheader : HasMagic (img.readData entry.inodeNum 0#32 stack 50#32).2 := by
    rw [readData_header hbad hlong, HasMagic, ← hmagic]
    exact Buffer.bytesOf_congr _ _ _ fun j hj => Buffer.overwrite_of_lt _ _ _ (by omega)
  refine ⟨⟨entry.inodeNum, (img.readData entry.inodeNum 0#32 stack 50#32).2.leWord 24⟩, ?_,
    fun page => ?_⟩
  · rw [findProgram, hname, hlen, hfive, if_neg (by omega), if_neg hclear]
    simp only [hentry, hret, hheader, not_true_eq_false, if_false]
  · rw [loadFails_iff_of_block hbad]
    intro hzero
    rw [hzero] at hlong
    exact absurd hlong (by decide)

end Ece391
