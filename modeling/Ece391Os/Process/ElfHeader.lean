import Ece391Os.Process.Boot

/-!
# The header check of `execute`

`execute` reads the first 50 bytes of a file into an array on its stack, and looks at bytes 0 to 3
and 24 to 27 of the array, without looking at how many bytes have been read.

* `findProgram_named`: the check of a file, as a function of the file and of what the stack holds.
* `ChecksFile`: only ELF files pass, the others make the call return -1 without a change of the
  processes, and the stack does not matter.
* `checksFile_iff`: this is so exactly for a file that has 28 bytes, or one that shows in the bytes
  it has that it is no ELF file; should it be refused, the message has to fit on the page.
-/

namespace Ece391

/-- A file with a whole entry point that begins with the ELF magic. -/
def IsElf (img : FsImage) (inode : Word) : Prop :=
  28 ≤ (img.fileLength inode).toNat ∧ HasMagic (img.fileByte inode)

instance (img : FsImage) (inode : Word) : Decidable (IsElf img inode) :=
  inferInstanceAs (Decidable (_ ∧ _))

/-- The command comes to the header check of a file. -/
structure NamesFile (img : FsImage) (cmd : Command) (entry : Dentry) : Prop where
  cmdLeng : ¬ (cmd.cmdLeng > 32 ∨ cmd.cmdLeng = 0)
  notClear : strncmp (cString "clear" fun _ => 0#8) cmd.filename 5 ≠ 0
  entry : img.readDentryByName cmd.filename = some entry

/-- Whatever the stack holds: a file that passes is an ELF file, and its entry point is used; a file
that does not makes the call return -1, with the processes as they were. -/
structure ChecksFile (env : Env) (command : Buffer) (cmd : Command) (inode : Word) (k : Kernel) :
    Prop where
  accepts : ∀ stack prog, findProgram env.img cmd stack = .ok prog →
    IsElf env.img inode ∧ prog.inodeNum = inode ∧
      prog.progEip = Buffer.leWord (env.img.fileByte inode) 24
  refuses : ∀ stack e, findProgram env.img cmd stack = .error e →
    ∃ k', execute env command stack k = some (.exit e, k') ∧
      (ExecResult.exit e).retval = some (-1#32) ∧ k'.procs = k.procs
  decides : ∀ stack stack', findProgram env.img cmd stack = findProgram env.img cmd stack'

/-- The bytes of the file that lie in the magic are those of the magic. -/
def BeginsLikeElf (img : FsImage) (inode : Word) : Prop :=
  ∀ j < 4, j < (img.fileLength inode).toNat → img.fileByte inode j = elfMagic.getD j 0#8

instance (img : FsImage) (inode : Word) : Decidable (BeginsLikeElf img inode) :=
  inferInstanceAs (Decidable (∀ j < 4, _))

/-- `n` characters fit behind the cursor of the running process's terminal. -/
def Kernel.RoomFor (k : Kernel) (n : ℕ) : Prop :=
  0 ≤ k.con.cursorCell k.procs.currTerm ∧ k.con.cursorCell k.procs.currTerm + 2 * n ≤ 4096

/-- The file shows by itself whether it is an ELF file, and the message fits if it is none. -/
structure ShowsType (img : FsImage) (inode : Word) (k : Kernel) : Prop where
  header : ¬ img.BadBlock inode 0#32 →
    28 ≤ (img.fileLength inode).toNat ∨ ¬ BeginsLikeElf img inode
  readDataFail : img.BadBlock inode 0#32 → k.RoomFor 22
  notElf : ¬ img.BadBlock inode 0#32 → ¬ HasMagic (img.fileByte inode) → k.RoomFor 15

section

variable {env : Env} {img : FsImage} {command stack : Buffer} {cmd : Command} {entry : Dentry}
  {inode : Word} {k : Kernel} {e : ExecExit}

/-! ## What the check sees -/

theorem hasMagic_iff {header : Buffer} :
    HasMagic header ↔ ∀ j < 4, header j = elfMagic.getD j 0#8 := by
  -- the four comparisons of the source are an equality of lists
  have hlist : header.bytesOf 0 4 = [header 0, header 1, header 2, header 3] := rfl
  rw [HasMagic, hlist, elfMagic]
  constructor
  · intro h j hj
    injection h with h0 h
    injection h with h1 h
    injection h with h2 h
    injection h with h3
    interval_cases j <;> assumption
  · intro h
    rw [h 0 (by decide), h 1 (by decide), h 2 (by decide), h 3 (by decide)]
    rfl

/-- The array after `read_data`: the bytes of the file, and behind them what the stack held. -/
def headerOf (img : FsImage) (inode : Word) (stack : Buffer) : Buffer :=
  stack.overwrite (img.fileByte inode) (min 50 (img.fileLength inode).toNat)

/-- The check of a file. -/
theorem findProgram_named (h : NamesFile img cmd entry) (stack : Buffer) :
    findProgram img cmd stack =
      if img.BadBlock entry.inodeNum 0#32 then .error .readDataFail
      else if HasMagic (headerOf img entry.inodeNum stack) then
        .ok ⟨entry.inodeNum, (headerOf img entry.inodeNum stack).leWord 24⟩
      else .error .notElf := by
  rw [findProgram, if_neg h.cmdLeng, if_neg h.notClear]
  simp only [h.entry]
  by_cases hbad : img.BadBlock entry.inodeNum 0#32
  · rw [FsImage.readData_badBlock (not_zero_gt _) hbad]
    simp [hbad]
  · -- a first block that is not refused makes the read succeed
    have hret := (readData_ne_neg_one_iff stack (by decide : 50#32 ≠ -1#32)).mpr hbad
    rw [if_neg hret, if_neg hbad, readData_start hbad]
    split_ifs <;> first | rfl | contradiction

/-- A byte of the array that comes from the file. -/
theorem headerOf_of_lt {j : ℕ} (hj : j < 50) (hfile : j < (img.fileLength inode).toNat) :
    headerOf img inode stack j = img.fileByte inode j :=
  Buffer.overwrite_of_lt _ _ _ (by omega)

/-- A byte of the array that comes from the stack. -/
theorem headerOf_of_le {j : ℕ} (hfile : (img.fileLength inode).toNat ≤ j) :
    headerOf img inode stack j = stack j :=
  Buffer.overwrite_of_le _ _ _ (by omega)

/-- The magic of a file that has all its bytes. -/
theorem hasMagic_headerOf_iff (hlong : 28 ≤ (img.fileLength inode).toNat) :
    HasMagic (headerOf img inode stack) ↔ HasMagic (img.fileByte inode) := by
  rw [hasMagic_iff, hasMagic_iff]
  refine forall₂_congr fun j hj => ?_
  rw [headerOf_of_lt (by omega) (by omega)]

/-- A file with another byte in the magic is refused. -/
theorem not_hasMagic_headerOf (hno : ¬ BeginsLikeElf img inode) :
    ¬ HasMagic (headerOf img inode stack) := by
  intro hmagic
  refine hno fun j hj hfile => ?_
  have hbyte : headerOf img inode stack j = img.fileByte inode j :=
    headerOf_of_lt (by omega) hfile
  rw [← hbyte]
  exact hasMagic_iff.mp hmagic j hj

theorem beginsLikeElf_of_hasMagic (h : HasMagic (img.fileByte inode)) : BeginsLikeElf img inode :=
  fun j hj _ => hasMagic_iff.mp h j hj

/-- The stack supplies the bytes of the magic that the file does not have. -/
theorem hasMagic_headerOf_elfMagic (hbegins : BeginsLikeElf img inode) :
    HasMagic (headerOf img inode (Buffer.ofList elfMagic fun _ => 0#8)) := by
  refine hasMagic_iff.mpr fun j hj => ?_
  by_cases hfile : j < (img.fileLength inode).toNat
  · rw [headerOf_of_lt (by omega) hfile]
    exact hbegins j hj hfile
  · rw [headerOf_of_le (not_lt.mp hfile)]
    interval_cases j <;> rfl

/-! ## The refusals -/

/-- A line is printed exactly if there is room for it. -/
theorem Kernel.puts_line_eq_none_iff {l : List Byte} (hl : ∀ c ∈ l, Console.isNewline c = false)
    (hne : l ≠ []) : k.puts (l ++ [0x0A#8]) = none ↔ ¬ k.RoomFor l.length := by
  rw [Kernel.puts, Option.map_eq_none_iff, Console.puts_eq_none_iff,
    Screen.puts_line_eq_none_iff hl hne]
  rfl

/-- The message of a refusal has `n` characters. -/
theorem puts_message_eq_none_iff (he : e = .readDataFail ∨ e = .notElf) :
    (k.disableIrq 0#32).puts e.message = none ↔
      ¬ k.RoomFor (if e = .readDataFail then 22 else 15) := by
  obtain ⟨l, hl, hlen, hchars⟩ : ∃ l, e.message = l ++ [0x0A#8] ∧
      l.length = (if e = .readDataFail then 22 else 15) ∧
      ∀ c ∈ l, Console.isNewline c = false := by
    refine ⟨e.message.dropLast, ?_⟩
    rcases he with rfl | rfl <;> decide +kernel
  -- a message is not empty, so its room depends on its length
  have hne : l ≠ [] := by
    rintro rfl
    rcases he with rfl | rfl <;> cases hlen
  rw [hl, Kernel.puts_line_eq_none_iff hchars hne, hlen]
  rfl

/-- A refused call returns -1 and keeps the processes, if it can print its message. -/
theorem refuses_iff (hcmd : parseCommand command = some cmd)
    (hfind : findProgram env.img cmd stack = .error e) (he : e = .readDataFail ∨ e = .notElf) :
    (∃ k', execute env command stack k = some (.exit e, k') ∧
        (ExecResult.exit e).retval = some (-1#32) ∧ k'.procs = k.procs) ↔
      k.RoomFor (if e = .readDataFail then 22 else 15) := by
  have hclear : e ≠ .clear := by rcases he with rfl | rfl <;> decide
  have hexec : execute env command stack k =
      ((k.disableIrq 0#32).puts e.message).map fun k => (.exit e, k) := by
    simp only [execute, hcmd, hfind, exitEarly, if_neg hclear, Option.bind_eq_bind,
      Option.bind_some]
  rw [← not_iff_not, ← puts_message_eq_none_iff he, hexec]
  cases hputs : (k.disableIrq 0#32).puts e.message with
  | none => simp
  | some k' =>
    -- printing and unmasking leave the processes
    have hprocs : k'.procs = k.procs := (procs_puts hputs).trans (Kernel.procs_disableIrq k _)
    refine iff_of_false (not_not.mpr ⟨k', rfl, ?_, hprocs⟩) (by simp)
    rcases he with rfl | rfl <;> rfl

end

section

variable {env : Env} {command : Buffer} {cmd : Command} {entry : Dentry} {k : Kernel}

/-- The result of the check of a file that shows its type. -/
theorem findProgram_showsType (hfile : NamesFile env.img cmd entry)
    (hshows : ShowsType env.img entry.inodeNum k) (stack : Buffer) :
    findProgram env.img cmd stack =
      if env.img.BadBlock entry.inodeNum 0#32 then .error .readDataFail
      else if IsElf env.img entry.inodeNum then
        .ok ⟨entry.inodeNum, Buffer.leWord (env.img.fileByte entry.inodeNum) 24⟩
      else .error .notElf := by
  rw [findProgram_named hfile]
  by_cases hbad : env.img.BadBlock entry.inodeNum 0#32
  · rw [if_pos hbad, if_pos hbad]
  · rw [if_neg hbad, if_neg hbad]
    rcases hshows.header hbad with hlong | hno
    · -- the bytes that are looked at come from the file
      by_cases hmagic : HasMagic (env.img.fileByte entry.inodeNum)
      · rw [if_pos ((hasMagic_headerOf_iff hlong).mpr hmagic), if_pos ⟨hlong, hmagic⟩, headerOf,
          Buffer.leWord_overwrite _ _ _ _ (by omega)]
      · rw [if_neg (mt (hasMagic_headerOf_iff hlong).mp hmagic), if_neg fun h => hmagic h.2]
    · -- a byte that comes from the file is not that of the magic
      rw [if_neg (not_hasMagic_headerOf hno),
        if_neg fun h => hno (beginsLikeElf_of_hasMagic h.2)]

theorem ShowsType.checksFile (hcmd : parseCommand command = some cmd)
    (hfile : NamesFile env.img cmd entry) (hshows : ShowsType env.img entry.inodeNum k) :
    ChecksFile env command cmd entry.inodeNum k := by
  have hfind := findProgram_showsType hfile hshows
  refine ⟨fun stack prog h => ?_, fun stack e h => ?_, fun stack stack' => by rw [hfind, hfind]⟩
  · rw [hfind] at h
    split_ifs at h with hbad helf
    cases h
    exact ⟨helf, rfl, rfl⟩
  · have herror := h
    rw [hfind] at h
    split_ifs at h with hbad helf
    · cases h
      exact (refuses_iff hcmd herror (Or.inl rfl)).mpr (hshows.readDataFail hbad)
    · cases h
      -- a file that begins with the magic and is no ELF file is short, and does not show it
      refine (refuses_iff hcmd herror (Or.inr rfl)).mpr (hshows.notElf hbad fun hmagic => ?_)
      rcases hshows.header hbad with hlong | hno
      · exact helf ⟨hlong, hmagic⟩
      · exact hno (beginsLikeElf_of_hasMagic hmagic)

theorem ChecksFile.showsType (hcmd : parseCommand command = some cmd)
    (hfile : NamesFile env.img cmd entry) (h : ChecksFile env command cmd entry.inodeNum k) :
    ShowsType env.img entry.inodeNum k := by
  have hnamed := findProgram_named hfile
  have hheader : ¬ env.img.BadBlock entry.inodeNum 0#32 →
      28 ≤ (env.img.fileLength entry.inodeNum).toNat ∨
        ¬ BeginsLikeElf env.img entry.inodeNum := by
    intro hbad
    by_contra hshort
    obtain ⟨hlen, hbegins⟩ := not_or.mp hshort
    -- with the magic on the stack, the short file passes
    have hpass := hnamed (Buffer.ofList elfMagic fun _ => 0#8)
    rw [if_neg hbad, if_pos (hasMagic_headerOf_elfMagic (not_not.mp hbegins))] at hpass
    exact hlen (h.accepts _ _ hpass).1.1
  refine ⟨hheader, fun hbad => ?_, fun hbad hmagic => ?_⟩
  · have hfind := hnamed fun _ => 0#8
    rw [if_pos hbad] at hfind
    exact (refuses_iff hcmd hfind (Or.inl rfl)).mp (h.refuses _ _ hfind)
  · have hfind := hnamed fun _ => 0#8
    -- behind a header that shows its type, the stack does not make up the magic
    have hno : ¬ HasMagic (headerOf env.img entry.inodeNum fun _ => 0#8) := by
      rcases hheader hbad with hlong | hno
      · exact mt (hasMagic_headerOf_iff hlong).mp hmagic
      · exact not_hasMagic_headerOf hno
    rw [if_neg hbad, if_neg hno] at hfind
    exact (refuses_iff hcmd hfind (Or.inr rfl)).mp (h.refuses _ _ hfind)

end

/-- A command that names a file runs it only if it is an ELF file, and refuses it otherwise,
whatever the stack holds, exactly when the file shows its type by itself and the message of the
refusal fits on the page. -/
theorem checksFile_iff {env : Env} {command : Buffer} {cmd : Command} {entry : Dentry} {k : Kernel}
    (hcmd : parseCommand command = some cmd) (hfile : NamesFile env.img cmd entry) :
    ChecksFile env command cmd entry.inodeNum k ↔ ShowsType env.img entry.inodeNum k :=
  ⟨fun h => h.showsType hcmd hfile, fun h => h.checksFile hcmd hfile⟩

/-- A text file is refused. -/
theorem checksFile_note :
    ∃ r k cmd entry, Ece391.entry sampleEnv zeroRam = some (r, k) ∧
      parseCommand (commandLine "note") = some cmd ∧ NamesFile sampleImage cmd entry ∧
      ¬ IsElf sampleImage entry.inodeNum ∧
      ChecksFile sampleEnv (commandLine "note") cmd entry.inodeNum k := by
  have hrun : (Ece391.entry sampleEnv zeroRam).any fun x =>
      (parseCommand (commandLine "note")).any fun cmd =>
        (sampleImage.readDentryByName cmd.filename).any fun entry =>
          decide (¬ (cmd.cmdLeng > 32 ∨ cmd.cmdLeng = 0) ∧
            strncmp (cString "clear" fun _ => 0#8) cmd.filename 5 ≠ 0 ∧
            ¬ IsElf sampleImage entry.inodeNum ∧
            ¬ sampleImage.BadBlock entry.inodeNum 0#32 ∧
            ¬ BeginsLikeElf sampleImage entry.inodeNum ∧
            0 ≤ x.2.con.cursorCell x.2.procs.currTerm ∧
            x.2.con.cursorCell x.2.procs.currTerm + 2 * 15 ≤ 4096) := by
    decide +kernel
  simp only [Option.any_eq_true, decide_eq_true_eq] at hrun
  obtain ⟨⟨r, k⟩, hboot, cmd, hcmd, entry, hentry, hlen, hclear, helf, hbad, hno, hroom⟩ := hrun
  have hfile : NamesFile sampleEnv.img cmd entry := ⟨hlen, hclear, hentry⟩
  refine ⟨r, k, cmd, entry, hboot, hcmd, hfile, helf, (checksFile_iff hcmd hfile).mpr ?_⟩
  exact ⟨fun _ => Or.inr hno, fun h => absurd h hbad, fun _ _ => hroom⟩

/-- A file without bytes passes when an earlier call has left the magic on the stack: the call takes
a process and returns -1 with the process table changed. -/
theorem not_checksFile_empty :
    ∃ r k cmd entry k', Ece391.entry sampleEnv zeroRam = some (r, k) ∧
      parseCommand (commandLine "empty") = some cmd ∧ NamesFile sampleImage cmd entry ∧
      sampleImage.fileLength entry.inodeNum = 0#32 ∧
      execute sampleEnv (commandLine "empty") (Buffer.ofList elfMagic fun _ => 0#8) k =
        some (.exit .loadFail, k') ∧
      k.procs.pcbStatusArray 3 = 0#8 ∧ k'.procs.pcbStatusArray 3 = 1#8 ∧
      ¬ ChecksFile sampleEnv (commandLine "empty") cmd entry.inodeNum k := by
  have hrun : (Ece391.entry sampleEnv zeroRam).any fun x =>
      (parseCommand (commandLine "empty")).any fun cmd =>
        (sampleImage.readDentryByName cmd.filename).any fun entry =>
          (execute sampleEnv (commandLine "empty") (Buffer.ofList elfMagic fun _ => 0#8) x.2).any
            fun y =>
              decide (¬ (cmd.cmdLeng > 32 ∨ cmd.cmdLeng = 0) ∧
                strncmp (cString "clear" fun _ => 0#8) cmd.filename 5 ≠ 0 ∧
                sampleImage.fileLength entry.inodeNum = 0#32 ∧ y.1 = .exit .loadFail ∧
                x.2.procs.pcbStatusArray 3 = 0#8 ∧ y.2.procs.pcbStatusArray 3 = 1#8 ∧
                ¬ sampleImage.BadBlock entry.inodeNum 0#32 ∧
                BeginsLikeElf sampleImage entry.inodeNum) := by
    decide +kernel
  simp only [Option.any_eq_true, decide_eq_true_eq] at hrun
  obtain ⟨⟨r, k⟩, hboot, cmd, hcmd, entry, hentry, ⟨_, k'⟩, hx, hlen, hclear, hempty, rfl, hfree,
    htaken, hbad, hbegins⟩ := hrun
  have hfile : NamesFile sampleEnv.img cmd entry := ⟨hlen, hclear, hentry⟩
  refine ⟨r, k, cmd, entry, k', hboot, hcmd, hfile, hempty, hx, hfree, htaken, fun h => ?_⟩
  -- the file has no bytes, so it shows nothing
  rcases (h.showsType hcmd hfile).header hbad with hlong | hno
  · have hzero : sampleEnv.img.fileLength entry.inodeNum = 0#32 := hempty
    rw [hzero] at hlong
    exact absurd hlong (by decide)
  · exact hno hbegins

end Ece391
