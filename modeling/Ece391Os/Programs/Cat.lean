import Ece391Os.Process.Arguments
import Ece391Os.Programs.Files

/-!
# `cat` and `ls`

Two programs with one loop: read a file or a directory, and write what has been read to the
terminal.

* `printLoop` is the loop, with what `ls` puts behind a name as a parameter. `catMain` and `lsMain`
  are the two programs, run by the current process.
* `Delivers`: the reads of a descriptor return the pieces of a list and then 0. A file does
  (`Unread.delivers`), and so does the directory (`Listing.delivers`).
* `catMain_launched`: a `cat` that has been launched with a file's name prints its text, all bytes
  of a regular file, and with another name its message.
* `lsMain_launched`: `ls` prints the names of the directory, each with a newline.
-/

namespace Ece391

/-- The loop of `cat` and `ls`: the value `main` returns, and what the terminal gets. `prepare` is
what is done with the buffer and the count before they are written. -/
def printLoop (img : FsImage) (fd nbytes : Word) (prepare : Buffer → Word → Buffer × Word)
    (failed : String) : ℕ → Buffer → DescTable → Option (Word × List Byte)
  | 0, _, _ => none
  | rounds + 1, buf, descs => do
    let (cnt, buf, descs) ← ece391Read img fd buf nbytes descs
    if cnt = 0#32 then return (0#32, [])
    else if cnt = -1#32 then return (3#32, putLiteral failed descs)
    else
      let (buf, cnt) := prepare buf cnt
      let (ret, out) ← ece391Write 1#32 buf cnt descs
      if ret = -1#32 then return (3#32, out)
      else
        let (value, rest) ← printLoop img fd nbytes prepare failed rounds buf descs
        return (value, out ++ rest)

/-- The descriptors of the current process. -/
def currDescs (k : Kernel) : DescTable := (k.procs.pcbs k.procs.currPid).filesysDescArray

/-- `main` of `cat`, with what is on the stack where `buf` is. -/
def catMain (img : FsImage) (k : Kernel) (buf : Buffer) (rounds : ℕ) :
    Option (Word × List Byte) := do
  let descs := currDescs k
  let (ret, buf) ← getargs k buf 1024#32
  if ret ≠ 0#32 then return (3#32, putLiteral "could not read arguments\n" descs)
  else
    let (fd, descs) ← ece391Open img buf descs
    if fd = -1#32 then return (2#32, putLiteral "file not found\n" descs)
    else printLoop img fd 1024#32 Prod.mk "file read failed\n" rounds buf descs

/-- `main` of `ls`, with what is on the stack where `buf` is. -/
def lsMain (img : FsImage) (k : Kernel) (buf : Buffer) (rounds : ℕ) :
    Option (Word × List Byte) := do
  let (fd, descs) ← ece391Open img (cString "." fun _ => 0#8) (currDescs k)
  if fd = -1#32 then return (2#32, putLiteral "directory open failed\n" descs)
  else
    -- `buf[cnt] = '\n'`
    let prepare := fun buf (cnt : Word) => (Function.update buf cnt.toNat 0x0A#8, cnt + 1#32)
    printLoop img fd 32#32 prepare "directory entry read failed\n" rounds buf descs

/-! ## The loop -/

/-- The reads of a descriptor return the pieces of a list, one after the other, and then 0. -/
def Delivers (img : FsImage) (fd nbytes : Word) : List (List Byte) → DescTable → Prop
  | [], descs => ∀ buf, ∃ buf' descs',
      ece391Read img fd buf nbytes descs = some (0#32, buf', descs')
  | piece :: pieces, descs => piece ≠ [] ∧ piece.length < 2147483647 ∧ ∀ buf, ∃ buf' descs',
      ece391Read img fd buf nbytes descs =
        some (BitVec.ofNat 32 piece.length, buf', descs') ∧
      buf'.bytesOf 0 piece.length = piece ∧ descs' 1 = descs 1 ∧
        Delivers img fd nbytes pieces descs'

variable {img : FsImage} {fd nbytes : Word} {descs : DescTable} {i : Fin 8}
  {pieces : List (List Byte)} {rest : List Byte} {k : ℕ}

/-- The program writes what it makes of every piece. -/
theorem printLoop_eq (prepare : Buffer → Word → Buffer × Word) (written : List Byte → List Byte)
    (failed : String)
    (hprepare : ∀ buf piece, buf.bytesOf 0 piece.length = piece → piece.length < 2147483647 →
      (prepare buf (BitVec.ofNat 32 piece.length)).1.bytesOf 0
        (prepare buf (BitVec.ofNat 32 piece.length)).2.toInt.toNat = written piece)
    (hdelivers : Delivers img fd nbytes pieces descs) (hstdout : descs 1 = terminalDesc)
    {rounds : ℕ} (hrounds : pieces.length < rounds) (buf : Buffer) :
    printLoop img fd nbytes prepare failed rounds buf descs =
      some (0#32, pieces.flatMap written) := by
  induction rounds generalizing pieces descs buf with
  | zero => omega
  | succ rounds ih =>
    cases pieces with
    | nil =>
      obtain ⟨buf', descs', hread⟩ := hdelivers buf
      simp [printLoop, hread]
    | cons piece pieces =>
      obtain ⟨hne, hlen, hread⟩ := hdelivers
      obtain ⟨buf', descs', hread, hpiece, hkept, hrest⟩ := hread buf
      have hpos : 0 < piece.length := List.length_pos_iff.mpr hne
      -- the count is neither 0 nor -1
      have hzero : BitVec.ofNat 32 piece.length ≠ 0#32 := by
        intro heq
        have hval := congrArg BitVec.toNat heq
        rw [FsImage.toNat_ofNat_of_lt (by omega)] at hval
        exact absurd hval hpos.ne'
      have hfail : BitVec.ofNat 32 piece.length ≠ -1#32 := FsImage.ofNat_ne_neg_one (by omega)
      have hwrite := ece391Write_stdout (hkept.trans hstdout)
      rw [List.length_cons] at hrounds
      have hnext := ih hrest (hkept.trans hstdout) (by omega)
        (prepare buf' (BitVec.ofNat 32 piece.length)).1
      have hout := hprepare buf' piece hpiece hlen
      simp only [printLoop, hread, Option.bind_eq_bind, Option.bind_some, if_neg hzero,
        if_neg hfail, hwrite, hnext, hout, List.flatMap_cons]
      rfl

/-- A regular file delivers its bytes, as many at once as are asked for. -/
theorem Unread.exists_delivers (himg : ValidInodes img) (hpos : 0 < nbytes.toNat)
    (hlt : nbytes.toNat < 2147483647) (i : Fin 8) (rest : List Byte) :
    ∃ pieces : List (List Byte), pieces.flatten = rest ∧ pieces.length ≤ rest.length ∧
      ∀ descs, Unread img descs i rest → Delivers img (fdWord i) nbytes pieces descs := by
  induction hlen : rest.length using Nat.strong_induction_on generalizing rest with
  | _ n ih =>
    subst hlen
    by_cases hnil : rest = []
    · subst hnil
      refine ⟨[], rfl, le_rfl, fun descs h buf => ?_⟩
      obtain ⟨descs', hread, -⟩ := h.read himg buf nbytes
      rw [List.length_nil, Nat.min_zero] at hread
      exact ⟨_, descs', hread⟩
    · have hrest : 0 < rest.length := List.length_pos_iff.mpr hnil
      have hdrop : (rest.drop nbytes.toNat).length < rest.length := by
        rw [List.length_drop]
        omega
      obtain ⟨pieces, hflat, hcount, hdelivers⟩ := ih _ hdrop _ rfl
      have hlen : (rest.take nbytes.toNat).length = min nbytes.toNat rest.length :=
        List.length_take
      refine ⟨rest.take nbytes.toNat :: pieces, ?_, ?_,
        fun descs h => ⟨?_, by omega, fun buf => ?_⟩⟩
      · rw [List.flatten_cons, hflat, List.take_append_drop]
      · rw [List.length_cons]
        omega
      · exact List.ne_nil_of_length_pos (by omega)
      · obtain ⟨descs', hread, hunread, hkept⟩ := h.read himg buf nbytes
        refine ⟨_, descs', hlen ▸ hread, ?_, hkept 1 h.ne_one.symm, hdelivers descs' hunread⟩
        -- the buffer starts with the bytes that have been read
        refine (Buffer.bytesOf_eq_iff _).mpr fun j hj => ?_
        rw [Nat.zero_add, hlen, Buffer.overwrite_of_lt _ _ _ (hlen ▸ hj),
          Buffer.ofList_of_lt _ _ (by omega), List.getElem_take]

/-- The directory delivers its names. -/
theorem Listing.delivers {m : ℕ} (h : Listing img descs i k) (hk : k + m = img.numOfEntries.toNat)
    (hnames : ∀ j, k ≤ j → j < img.numOfEntries.toNat → NameFits img j) (nbytes : Word) :
    Delivers img (fdWord i) nbytes ((List.range' k m).map img.entryString) descs := by
  induction m generalizing k descs with
  | zero =>
    obtain rfl : k = img.numOfEntries.toNat := hk
    intro buf
    obtain ⟨descs', hread, -⟩ := h.read_end buf nbytes
    exact ⟨buf, descs', hread⟩
  | succ m ih =>
    have hin : k < img.numOfEntries.toNat := by omega
    have hfits := hnames k le_rfl hin
    have hle : (img.entryString k).length ≤ 32 := (length_stringOf_spec _ 32).1
    refine ⟨List.ne_nil_of_length_pos hfits.pos, by omega, fun buf => ?_⟩
    obtain ⟨descs', hread, hnext, hkept⟩ := h.read hin hfits buf nbytes
    refine ⟨_, descs', hread, ?_, hkept 1 h.ne_one.symm,
      ih hnext (by omega) fun j hj => hnames j (by omega)⟩
    rw [Buffer.bytesOf_overwrite _ _ _ _ le_rfl]
    exact hfits.spells.2

/-! ## The programs -/

/-- What a file gives when it is read to its end: the names of the directory, the bytes of a regular
file, and nothing of the clock. -/
def fileText (img : FsImage) (entry : Dentry) : List Byte :=
  if entry.filetype = 1#32 then (List.range img.numOfEntries.toNat).flatMap img.entryString
  else entryText img entry

/-- The entry is that of the clock, of a directory of names that fit, or of a regular file. -/
def HasText (img : FsImage) (entry : Dentry) : Prop :=
  IsStream img entry ∨ (entry.filetype = 1#32 ∧ ∀ j < img.numOfEntries.toNat, NameFits img j)

instance (img : FsImage) (entry : Dentry) : Decidable (HasText img entry) :=
  inferInstanceAs (Decidable (_ ∨ _))

/-- A number of names, none of which is empty. -/
theorem length_le_flatten (h : ∀ piece ∈ pieces, piece ≠ []) :
    pieces.length ≤ pieces.flatten.length := by
  induction pieces with
  | nil => exact le_rfl
  | cons piece pieces ih =>
    have hpos := List.length_pos_iff.mpr (h piece List.mem_cons_self)
    have hrest := ih fun p hp => h p (List.mem_cons_of_mem _ hp)
    rw [List.length_cons, List.flatten_cons, List.length_append]
    omega

section

variable {entry : Dentry} {filename : Buffer} {old : DescTable}

/-- A newly opened file delivers its text. -/
theorem exists_delivers_open (himg : ValidInodes img) (hpos : 0 < nbytes.toNat)
    (hlt : nbytes.toNat < 2147483647) (hname : img.readDentryByName filename = some entry)
    (hentry : HasText img entry) (old : DescTable) :
    ∃ descs pieces, ece391Open img filename (initDescs old) = some (fdWord 2, descs) ∧
      descs 1 = terminalDesc ∧ pieces.flatten = fileText img entry ∧
      pieces.length ≤ (fileText img entry).length ∧
      Delivers img (fdWord 2) nbytes pieces descs := by
  have hfree : freeDesc (initDescs old) = some 2 := freeDesc_initDescs old
  have hstdout : initDescs old 1 = terminalDesc := rfl
  rcases hentry with hstream | ⟨htype, hnames⟩
  · -- a regular file, or the clock
    obtain ⟨descs, hopen, hunread, hkept⟩ := unread_open hname hstream hfree
    obtain ⟨pieces, hflat, hcount, hdelivers⟩ := Unread.exists_delivers himg hpos hlt 2
      (entryText img entry)
    have htext : fileText img entry = entryText img entry := by
      refine if_neg fun htype => ?_
      rcases hstream with hclock | ⟨hfile, -⟩
      · rw [hclock] at htype
        exact absurd htype (by decide)
      · rw [hfile] at htype
        exact absurd htype (by decide)
    rw [htext]
    exact ⟨descs, pieces, hopen, (hkept 1 (by decide)).trans hstdout, hflat, hcount,
      hdelivers descs hunread⟩
  · -- the directory
    obtain ⟨descs, hopen, hlisting, hkept⟩ := listing_open hname htype hfree
    have htext : ((List.range' 0 img.numOfEntries.toNat).map img.entryString).flatten =
        fileText img entry := by
      rw [fileText, if_pos htype, List.flatMap_def, List.range_eq_range']
    refine ⟨descs, _, hopen, (hkept 1 (by decide)).trans hstdout, htext, ?_,
      hlisting.delivers (Nat.zero_add _) (fun j _ hj => hnames j hj) nbytes⟩
    rw [← htext]
    refine length_le_flatten fun piece hpiece => ?_
    obtain ⟨j, hj, rfl⟩ := List.mem_map.mp hpiece
    rw [List.mem_range'_1] at hj
    exact List.ne_nil_of_length_pos (hnames j (by omega)).pos

/-- The argument of a program whose argument fits the field of the PCB. -/
theorem GetsArgs.spells {k : Kernel} {name : List Byte} (h : GetsArgs k name) (hnul : 0#8 ∉ name)
    (hlen : name.length ≤ 128) (buf : Buffer) :
    ∃ buf', getargs k buf 1024#32 = some (0#32, buf') ∧ Spells buf' name := by
  have hint : (1024#32 : Word).toInt = 1024 := by decide
  obtain ⟨buf', hget, hbytes⟩ := h buf 1024#32 (by rw [hint]; omega)
  refine ⟨buf', hget, ?_⟩
  have hbyte := (Buffer.bytesOf_eq_iff (l := name ++ [0#8]) buf').mp
    (by rw [List.length_append]; exact hbytes)
  simp only [Nat.zero_add, List.length_append, List.length_singleton] at hbyte
  refine spells_of_bytes hnul (by omega) (fun j hj => ?_) ?_
  · rw [hbyte j (by omega), List.getElem_append_left hj]
  · rw [hbyte _ (by omega), List.getElem_append_right le_rfl]
    simp

/-- The bytes that `cat` writes are those it has read. -/
theorem bytesOf_count (buf : Buffer) (piece : List Byte)
    (hpiece : buf.bytesOf 0 piece.length = piece) (hlen : piece.length < 2147483647) :
    buf.bytesOf 0 (BitVec.ofNat 32 piece.length).toInt.toNat = piece := by
  rw [FsImage.toInt_ofNat_of_lt (by omega), Int.toNat_natCast, hpiece]

/-- `ls` writes a newline behind what it has read. -/
theorem bytesOf_update_newline (buf : Buffer) (piece : List Byte)
    (hpiece : buf.bytesOf 0 piece.length = piece) (hlen : piece.length < 2147483647) :
    Buffer.bytesOf (Function.update buf (BitVec.ofNat 32 piece.length).toNat 0x0A#8) 0
      (BitVec.ofNat 32 piece.length + 1#32).toInt.toNat = piece ++ [0x0A#8] := by
  have hval : (BitVec.ofNat 32 piece.length).toNat = piece.length :=
    FsImage.toNat_ofNat_of_lt (by omega)
  rw [← BitVec.ofNat_add, FsImage.toInt_ofNat_of_lt (by omega), Int.toNat_natCast,
    Buffer.bytesOf_add, hval, Buffer.bytesOf_succ, Nat.zero_add, Function.update_self]
  refine congrArg₂ List.append ?_ rfl
  -- the newline is behind the bytes that have been read
  refine (Buffer.bytesOf_congr _ _ _ fun j hj => ?_).trans hpiece
  exact Function.update_of_ne (by omega) _ _

/-- `cat` of a file prints its text. -/
theorem catMain_eq (himg : ValidInodes img) {k : Kernel} {name : List Byte}
    (hdescs : currDescs k = initDescs old) (hargs : GetsArgs k name) (hnul : 0#8 ∉ name)
    (hlen : name.length ≤ 128) {e : ℕ} (hfirst : img.FirstNamed name e)
    (hentry : HasText img (img.dentry e)) (buf : Buffer) {rounds : ℕ}
    (hrounds : (fileText img (img.dentry e)).length < rounds) :
    catMain img k buf rounds = some (0#32, fileText img (img.dentry e)) := by
  obtain ⟨buf', hget, hspells⟩ := hargs.spells hnul hlen buf
  obtain ⟨descs, pieces, hopen, hstdout, hflat, hcount, hdelivers⟩ :=
    exists_delivers_open himg (by decide : 0 < (1024#32 : Word).toNat) (by decide)
      (readDentryByName_eq_some hspells hfirst) hentry old
  have hrun := printLoop_eq Prod.mk id "file read failed\n" bytesOf_count hdelivers hstdout
    (hcount.trans_lt hrounds) buf'
  rw [List.flatMap_id, hflat] at hrun
  rw [catMain, hget, hdescs]
  simp only [Option.bind_eq_bind, Option.bind_some, hopen, ne_eq, not_true_eq_false, if_false,
    if_neg (fdWord_ne 2), hrun]

/-- `cat` of a name that no file has. -/
theorem catMain_eq_missing {k : Kernel} {name : List Byte} (hdescs : currDescs k = initDescs old)
    (hargs : GetsArgs k name) (hnul : 0#8 ∉ name) (hlen : name.length ≤ 128)
    (hmissing : ∀ i < img.entryCount, img.entryString i ≠ name.take 32) (buf : Buffer)
    (rounds : ℕ) :
    catMain img k buf rounds = some (2#32, ascii "file not found\n") := by
  obtain ⟨buf', hget, hspells⟩ := hargs.spells hnul hlen buf
  have hopen := ece391Open_none (readDentryByName_eq_none hspells hmissing) (initDescs old)
  have hput : putLiteral "file not found\n" (initDescs old) = ascii "file not found\n" :=
    putLiteral_eq rfl (by decide)
  rw [catMain, hget, hdescs]
  simp only [Option.bind_eq_bind, Option.bind_some, hopen, ne_eq, not_true_eq_false, if_false,
    if_true, hput]
  rfl

/-- `ls` prints the names of the directory. -/
theorem lsMain_eq {k : Kernel} {e : ℕ} (hdescs : currDescs k = initDescs old)
    (hdir : img.FirstNamed (ascii ".") e) (htype : (img.dentry e).filetype = 1#32)
    (hnames : ∀ j < img.numOfEntries.toNat, NameFits img j) (buf : Buffer) {rounds : ℕ}
    (hrounds : img.numOfEntries.toNat < rounds) :
    lsMain img k buf rounds = some (0#32, (List.range img.numOfEntries.toNat).flatMap fun j =>
      img.entryString j ++ [0x0A#8]) := by
  have hspells : Spells (cString "." fun _ => 0#8) (ascii ".") :=
    spells_cString "." (by decide) (by decide) _
  obtain ⟨descs, hopen, hlisting, hkept⟩ := listing_open (readDentryByName_eq_some hspells hdir)
    htype (freeDesc_initDescs old)
  have hdelivers := hlisting.delivers (Nat.zero_add _) (fun j _ hj => hnames j hj) 32#32
  have hrun := printLoop_eq (fun buf cnt => (Function.update buf cnt.toNat 0x0A#8, cnt + 1#32))
    (fun piece => piece ++ [0x0A#8]) "directory entry read failed\n" bytesOf_update_newline
    hdelivers ((hkept 1 (by decide)).trans rfl) (by simpa using hrounds) buf
  rw [List.flatMap_map, ← List.range_eq_range'] at hrun
  rw [lsMain, hdescs]
  simp only [Option.bind_eq_bind, Option.bind_some, hopen, if_neg (fdWord_ne 2), hrun]

end

/-- A newly launched process has the terminal and six free descriptors. -/
theorem currDescs_launched {env : Env} {command stack : Buffer} {k k' : Kernel} {eip : Word}
    (h : execute env command stack k = some (.userMode eip, k')) :
    ∃ old, currDescs k' = initDescs old := by
  cases execute_cases h with
  | @root cmd prog i page hcmd hfind hfree hfirst hpage hload hroot hi =>
    exact ⟨(k.procs.pcbs i).filesysDescArray, by
      simp [currDescs, Kernel.enableIrq, Procs.enter, Procs.fill, Procs.take, Pcb.init]⟩
  | @child cmd prog i parent page hcmd hfind hfree hfirst hpage hload hroot hi hparent =>
    refine ⟨(k.procs.pcbs i).filesysDescArray, ?_⟩
    by_cases hp : i = parent <;>
      simp [currDescs, Kernel.enableIrq, Procs.block, Procs.enter, Procs.fill, Procs.take, Pcb.init,
        hp]

/-- A launched `cat` prints the file its command names: all bytes of a regular file in order, the
names of the directory one behind the other, and nothing of the clock. If no file has the name, it
prints its message. -/
theorem catMain_launched {env : Env} {c : CommandLine} {name : List Byte} {rest stack : Buffer}
    {k k' : Kernel} {eip : Word} (himg : ValidInodes env.img)
    (hlaunch : execute env (c.memory rest) stack k = some (.userMode eip, k'))
    (hargs : c.args = some name) (buf : Buffer) :
    (∀ e, env.img.FirstNamed name e → HasText env.img (env.img.dentry e) →
      ∀ rounds, (fileText env.img (env.img.dentry e)).length < rounds →
        catMain env.img k' buf rounds = some (0#32, fileText env.img (env.img.dentry e))) ∧
      ((∀ i < env.img.entryCount, env.img.entryString i ≠ name.take 32) →
        ∀ rounds, catMain env.img k' buf rounds = some (2#32, ascii "file not found\n")) := by
  obtain ⟨old, hdescs⟩ := currDescs_launched hlaunch
  have hget : GetsArgs k' name := by
    have htext : c.text = name := by rw [CommandLine.text, hargs, Option.getD_some]
    exact htext ▸ (getsArgs_launched_iff hlaunch).mpr (Or.inl (by rw [hargs]; rfl))
  have hnul := c.nul_args name hargs
  have hlen := c.length_args name hargs
  constructor
  · intro e hfirst hentry rounds hrounds
    exact catMain_eq himg hdescs hget hnul hlen hfirst hentry buf hrounds
  · intro hmissing rounds
    exact catMain_eq_missing hdescs hget hnul hlen hmissing buf rounds

/-- A launched `ls` prints every name of the directory, in the order of the entries and each with a
newline. -/
theorem lsMain_launched {env : Env} {command stack : Buffer} {k k' : Kernel} {eip : Word} {e : ℕ}
    (hlaunch : execute env command stack k = some (.userMode eip, k'))
    (hdir : env.img.FirstNamed (ascii ".") e) (htype : (env.img.dentry e).filetype = 1#32)
    (hnames : ∀ j < env.img.numOfEntries.toNat, NameFits env.img j) (buf : Buffer) {rounds : ℕ}
    (hrounds : env.img.numOfEntries.toNat < rounds) :
    lsMain env.img k' buf rounds =
      some (0#32, (List.range env.img.numOfEntries.toNat).flatMap fun j =>
        env.img.entryString j ++ [0x0A#8]) := by
  obtain ⟨old, hdescs⟩ := currDescs_launched hlaunch
  exact lsMain_eq hdescs hdir htype hnames buf hrounds

/-- A command that is launched after the boot. -/
theorem exists_launch {env : Env} {c : CommandLine} {eip : Word}
    (hrun : ((entry env zeroRam).bind fun x =>
      (execute env (c.memory fun _ => 0#8) (fun _ => 0#8) x.2).map Prod.fst) =
        some (.userMode eip)) :
    ∃ k k', execute env (c.memory fun _ => 0#8) (fun _ => 0#8) k = some (.userMode eip, k') := by
  obtain ⟨⟨r, k⟩, -, hrun⟩ := Option.bind_eq_some_iff.mp hrun
  obtain ⟨⟨r', k'⟩, hx, hr⟩ := Option.map_eq_some_iff.mp hrun
  subst hr
  exact ⟨k, k', hx⟩

/-- The command `shell frame0.txt`. -/
def shellWithFile : CommandLine where
  name := shellWithArgument.name
  args := some (ascii "frame0.txt")
  name_ne_nil := shellWithArgument.name_ne_nil
  length_name := shellWithArgument.length_name
  endsName_name := shellWithArgument.endsName_name
  length_args := by decide +kernel
  nul_args := by decide +kernel

/-- It launches a program. -/
theorem exists_launch_shellWithFile : ∃ k k', execute diskEnv (shellWithFile.memory fun _ => 0#8)
    (fun _ => 0#8) k = some (.userMode 0x08048000#32, k') :=
  exists_launch (by decide +kernel)

/-- It is the `cat` of a file with two lines. -/
theorem catMain_launched_sample : ∃ k', catMain diskEnv.img k' (fun _ => 0#8) 6 =
    some (0#32, ascii "ab\nc\n") := by
  obtain ⟨k, k', hlaunch⟩ := exists_launch_shellWithFile
  have hfirst : diskEnv.img.FirstNamed (ascii "frame0.txt") 3 :=
    ⟨by decide +kernel, by decide +kernel, by decide +kernel⟩
  have htext : fileText diskEnv.img (diskEnv.img.dentry 3) = ascii "ab\nc\n" := by decide +kernel
  have hlen : (ascii "ab\nc\n").length < 6 := by decide
  have himg : ValidInodes diskEnv.img := validInodes_diskImage
  have hargs : shellWithFile.args = some (ascii "frame0.txt") := rfl
  have hrun := (catMain_launched himg hlaunch hargs fun _ => 0#8).1 3 hfirst (by decide +kernel) 6
  rw [htext] at hrun
  exact ⟨k', hrun hlen⟩

/-- The names of the sample image. -/
theorem lsMain_launched_sample : ∃ k', lsMain diskEnv.img k' (fun _ => 0#8) 6 =
    some (0#32, ascii ".\nshell\nrtc\nframe0.txt\nframe1.txt\n") := by
  obtain ⟨k, k', hlaunch⟩ := exists_launch_shellWithFile
  have hdir : diskEnv.img.FirstNamed (ascii ".") 0 :=
    ⟨by decide +kernel, by decide +kernel, by decide +kernel⟩
  have hcount : diskEnv.img.numOfEntries.toNat < 6 := by decide +kernel
  have hrun := lsMain_launched hlaunch hdir (by decide +kernel) (by decide +kernel)
    (fun _ => 0#8) hcount
  have htext : ((List.range diskEnv.img.numOfEntries.toNat).flatMap fun j =>
      diskEnv.img.entryString j ++ [0x0A#8]) =
        ascii ".\nshell\nrtc\nframe0.txt\nframe1.txt\n" := by
    decide +kernel
  rw [htext] at hrun
  exact ⟨k', hrun⟩

end Ece391
