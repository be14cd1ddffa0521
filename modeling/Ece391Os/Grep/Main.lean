import Ece391Os.Grep.DoOneFile
import Ece391Os.Programs.Cat

/-!
# `grep`

`main` of `grep` over the descriptors of its process: it reads the directory, and searches every
file whose name does not start with a dot.

* `doOneFile_writes`: `do_one_file` ends with 0 on every file, of text or not.
* `fillDescriptor` is the loop of `do_one_file` with the descriptors passed on, `grepLoop` the loop
  over the directory, and `grepMain` the program.
* `fillDescriptor_eq`: on a descriptor of the process the loop does what it does on a list of bytes,
  and closes the descriptor.
* `grepMain_launched`: a launched `grep` goes through the whole directory, and writes for every file
  of text the lines that match.
-/

namespace Ece391

/-! ## The search ends -/

section

variable {s fname buf data : Buffer} {sLen cnt last lineStart lineEnd : ℕ}

/-- A string that is copied to a lower place ends. -/
theorem strcpyLoop_isSome {rounds dst src k : ℕ} (hlt : dst < src) (hnul : buf (src + k) = 0#8)
    (hk : k < rounds) : (strcpyLoop rounds buf dst src).isSome := by
  induction rounds generalizing buf dst src k with
  | zero => omega
  | succ rounds ih =>
    rw [strcpyLoop]
    by_cases hend : buf src = 0#8
    · simp [hend]
    · simp only [if_neg hend]
      obtain ⟨k, rfl⟩ : ∃ m, k = m + 1 := by
        refine Nat.exists_eq_succ_of_ne_zero ?_
        rintro rfl
        exact hend hnul
      refine ih (k := k) (by omega) ?_ (by omega)
      -- the byte that is stored is before the NUL
      rw [Function.update_of_ne (by omega)]
      rwa [Nat.add_assoc, Nat.add_comm 1]

/-- A string with a NUL is written. -/
theorem ece391Fdputs_isSome {m : ℕ} (hm : m < 4294967296) (hnul : buf m = 0#8) :
    (ece391Fdputs buf).isSome := by
  obtain ⟨n, -, hscan⟩ := buf.exists_scan_le (p := fun b => b == 0#8) hm (beq_iff_eq.mpr hnul)
  rw [ece391Fdputs, Option.isSome_map, ece391Strlen, hscan, Option.isSome_some]

/-- The search of a line with a NUL behind it ends. -/
theorem searchLine_isSome (hname : (ece391Fdputs fname).isSome) (hle : lineStart ≤ lineEnd)
    (hlt : lineEnd < 4294967296) (hnul : data lineEnd = 0#8) (check : ℕ) :
    (searchLine s fname sLen data lineStart lineEnd check).isSome := by
  obtain ⟨name, hname⟩ := Option.isSome_iff_exists.mp hname
  have hline : (ece391Fdputs fun j => data (lineStart + j)).isSome := by
    refine ece391Fdputs_isSome (by omega : lineEnd - lineStart < 4294967296) ?_
    rwa [Nat.add_sub_cancel' hle]
  obtain ⟨line, hline⟩ := Option.isSome_iff_exists.mp hline
  induction check using searchLine.induct s sLen data lineEnd with
  | case1 check hlt hfound =>
    rw [searchLine, if_pos hlt, if_pos hfound, hname, hline]
    rfl
  | case2 check hlt hfound ih =>
    rw [searchLine, if_pos hlt, if_neg hfound]
    exact ih
  | case3 check hge =>
    rw [searchLine, if_neg hge]
    rfl

theorem findLineEnd_le (data : Buffer) (hle : lineStart ≤ last) :
    findLineEnd data last lineStart ≤ last := by
  induction lineStart using findLineEnd.induct data last with
  | case1 lineStart hgo ih =>
    rw [findLineEnd, if_pos hgo]
    exact ih hgo.1
  | case2 lineStart hstop =>
    rw [findLineEnd, if_neg hstop]
    exact hle

/-- The loop over the lines ends, and keeps less of the buffer than it was given, if anything. -/
theorem scanLines_ends (s : Buffer) (sLen cnt : ℕ) (hname : (ece391Fdputs fname).isSome)
    (hsize : last ≤ 1024) {n : ℕ} (hn : lineStart + n = last) (data : Buffer) :
    ∃ data' last' out, scanLines s fname sLen cnt last data lineStart = some (data', last', out) ∧
      (last' = 0 ∨ last' < last) := by
  induction n using Nat.strong_induction_on generalizing lineStart data with
  | _ n ih =>
    have hle := le_findLineEnd data last lineStart
    have hend := findLineEnd_le data (by omega : lineStart ≤ last)
    rw [scanLines]
    set lineEnd := findLineEnd data last lineStart with hlineEnd
    set cut := Function.update data lineEnd 0#8 with hcut
    have hnul : cut lineEnd = 0#8 := Function.update_self _ _ _
    by_cases hkeep : data lineEnd ≠ 0x0A#8 ∧ cnt ≠ 0 ∧ lineStart ≠ 0
    · -- an unfinished line is moved
      have hmoved : (ece391Strcpy cut 0 lineStart).isSome := by
        refine strcpyLoop_isSome (k := lineEnd - lineStart) (by omega) ?_ (by omega)
        rwa [Nat.add_sub_cancel' hle]
      obtain ⟨moved, hmoved⟩ := Option.isSome_iff_exists.mp hmoved
      refine ⟨moved, last - lineStart, [], ?_, by omega⟩
      rw [if_pos hkeep, hmoved]
      rfl
    · obtain ⟨out, hout⟩ := Option.isSome_iff_exists.mp
        (searchLine_isSome hname hle (by omega) hnul lineStart)
      rw [if_neg hkeep, hout]
      by_cases hlast : last ≤ lineEnd + 1
      · refine ⟨cut, 0, out, ?_, Or.inl rfl⟩
        simp [hlast]
      · -- the next line
        obtain ⟨data', last', rest, hrest, hkept⟩ :=
          ih (last - (lineEnd + 1)) (by omega) (Nat.add_sub_of_le (by omega)) cut
        refine ⟨data', last', out ++ rest, ?_, hkept⟩
        simp [hlast, hrest]

/-- One fill from a list of bytes. -/
theorem fillLoop_succ (file rest : List Byte) (rounds : ℕ) (s fname : Buffer) (sLen : ℕ)
    (data : Buffer) (last : ℕ) :
    fillLoop (plainFile file) s fname sLen (rounds + 1) rest data last =
      (scanLines s fname sLen (rest.take (1024 - last)).length
        (last + (rest.take (1024 - last)).length)
        (data.splice last (Buffer.ofList (rest.take (1024 - last)) fun _ => 0#8)
          (rest.take (1024 - last)).length) 0).bind fun r =>
        if (rest.take (1024 - last)).length = 0 then some (0, r.2.2)
        else (fillLoop (plainFile file) s fname sLen rounds (rest.drop (1024 - last)) r.1
          r.2.1).map fun x => (x.1, r.2.2 ++ x.2) := by
  rw [fillLoop]
  simp only [plainFile, if_true, Option.bind_eq_bind, Option.pure_def, Option.map_eq_bind]
  rfl

/-- The loop over the fills ends with 0, whatever the file is. -/
theorem fillLoop_ends (s : Buffer) (sLen : ℕ) (hname : (ece391Fdputs fname).isSome)
    (hlast : last < 1024) (file : List Byte) {rest : List Byte} {rounds : ℕ}
    (hrounds : rest.length < rounds) (data : Buffer) :
    ∃ out, fillLoop (plainFile file) s fname sLen rounds rest data last = some (0, out) := by
  induction rounds generalizing rest last data with
  | zero => omega
  | succ rounds ih =>
    have hcnt : (rest.take (1024 - last)).length = min (1024 - last) rest.length :=
      List.length_take
    rw [fillLoop_succ]
    generalize data.splice last _ _ = data₁
    obtain ⟨data', last', out, hscan, hkept⟩ := scanLines_ends s sLen
      (rest.take (1024 - last)).length hname
      (by omega : last + (rest.take (1024 - last)).length ≤ 1024) (Nat.zero_add _) data₁
    rw [hscan, Option.bind_some]
    by_cases hzero : (rest.take (1024 - last)).length = 0
    · -- the end of the file
      exact ⟨out, if_pos hzero⟩
    · -- the buffer is not full, so the file gets shorter
      obtain ⟨rest', hrest⟩ := ih (by omega : last' < 1024)
        (by rw [List.length_drop]; omega : (rest.drop (1024 - last)).length < rounds) data'
      refine ⟨out ++ rest', ?_⟩
      rw [if_neg hzero, hrest, Option.map_some]

/-- `do_one_file` ends with 0 on every file: of text or not, with lines of any length, and for every
pattern. -/
theorem doOneFile_writes {pattern name : List Byte} (hs : Spells s pattern)
    (hname : Spells fname name) (data : Buffer) (file : List Byte) :
    ∃ out, GrepWrites s fname data file out := by
  have hput : (ece391Fdputs fname).isSome := by rw [hname.fdputs_eq, Option.isSome_some]
  obtain ⟨out, hrun⟩ := fillLoop_ends s pattern.length hput (by decide : 0 < 1024) file
    (Nat.lt_succ_self file.length) data
  exact ⟨out, file.length + 1, (doOneFile_eq hs.1 file _).trans hrun⟩

end

/-- A file with a NUL, and without a newline. -/
theorem doOneFile_writes_sample : ∃ out, GrepWrites (cString "de" fun _ => 0#8)
    (cString "note" fun _ => 0#8) (fun _ => 0#8) [0x64#8, 0#8, 0x65#8] out :=
  doOneFile_writes (spells_cString "de" (by decide) (by decide) _)
    (spells_cString "note" (by decide) (by decide) _) _ _

/-! ## The program -/

/-- The loop over the fills of `do_one_file`, on descriptor `fd`: the result, what has been written,
and the descriptors. -/
def fillDescriptor (img : FsImage) (s fname : Buffer) (sLen : ℕ) (fd : Word) :
    ℕ → DescTable → Buffer → ℕ → Option (ℤ × List Byte × DescTable)
  | 0, _, _, _ => none
  | rounds + 1, descs, data, last => do
    let (cnt, buf, descs) ←
      ece391Read img fd (fun j => data (last + j)) (BitVec.ofNat 32 (1024 - last)) descs
    if cnt = -1#32 then return (-1, putLiteral "file read failed\n" descs, descs)
    else
      let data := Buffer.overwrite (fun j => buf (j - last)) data last
      let (data, last, out) ← scanLines s fname sLen cnt.toNat (last + cnt.toNat) data 0
      if cnt = 0#32 then
        let (ret, descs) := ece391Close fd descs
        if ret = -1#32 then return (-1, out ++ putLiteral "file close failed\n" descs, descs)
        else return (0, out, descs)
      else
        let (ret, rest, descs) ← fillDescriptor img s fname sLen fd rounds descs data last
        return (ret, out ++ rest, descs)

/-- `do_one_file`, with what is on the stack where `data` is. -/
def searchFile (img : FsImage) (s fname data : Buffer) (rounds : ℕ) (descs : DescTable) :
    Option (ℤ × List Byte × DescTable) := do
  let sLen ← ece391Strlen s
  let (fd, descs) ← ece391Open img fname descs
  if fd = -1#32 then return (-1, putLiteral "file open failed\n" descs, descs)
  else fillDescriptor img s fname sLen fd rounds descs data 0

/-- The loop of `main` over the directory, from read number `k` on. `stack k` is what is on the
stack for the call of `do_one_file` behind that read. -/
def grepLoop (img : FsImage) (search : Buffer) (stack : ℕ → Buffer) (rounds : ℕ) (fd : Word) :
    ℕ → ℕ → Buffer → DescTable → Option (Word × List Byte)
  | 0, _, _, _ => none
  | n + 1, k, buf, descs => do
    let (cnt, buf, descs) ← ece391Read img fd buf 32#32 descs
    if cnt = 0#32 then return (0#32, [])
    else if cnt = -1#32 then
      return (3#32, putLiteral "directory entry read failed\n" descs)
    else if buf 0 = 0x2E#8 then grepLoop img search stack rounds fd n (k + 1) buf descs
    else
      let buf := Function.update buf cnt.toNat 0#8
      let (ret, out, descs) ← searchFile img search buf (stack k) rounds descs
      if ret ≠ 0 then return (3#32, out)
      else
        let (value, rest) ← grepLoop img search stack rounds fd n (k + 1) buf descs
        return (value, out ++ rest)

/-- `main` of `grep`, with what is on the stack where its two arrays are. -/
def grepMain (img : FsImage) (k : Kernel) (buf search : Buffer) (stack : ℕ → Buffer)
    (rounds : ℕ) : Option (Word × List Byte) := do
  let descs := currDescs k
  let (ret, search) ← getargs k search 1024#32
  if ret ≠ 0#32 then return (3#32, putLiteral "could not read argument\n" descs)
  else
    let (fd, descs) ← ece391Open img (cString "." fun _ => 0#8) descs
    if fd = -1#32 then return (2#32, putLiteral "directory open failed\n" descs)
    else grepLoop img search stack rounds fd rounds 0 buf descs

section

variable {img : FsImage} {s fname search buf data : Buffer} {descs : DescTable} {i : Fin 8}
  {rest out : List Byte} {sLen last rounds : ℕ}

/-! ## One file -/

/-- The buffer behind a read to its byte `last`. -/
theorem overwrite_read (data : Buffer) (last n : ℕ) (rest : List Byte) :
    Buffer.overwrite (fun j => Buffer.overwrite (fun j => data (last + j))
        (Buffer.ofList rest fun _ => 0#8) (min n rest.length) (j - last)) data last =
      data.splice last (Buffer.ofList (rest.take n) fun _ => 0#8) (rest.take n).length := by
  funext j
  rw [List.length_take]
  simp only [Buffer.overwrite, Buffer.splice]
  split_ifs with h₁ h₂ h₃ h₄ <;> try omega
  · rfl
  · -- a byte that has been read
    have hlen : j - last < (rest.take n).length := by rwa [List.length_take]
    rw [Buffer.ofList_of_lt _ _ hlen, Buffer.ofList_of_lt _ _ (by omega), List.getElem_take]
  · rw [Nat.add_sub_of_le (by omega)]

/-- The loop over a descriptor does what it does over the bytes that are left, and closes the
descriptor. -/
theorem fillDescriptor_eq (himg : ValidInodes img) (hname : (ece391Fdputs fname).isSome)
    (hlast : last ≤ 1024) (file : List Byte) (h : Unread img descs i rest)
    (hrun : fillLoop (plainFile file) s fname sLen rounds rest data last = some (0, out)) :
    ∃ descs', fillDescriptor img s fname sLen (fdWord i) rounds descs data last =
        some (0, out, descs') ∧ ¬ IsOpen descs' i ∧ ∀ j, j ≠ i → descs' j = descs j := by
  induction rounds generalizing rest descs data last out with
  | zero => cases hrun
  | succ rounds ih =>
    have hword : (BitVec.ofNat 32 (1024 - last)).toNat = 1024 - last :=
      FsImage.toNat_ofNat_of_lt (by omega)
    obtain ⟨descs₁, hread, hunread, hkept⟩ :=
      h.read himg (fun j => data (last + j)) (BitVec.ofNat 32 (1024 - last))
    rw [hword] at hread hunread
    have hcnt : (rest.take (1024 - last)).length = min (1024 - last) rest.length :=
      List.length_take
    have hval : (BitVec.ofNat 32 (min (1024 - last) rest.length)).toNat =
        (rest.take (1024 - last)).length := by
      rw [hcnt, FsImage.toNat_ofNat_of_lt (by omega)]
    have hfail : BitVec.ofNat 32 (min (1024 - last) rest.length) ≠ -1#32 :=
      FsImage.ofNat_ne_neg_one (by omega)
    have hzero : BitVec.ofNat 32 (min (1024 - last) rest.length) = 0#32 ↔
        (rest.take (1024 - last)).length = 0 := by
      rw [← hval]
      exact ⟨fun heq => by rw [heq]; rfl, fun heq => BitVec.eq_of_toNat_eq heq⟩
    rw [fillLoop_succ] at hrun
    obtain ⟨⟨data', last', out'⟩, hscan, hrun⟩ := Option.bind_eq_some_iff.mp hrun
    have hlast' : last' ≤ 1024 := by
      obtain ⟨data₂, last₂, out₂, hends, hle⟩ := scanLines_ends s sLen
        (rest.take (1024 - last)).length hname
        (by omega : last + (rest.take (1024 - last)).length ≤ 1024) (Nat.zero_add _)
        (data.splice last (Buffer.ofList (rest.take (1024 - last)) fun _ => 0#8)
          (rest.take (1024 - last)).length)
      cases hscan.symm.trans hends
      omega
    simp only [fillDescriptor, hread, Option.bind_eq_bind, Option.bind_some, if_neg hfail,
      overwrite_read, hval, hscan, hzero]
    split_ifs at hrun ⊢ with hend hclose
    · -- the close of an open descriptor does not fail
      rw [ece391Close_eq hunread.two_le hunread.isOpen] at hclose
      exact absurd (show (0#32 : Word) = -1#32 from hclose) (by decide)
    · cases hrun
      rw [ece391Close_eq hunread.two_le hunread.isOpen]
      refine ⟨_, rfl, ?_, fun j hj => ?_⟩
      · simp [IsOpen]
      · show Function.update descs₁ i _ j = descs j
        rw [Function.update_of_ne hj, hkept j hj]
    · obtain ⟨⟨ret, out₁⟩, hnext, hrun⟩ := Option.map_eq_some_iff.mp hrun
      cases hrun
      obtain ⟨descs', hrun', hclosed, hkept'⟩ := ih hlast' hunread hnext
      refine ⟨descs', ?_, hclosed, fun j hj => (hkept' j hj).trans (hkept j hj)⟩
      rw [hrun', Option.bind_some]
      rfl

/-- The search of a file that exists: it is searched to its end, and closed again. -/
theorem searchFile_eq (himg : ValidInodes img) {pattern name : List Byte} {entry : Dentry}
    (hs : Spells s pattern) (hspells : Spells fname name)
    (hname : img.readDentryByName fname = some entry) (hentry : IsStream img entry)
    (hfree : freeDesc descs = some i) (data : Buffer)
    (hrounds : (entryText img entry).length < rounds) :
    ∃ out descs', searchFile img s fname data rounds descs = some (0, out, descs') ∧
      GrepWrites s fname data (entryText img entry) out ∧
      ¬ IsOpen descs' i ∧ ∀ j, j ≠ i → descs' j = descs j := by
  have hput : (ece391Fdputs fname).isSome := by rw [hspells.fdputs_eq, Option.isSome_some]
  obtain ⟨descs₁, hopen, hunread, hkept⟩ := unread_open hname hentry hfree
  obtain ⟨out, hrun⟩ := fillLoop_ends s pattern.length hput (by decide : 0 < 1024)
    (entryText img entry) hrounds data
  obtain ⟨descs', hfill, hclosed, hkept'⟩ :=
    fillDescriptor_eq himg hput (Nat.zero_le 1024) (entryText img entry) hunread hrun
  refine ⟨out, descs', ?_, ⟨rounds, (doOneFile_eq hs.1 _ _).trans hrun⟩, hclosed,
    fun j hj => (hkept' j hj).trans (hkept j hj)⟩
  have hlen : ece391Strlen s = some pattern.length := hs.1
  rw [searchFile, hlen]
  simp only [Option.bind_eq_bind, Option.bind_some, hopen, if_neg (fdWord_ne i), hfill]

end

/-! ## The directory -/

/-- `grep` between two files: the directory is open at entry `k`, and no file is. -/
structure Searching (img : FsImage) (descs : DescTable) (k : ℕ) : Prop where
  listing : Listing img descs 2 k
  stdout : descs 1 = terminalDesc
  closed : ∀ j : Fin 8, 3 ≤ j.val → ¬ IsOpen descs j

/-- What `grep` writes for entry `k`: nothing if the name starts with a dot, and else the lines that
match of the first file of that name, as far as it is one of text. -/
structure GrepEntry (img : FsImage) (pattern : List Byte) (data : Buffer) (k : ℕ)
    (out : List Byte) : Prop where
  hidden : (img.entryString k).head? = some 0x2E#8 → out = []
  text : (img.entryString k).head? ≠ some 0x2E#8 → ∀ e, img.FirstNamed (img.entryString k) e →
    0#8 ∉ entryText img (img.dentry e) → LinesShort (entryText img (img.dentry e)) →
    ¬ SplitsLine data (entryText img (img.dentry e)) pattern →
    out = grepOutput (img.entryString k) pattern (entryText img (img.dentry e))

/-- The files that `grep` opens are regular ones or the clock. -/
def FilesRegular (img : FsImage) : Prop :=
  ∀ j < img.numOfEntries.toNat, (img.entryString j).head? ≠ some 0x2E#8 →
    ∀ e ≤ j, img.FirstNamed (img.entryString j) e → IsStream img (img.dentry e)

section

variable {img : FsImage} {search : Buffer} {descs descs' : DescTable} {pattern : List Byte}
  {k rounds : ℕ}

/-- A file is opened as descriptor 3. -/
theorem Searching.freeDesc_eq (h : Searching img descs k) : freeDesc descs = some 3 := by
  have htwo : (descs 2).flags ≠ 0#32 := h.listing.isOpen
  have hthree : (descs 3).flags = 0#32 := not_not.mp (h.closed 3 le_rfl)
  simp [freeDesc, htwo, hthree]

/-- The search of a file does not matter, when the file is closed again. -/
theorem Searching.congr (h : Searching img descs k) (hclosed : ¬ IsOpen descs' 3)
    (hkept : ∀ j, j ≠ 3 → descs' j = descs j) : Searching img descs' k where
  listing := h.listing.congr (hkept 2 (by decide))
  stdout := (hkept 1 (by decide)).trans h.stdout
  closed j hj := by
    by_cases hthree : j = 3
    · exact hthree ▸ hclosed
    · rw [IsOpen, hkept j hthree]
      exact h.closed j hj

/-- A read of the directory goes to its next entry. -/
theorem Searching.next (h : Searching img descs k) (hlisting : Listing img descs' 2 (k + 1))
    (hkept : ∀ j, j ≠ 2 → descs' j = descs j) : Searching img descs' (k + 1) where
  listing := hlisting
  stdout := (hkept 1 (by decide)).trans h.stdout
  closed j hj := by
    have hne : j ≠ 2 := by
      rintro rfl
      exact absurd hj (by decide)
    rw [IsOpen, hkept j hne]
    exact h.closed j hj

/-- The name of an entry as `main` has it: what has been read, and a NUL behind it. -/
theorem spells_entry (hname : NameFits img k) (buf : Buffer) :
    Spells (Function.update (buf.overwrite (img.entryName k) (img.entryString k).length)
      (img.entryString k).length 0#8) (img.entryString k) := by
  have hlen : (img.entryString k).length ≤ 32 := (length_stringOf_spec _ 32).1
  refine spells_of_bytes hname.spells.nul_notMem (by omega) (fun j hj => ?_)
    (Function.update_self _ _ _)
  rw [Function.update_of_ne hj.ne, Buffer.overwrite_of_lt _ _ _ hj]
  exact hname.spells.eq_getElem hj

/-- The first byte of the buffer says whether the name starts with a dot. -/
theorem first_eq_dot_iff (hname : NameFits img k) (buf : Buffer) :
    buf.overwrite (img.entryName k) (img.entryString k).length 0 = 0x2E#8 ↔
      (img.entryString k).head? = some 0x2E#8 := by
  have hne : img.entryString k ≠ [] := List.ne_nil_of_length_pos hname.pos
  rw [Buffer.overwrite_of_lt _ _ _ hname.pos, hname.spells.eq_getElem hname.pos,
    List.head?_eq_some_head hne, Option.some.injEq, List.head_eq_getElem]

/-- The loop goes through the rest of the directory. -/
theorem grepLoop_eq (himg : ValidInodes img) (hs : Spells search pattern)
    (hpattern : pattern ≠ []) (hchar : ¬ StartsNegative pattern)
    (hcount : img.entryCount = img.numOfEntries.toNat)
    (hnames : ∀ j < img.numOfEntries.toNat, NameFits img j) (hfiles : FilesRegular img)
    (stack : ℕ → Buffer) (hrounds : 1023 * 4096 ≤ rounds) {m : ℕ}
    (hm : k + m = img.numOfEntries.toNat) {n : ℕ} (hn : m < n) (h : Searching img descs k)
    (buf : Buffer) :
    ∃ outs, grepLoop img search stack rounds (fdWord 2) n k buf descs =
        some (0#32, outs.flatten) ∧
      List.Forall₂ (fun j out => GrepEntry img pattern (stack j) j out) (List.range' k m) outs := by
  induction m generalizing k n descs buf with
  | zero =>
    obtain rfl : k = img.numOfEntries.toNat := hm
    obtain ⟨n, rfl⟩ : ∃ r, n = r + 1 := Nat.exists_eq_succ_of_ne_zero (by omega)
    obtain ⟨descs', hread, -⟩ := h.listing.read_end buf 32#32
    refine ⟨[], ?_, .nil⟩
    rw [grepLoop, hread]
    rfl
  | succ m ih =>
    obtain ⟨n, rfl⟩ : ∃ r, n = r + 1 := Nat.exists_eq_succ_of_ne_zero (by omega)
    have hk : k < img.numOfEntries.toNat := by omega
    have hfits := hnames k hk
    have hlen : (img.entryString k).length ≤ 32 := (length_stringOf_spec _ 32).1
    have hpos := hfits.pos
    obtain ⟨descs₁, hread, hlisting, hkept⟩ := h.listing.read hk hfits buf 32#32
    have hnext := h.next hlisting hkept
    have hval : (BitVec.ofNat 32 (img.entryString k).length).toNat = (img.entryString k).length :=
      FsImage.toNat_ofNat_of_lt (by omega)
    -- the count is neither 0 nor -1
    have hzero : BitVec.ofNat 32 (img.entryString k).length ≠ 0#32 := by
      intro heq
      rw [heq] at hval
      exact absurd hval hpos.ne
    have hfail : BitVec.ofNat 32 (img.entryString k).length ≠ -1#32 :=
      FsImage.ofNat_ne_neg_one (by omega)
    have hdot := first_eq_dot_iff hfits buf
    simp only [grepLoop, hread, Option.bind_eq_bind, Option.bind_some, if_neg hzero, if_neg hfail,
      hval, List.range'_succ]
    by_cases hhead : (img.entryString k).head? = some 0x2E#8
    · -- a name with a dot in front is passed over
      rw [if_pos (hdot.mpr hhead)]
      obtain ⟨outs, hrun, houts⟩ := ih (by omega) (by omega : m < n) hnext
        (buf.overwrite (img.entryName k) (img.entryString k).length)
      exact ⟨[] :: outs, hrun, .cons ⟨fun _ => rfl, fun hno => absurd hhead hno⟩ houts⟩
    · rw [if_neg (mt hdot.mp hhead)]
      have hspells := spells_entry hfits buf
      set fname := Function.update (buf.overwrite (img.entryName k) (img.entryString k).length)
        (img.entryString k).length 0#8
      obtain ⟨e, hle, hfirst⟩ := FsImage.exists_firstNamed (by omega : k < img.entryCount) rfl
      have hstream := hfiles k hk hhead e hle hfirst
      have hsize : (entryText img (img.dentry e)).length < rounds := by
        rw [entryText]
        split_ifs with htype
        · rcases hstream with hclock | ⟨-, hinode⟩
          · rw [hclock] at htype
            exact absurd htype (by decide)
          · rw [length_contents]
            exact (himg _ hinode).1.trans_le hrounds
        · exact (by decide : 0 < 1023 * 4096).trans_le hrounds
      obtain ⟨out, descs₂, hsearch, hwrites, hclosed, hkept'⟩ :=
        searchFile_eq himg hs hspells (readDentryByName_eq_some hspells hfirst) hstream
          hnext.freeDesc_eq (stack k) hsize
      obtain ⟨outs, hrun, houts⟩ := ih (by omega) (by omega : m < n) (hnext.congr hclosed hkept')
        fname
      refine ⟨out :: outs, ?_, .cons ⟨fun hdot => absurd hdot hhead, fun _ e' hfirst' => ?_⟩ houts⟩
      · rw [hsearch]
        simp only [Option.bind_some, ne_eq, not_true_eq_false, if_false, hrun, List.flatten_cons]
        rfl
      · -- there is one first entry of a name, and one output for its file
        obtain rfl : e' = e := by
          rcases Nat.lt_trichotomy e' e with hlt | heq | hgt
          · exact absurd hfirst'.named (hfirst.first e' hlt)
          · exact heq
          · exact absurd hfirst.named (hfirst'.first e hgt)
        intro hnul hshort hsplit
        have hsearches := searchesFor_pattern hs hpattern hchar hspells
        exact hwrites.unique hs.1
          ((grepWrites_iff hs.1 hsearches hpattern hnul hshort (stack k)).mpr hsplit)

/-- A launched `grep` goes through the whole directory and ends with 0. Whatever is on the stack, it
writes for every file of text the lines that contain its argument, and for every name that starts
with a dot nothing; a line that one of the two arrays of the search splits is left out. -/
theorem grepMain_launched {env : Env} {c : CommandLine} {rest stack : Buffer} {k k' : Kernel}
    {eip : Word} {e : ℕ} (himg : ValidInodes env.img)
    (hlaunch : execute env (c.memory rest) stack k = some (.userMode eip, k'))
    (hargs : c.args = some pattern) (hpattern : pattern ≠ []) (hchar : ¬ StartsNegative pattern)
    (hdir : env.img.FirstNamed (ascii ".") e) (htype : (env.img.dentry e).filetype = 1#32)
    (hnames : ∀ j < env.img.numOfEntries.toNat, NameFits env.img j)
    (hfiles : FilesRegular env.img) (buf search : Buffer) (arrays : ℕ → Buffer)
    (hrounds : 1023 * 4096 ≤ rounds) (hcount : env.img.numOfEntries.toNat < rounds) :
    ∃ outs, grepMain env.img k' buf search arrays rounds = some (0#32, outs.flatten) ∧
      List.Forall₂ (fun j out => GrepEntry env.img pattern (arrays j) j out)
        (List.range env.img.numOfEntries.toNat) outs := by
  obtain ⟨old, hdescs⟩ := currDescs_launched hlaunch
  have hget : GetsArgs k' pattern := by
    have htext : c.text = pattern := by rw [CommandLine.text, hargs, Option.getD_some]
    exact htext ▸ (getsArgs_launched_iff hlaunch).mpr (Or.inl (by rw [hargs]; rfl))
  obtain ⟨search', hget, hs⟩ :=
    hget.spells (c.nul_args pattern hargs) (c.length_args pattern hargs) search
  -- the directory has an entry, so its count is not negative
  have hentries : env.img.entryCount = env.img.numOfEntries.toNat := by
    have hpos := hdir.lt
    rw [FsImage.entryCount, BitVec.toInt_eq_toNat_cond] at hpos ⊢
    split_ifs at hpos ⊢ <;> omega
  have hspells : Spells (cString "." fun _ => 0#8) (ascii ".") :=
    spells_cString "." (by decide) (by decide) _
  obtain ⟨descs, hopen, hlisting, hkept⟩ := listing_open (readDentryByName_eq_some hspells hdir)
    htype (freeDesc_initDescs old)
  have hsearching : Searching env.img descs 0 := by
    refine ⟨hlisting, (hkept 1 (by decide)).trans rfl, fun j hj => ?_⟩
    have hne : j ≠ 2 := by
      rintro rfl
      exact absurd hj (by decide)
    rw [IsOpen, hkept j hne, initDescs, if_neg (by omega), not_not]
  obtain ⟨outs, hrun, houts⟩ := grepLoop_eq himg hs hpattern hchar hentries hnames hfiles arrays
    hrounds (Nat.zero_add _) hcount hsearching buf
  rw [← List.range_eq_range'] at houts
  refine ⟨outs, ?_, houts⟩
  rw [grepMain, hget, hdescs]
  simp only [Option.bind_eq_bind, Option.bind_some, hopen, ne_eq, not_true_eq_false, if_false,
    if_neg (fdWord_ne 2), hrun]

/-- The command `shell a`. -/
def shellWithWord : CommandLine where
  name := shellWithArgument.name
  args := some (ascii "a")
  name_ne_nil := shellWithArgument.name_ne_nil
  length_name := shellWithArgument.length_name
  endsName_name := shellWithArgument.endsName_name
  length_args := by decide +kernel
  nul_args := by decide +kernel

/-- It launches a program. -/
theorem exists_launch_shellWithWord : ∃ k k', execute diskEnv (shellWithWord.memory fun _ => 0#8)
    (fun _ => 0#8) k = some (.userMode 0x08048000#32, k') :=
  exists_launch (by decide +kernel)

theorem filesRegular_diskEnv : FilesRegular diskEnv.img := by
  have hfiles : ∀ e < diskEnv.img.numOfEntries.toNat, 0 < e →
      IsStream diskEnv.img (diskEnv.img.dentry e) := by
    decide +kernel
  have hdir : (diskEnv.img.entryString 0).head? = some 0x2E#8 := by decide +kernel
  intro j hj hhead e hle hfirst
  refine hfiles e (hle.trans_lt hj) (Nat.pos_of_ne_zero ?_)
  rintro rfl
  exact hhead (hfirst.named ▸ hdir)

/-- The search of the sample image for a letter. -/
theorem grepMain_launched_sample : ∃ k' outs,
    grepMain diskEnv.img k' (fun _ => 0#8) (fun _ => 0#8) (fun _ _ => 0#8) 5000000 =
        some (0#32, outs.flatten) ∧
      List.Forall₂ (fun j out => GrepEntry diskEnv.img (ascii "a") (fun _ => 0#8) j out)
        (List.range diskEnv.img.numOfEntries.toNat) outs := by
  obtain ⟨k, k', hlaunch⟩ := exists_launch_shellWithWord
  have hdir : diskEnv.img.FirstNamed (ascii ".") 0 :=
    ⟨by decide +kernel, by decide +kernel, by decide +kernel⟩
  have himg : ValidInodes diskEnv.img := validInodes_diskImage
  have hargs : shellWithWord.args = some (ascii "a") := rfl
  have hchar : ¬ StartsNegative (ascii "a") := by
    rintro ⟨b, hb, hneg⟩
    cases hb
    exact absurd hneg (by decide)
  have hentries : diskEnv.img.numOfEntries.toNat = 5 := by decide +kernel
  exact ⟨k', grepMain_launched himg hlaunch hargs (by decide) hchar hdir (by decide +kernel)
    (by decide +kernel) filesRegular_diskEnv (fun _ => 0#8) (fun _ => 0#8) (fun _ _ => 0#8)
    (by decide) (by rw [hentries]; decide)⟩

end

end Ece391
